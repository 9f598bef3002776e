import PhaseTree.Name.Basic

set_option autoImplicit false

namespace PhaseTree

instance : Ord RawName := ⟨compareOn RawName.text⟩

instance : Ord ModulePath := ⟨compareOn ModulePath.segments⟩

namespace Origin

def rank : Origin → Nat
  | .builtIn => 0
  | .exported _ => 1
  | .enclosing => 2

/-- Empty for the origins that have no path, where the rank alone decides. -/
def path : Origin → ModulePath
  | .exported path => path
  | _ => ⟨[]⟩

end Origin

instance : Ord Origin := ⟨compareLex (compareOn Origin.rank) (compareOn Origin.path)⟩

instance : Ord QualifiedName :=
  ⟨compareLex (compareOn QualifiedName.origin) (compareOn QualifiedName.name)⟩

def insertName (name : QualifiedName) : List QualifiedName → List QualifiedName
  | [] => [name]
  | other :: rest =>
    match compare name other with
    | .lt => name :: other :: rest
    | .eq => other :: rest
    | .gt => other :: insertName name rest

def nameSet (names : List QualifiedName) : List QualifiedName := names.foldr insertName []

end PhaseTree
