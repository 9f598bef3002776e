import PhaseTree.Tree.Conversion

set_option autoImplicit false

namespace PhaseTree

structure Numbered where
  number : Nat
  span : Span
  deriving DecidableEq

namespace Resolution

inductive Event where
  | node (number : Nat)
  | definition
  | name (text : String)
  | type
  | con (text : String)
  deriving DecidableEq

/-- What happened so far; `events` starts with the latest. -/
structure Journal where
  nodes : Nat
  events : List Event

namespace Journal

def empty : Journal := ⟨0, []⟩

def add (event : Event) (journal : Journal) : Journal :=
  { journal with events := event :: journal.events }

def history (journal : Journal) : List Event := journal.events.reverse

end Journal

abbrev Scope := List (String × QualifiedName)

/-- Names that the scope does not know belong to the enclosing scope. -/
def Scope.resolve (scope : Scope) (name : RawName) : QualifiedName :=
  (scope.lookup name.text).getD (.enclosing name.text)

def record (event : Event) : StateM Journal Unit := modify (Journal.add event)

def number (span : Span) : StateM Journal Numbered := do
  let number := (← get).nodes + 1
  modify fun journal => { journal with nodes := number }
  record (.node number)
  return ⟨number, span⟩

def con (scope : Scope) (name : RawName) : StateM Journal QualifiedName := do
  record (.con name.text)
  return scope.resolve name

def conversion (scope : Scope) :
    Conversion Journal Span Empty RawName (TypeExpr RawName)
      Numbered Empty QualifiedName (TypeExpr QualifiedName) where
  note := number
  name name := do
    record (.name name.text)
    return scope.resolve name
  type type := do
    record .type
    type.convert (con scope)
  foreign := nofun
  definition _ traverse := do
    record .definition
    traverse

end Resolution

abbrev ResolvedExpr := Expr Numbered Empty QualifiedName (TypeExpr QualifiedName)

abbrev ResolvedDef := Def Numbered Empty QualifiedName (TypeExpr QualifiedName)

def Expr.resolve (scope : Resolution.Scope) (e : ParsedExpr) :
    ResolvedExpr × Resolution.Journal :=
  (e.convert (Resolution.conversion scope)).run .empty

def Def.resolve (scope : Resolution.Scope) (d : ParsedDef) :
    ResolvedDef × Resolution.Journal :=
  (d.convert (Resolution.conversion scope)).run .empty

end PhaseTree
