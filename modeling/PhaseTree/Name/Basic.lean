import PhaseTree.Name.Reserved

set_option autoImplicit false

namespace PhaseTree

/-- What every phase can say about a name: the bare identifier, which decides how it is laid out,
and the text that is shown for it. -/
class Named (V : Type) where
  bare : V → String
  display : V → String

structure RawName where
  text : String
  deriving DecidableEq

instance : Named RawName where
  bare := RawName.text
  display := RawName.text

structure ModulePath where
  segments : List String
  deriving DecidableEq

namespace ModulePath

def display (path : ModulePath) : String := ".".intercalate path.segments

def isAt (path : ModulePath) (segments : List String) : Bool :=
  path.segments.length == segments.length &&
    (path.segments.zip segments).all fun (found, expected) => found == expected

end ModulePath

inductive Origin where
  | builtIn
  | exported (path : ModulePath)
  | enclosing
  deriving DecidableEq

structure QualifiedName where
  origin : Origin
  name : String
  deriving DecidableEq

namespace QualifiedName

def builtIn (name : String) : QualifiedName := ⟨.builtIn, name⟩

def exported (path : List String) (name : String) : QualifiedName := ⟨.exported ⟨path⟩, name⟩

def enclosing (name : String) : QualifiedName := ⟨.enclosing, name⟩

/-- Only names exported by a module carry a qualifier. -/
def display (name : QualifiedName) : String :=
  match name.origin with
  | .exported path => path.display ++ "." ++ name.name
  | .builtIn => name.name
  | .enclosing => name.name

end QualifiedName

instance : Named QualifiedName where
  bare := QualifiedName.name
  display := QualifiedName.display

theorem bare_raw (name : RawName) : Named.bare name = name.text := rfl

theorem display_raw (name : RawName) : Named.display name = name.text := rfl

end PhaseTree
