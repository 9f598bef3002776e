import PhaseTree.Number.Binary64

set_option autoImplicit false

namespace PhaseTree

inductive Literal where
  | int (value : Int)
  | float (value : Binary64)
  | char (value : Char)
  | text (value : String)
  | bool (value : Bool)

/-- Floats are compared as numbers, so a literal that is not a number differs from itself. -/
def Literal.same : Literal → Literal → Bool
  | int a, int b => a == b
  | float a, float b => a.same b
  | char a, char b => a == b
  | text a, text b => a == b
  | bool a, bool b => a == b
  | _, _ => false

instance : BEq Literal := ⟨Literal.same⟩

end PhaseTree
