import PhaseTree.Number.DecimalText
import PhaseTree.Print.Basic
import PhaseTree.Tree.Literal

set_option autoImplicit false

namespace PhaseTree

namespace Quoted

def escape (quote : Char) : Char → List Char
  | '\\' => ['\\', '\\']
  | '\n' => ['\\', 'n']
  | '\t' => ['\\', 't']
  | '\r' => ['\\', 'r']
  | '\x00' => ['\\', '0']
  | c => if c = quote then ['\\', c] else [c]

def encode (quote : Char) (text : List Char) : List Char :=
  quote :: text.flatMap (escape quote) ++ [quote]

def text (quote : Char) (s : String) : String := String.ofList (encode quote s.toList)

theorem toList_text (quote : Char) (s : String) :
    (text quote s).toList = quote :: (s.toList.flatMap (escape quote) ++ [quote]) :=
  String.toList_ofList

end Quoted

namespace Literal

/-- Numbers of magnitude `1e-4` up to, but not including, `1e16` are written positionally. -/
def floatStyle : DecimalStyle := ⟨-4, 15⟩

def floatText (x : Binary64) : String :=
  if x.isNaN then "0 / 0"
  else if x.isInfinite then (if x.isNegative then "-1 / 0" else "1 / 0")
  else x.write floatStyle

def spelling : Literal → String
  | int n => n.repr
  | float x => floatText x
  | char c => Quoted.text '\'' (String.singleton c)
  | text s => Quoted.text '"' s
  | bool true => "True"
  | bool false => "False"

/-- A sign or a division needs parentheses around it. -/
def isCompound : Literal → Bool
  | int n => n < 0
  | float x => !x.isFinite || x.isNegative
  | _ => false

def doc (placement : Placement) (value : Literal) : Doc :=
  placement.wrapIf value.isCompound (.text value.spelling)

end Literal

instance : Printable Literal := ⟨fun _ => Literal.doc⟩

end PhaseTree
