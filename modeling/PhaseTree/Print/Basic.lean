import PhaseTree.Layout.Doc
import PhaseTree.Name.Basic

set_option autoImplicit false

namespace PhaseTree

structure Config where
  letIndent : Nat
  ifIndent : Nat
  caseIndent : Nat
  deriving DecidableEq

def Config.standard : Config := ⟨4, 3, 2⟩

/-- Where a value stands in the text around it. -/
inductive Placement where
  | whole
  /-- It has to look like one atom, so compound forms put themselves into parentheses. -/
  | operand
  /-- It continues the form around it, which has opened already and will close itself. -/
  | continuing
  deriving DecidableEq

namespace Placement

def wrap : Placement → Doc → Doc
  | operand, doc => doc.parens
  | whole, doc => doc
  | continuing, doc => doc

def wrapIf (compound : Bool) (placement : Placement) (doc : Doc) : Doc :=
  if compound then placement.wrap doc else doc

def ofParens (parens : Bool) : Placement := if parens then operand else whole

def chained (goesOn : Bool) : Placement := if goesOn then whole else operand

theorem wrap_whole (doc : Doc) : whole.wrap doc = doc := rfl

theorem wrap_operand (doc : Doc) : operand.wrap doc = doc.parens := rfl

end Placement

class Printable (α : Type) where
  doc : Config → Placement → α → Doc

instance : Printable Empty := ⟨fun _ _ => nofun⟩

def format {α : Type} [Printable α] (config : Config) (value : α) : String :=
  (Printable.doc config .whole value).toText

def draw {α : Type} [Printable α] (config : Config) (placement : Placement) (value : α) :
    Canvas → Canvas :=
  (Printable.doc config placement value).draw

end PhaseTree
