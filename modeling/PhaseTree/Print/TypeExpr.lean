import PhaseTree.Print.Name
import PhaseTree.Tree.TypeExpr

set_option autoImplicit false

namespace PhaseTree.TypeExpr

variable {V : Type} [Named V]

/-- Whether an application of this head is written as a tuple. -/
def isTupleHead : TypeExpr V → Bool
  | con name => Reserved.isTupleName (Named.bare name)
  | _ => false

mutual
def doc (placement : Placement) : TypeExpr V → Doc
  | function argument result =>
    placement.wrap (argument.doc (.ofParens argument.isFunction) ++
      (.text " -> " ++ result.doc .whole))
  | var name => .text name
  | con name => .text (Named.display name)
  | app head args =>
    if head.isTupleHead then .parens (.separated ", " (docs .whole args))
    else placement.wrapIf (!args.isEmpty) (.applied (head.doc .operand) (docs .operand args))
  | record fields extension =>
    if fields.isEmpty && extension.isNone then .text "\x7b\x7d"
    else .braces (.between " " " " (extensionDoc extension ++ .separated ", " (fieldDocs fields)))
termination_by structural t => t
def docs (placement : Placement) : List (TypeExpr V) → List Doc
  | [] => []
  | t :: rest => t.doc placement :: docs placement rest
termination_by structural ts => ts
def fieldDocs : List (String × TypeExpr V) → List Doc
  | [] => []
  | (field, t) :: rest => (.text field ++ (.text " : " ++ t.doc .whole)) :: fieldDocs rest
termination_by structural fields => fields
def extensionDoc : Option (TypeExpr V) → Doc
  | none => .empty
  | some t => t.doc .whole ++ .text " | "
termination_by structural extension => extension
end

theorem docs_eq (placement : Placement) (ts : List (TypeExpr V)) :
    docs placement ts = ts.map (doc placement) := by
  induction ts with
  | nil => rfl
  | cons t ts ih => simp [docs, ih]

instance : Printable (TypeExpr V) := ⟨fun _ => doc⟩

end PhaseTree.TypeExpr
