import PhaseTree.Print.Literal
import PhaseTree.Print.Name
import PhaseTree.Print.Sugar
import PhaseTree.Tree.Pattern

set_option autoImplicit false

namespace PhaseTree

namespace Pattern

variable {V : Type} [Named V]

def isCons : Pattern V → Bool
  | data name args => Sugar.of (Named.bare name) args.length == .cons
  | _ => false

mutual
def doc (placement : Placement) : Pattern V → Doc
  | data name args =>
    match Sugar.of (Named.bare name) args.length with
    | .cons => placement.wrap (.separated " :: " (consDocs args))
    | .nil => .text "[]"
    | .tuple => .parens (.separated ", " (docs .whole args))
    | .plain =>
      placement.wrapIf (!args.isEmpty) (.applied (.text (Named.display name)) (docs .operand args))
  | record fields => .braces (.separated ", " (fields.map .text))
  | named name inner => placement.wrap (inner.doc .operand ++ (.text " as " ++ bareDoc name))
  | var name => bareDoc name
  | any => .text "_"
  | lit value => value.doc placement
termination_by structural p => p
def docs (placement : Placement) : List (Pattern V) → List Doc
  | [] => []
  | p :: rest => p.doc placement :: docs placement rest
termination_by structural ps => ps
/-- Lists nest to the right, so only a last part that is a list itself stands without parentheses. -/
def consDocs : List (Pattern V) → List Doc
  | [] => []
  | p :: rest => p.doc (.chained (rest.isEmpty && p.isCons)) :: consDocs rest
termination_by structural ps => ps
end

theorem docs_eq (placement : Placement) (ps : List (Pattern V)) :
    docs placement ps = ps.map (doc placement) := by
  induction ps with
  | nil => rfl
  | cons p ps ih => simp [docs, ih]

end Pattern

instance {V : Type} [Named V] : Printable (Pattern V) := ⟨fun _ => Pattern.doc⟩

end PhaseTree
