import PhaseTree.Print.Pattern
import PhaseTree.Print.TypeExpr
import PhaseTree.Tree.Expr

set_option autoImplicit false

namespace PhaseTree

variable {A D V T : Type} [Named V] [Printable D] [Printable T]

namespace Expr

/-- `0 - x`, which is written as `-x`. -/
def isNegation (operator : V) (left : Expr A D V T) : Bool :=
  Named.bare operator == "-" && left.isInt 0

def isCons : Expr A D V T → Bool
  | data _ ctor args => Sugar.of ctor args.length == .cons
  | _ => false

end Expr

mutual
/-- A chain of applications, of lambdas or of lists prints flat: its inner links take the placement
under which they add nothing of their own. -/
def Expr.doc (config : Config) (placement : Placement) : Expr A D V T → Doc
  | .lit _ value => value.doc placement
  | .var _ name => nameDoc name
  | .range _ low high =>
    .brackets (low.doc config .operand ++ (.text ".." ++ high.doc config .operand))
  | .list _ items => .brackets (.separated ", " (exprDocs config .whole items))
  | .binop _ op left right =>
    placement.wrap
      (if left.isNegation op then .text "-" ++ right.doc config .operand
      else left.doc config .operand ++
        (.between " " " " (infixDoc op) ++ right.doc config .operand))
  | .lambda _ param body =>
    let params := param.doc .operand ++
      (if body.isLambda then .text " " ++ body.doc config .continuing
      else .text " -> " ++ body.doc config .whole)
    match placement with
    | .continuing => params
    | _ => placement.wrap (.text "\\" ++ params)
  | .app _ func arg =>
    placement.wrap
      (func.doc config (.chained func.isApp) ++ (.text " " ++ arg.doc config .operand))
  | .guards _ branches =>
    placement.wrap (.align (.text "if" ++ .concat (guardDocs config branches)))
  | .letIn _ defs body =>
    placement.wrap (.align (.text "let" ++ (.concat (defDocs config defs) ++
      (.newline 0 ++ (.text "in " ++ body.doc config .whole)))))
  | .case _ subject branches =>
    placement.wrap (.align (.text "case " ++ (subject.doc config .whole ++
      (.text " of" ++ .concat (branchDocs config branches)))))
  | .data _ ctor args =>
    match Sugar.of ctor args.length with
    | .cons => placement.wrap (.separated " :: " (consDocs config args))
    | .nil => .text "[]"
    | .tuple => .parens (.separated ", " (exprDocs config .whole args))
    | .plain => placement.wrapIf (!args.isEmpty) (.applied (.text ctor) (exprDocs config .operand args))
  | .access _ e field => e.doc config .operand ++ (.text "." ++ .text field)
  | .remove _ e field =>
    let removal := e.doc config .whole ++ (.text " - " ++ .text field)
    match placement with
    | .continuing => removal
    | _ => .braces removal
  | .insert _ e field value =>
    .braces (e.doc config (if e.isRemove then .continuing else .whole) ++
      (.text " | " ++ (.text field ++ (.text " = " ++ value.doc config .whole))))
  | .modify _ e fields =>
    .braces (e.doc config .whole ++
      (.text " | " ++ .separated ", " (fieldDocs config " <- " fields)))
  | .record _ fields => .braces (.separated ", " (fieldDocs config " = " fields))
  | .channel _ channel => .between "<port:" ">" (.text channel.name)
  | .shader _ _ _ => .text "[glsl| ... |]"
termination_by structural e => e
/-- The type stands on a line of its own before the definition. -/
def Def.doc (config : Config) : Def A D V T → Doc
  | .bind pattern body type =>
    let equation := pattern.doc .whole ++ (.text " = " ++ body.doc config .whole)
    match type with
    | none => equation
    | some type => .align (pattern.doc .whole ++
      (.text " : " ++ (Printable.doc config .whole type ++ (.newline 0 ++ equation))))
  | .foreign definition => Printable.doc config .whole definition
termination_by structural d => d
def exprDocs (config : Config) (placement : Placement) : List (Expr A D V T) → List Doc
  | [] => []
  | e :: rest => e.doc config placement :: exprDocs config placement rest
termination_by structural es => es
/-- Lists nest to the right, so only a last part that is a list itself stands without parentheses. -/
def consDocs (config : Config) : List (Expr A D V T) → List Doc
  | [] => []
  | e :: rest => e.doc config (.chained (rest.isEmpty && e.isCons)) :: consDocs config rest
termination_by structural es => es
def guardDocs (config : Config) : List (Expr A D V T × Expr A D V T) → List Doc
  | [] => []
  | (condition, result) :: rest =>
    (.newline config.ifIndent ++ (.text "| " ++ (condition.doc config .whole ++
      (.text " -> " ++ result.doc config .whole)))) :: guardDocs config rest
termination_by structural branches => branches
def defDocs (config : Config) : List (Def A D V T) → List Doc
  | [] => []
  | d :: rest => (.newline config.letIndent ++ d.doc config) :: defDocs config rest
termination_by structural defs => defs
def branchDocs (config : Config) : List (Pattern V × Expr A D V T) → List Doc
  | [] => []
  | (pattern, result) :: rest =>
    (.newline config.caseIndent ++ (pattern.doc .whole ++
      (.text " -> " ++ result.doc config .whole))) :: branchDocs config rest
termination_by structural branches => branches
/-- `relation` stands between a field and its value. -/
def fieldDocs (config : Config) (relation : String) : List (String × Expr A D V T) → List Doc
  | [] => []
  | (field, value) :: rest =>
    (.text field ++ (.text relation ++ value.doc config .whole)) :: fieldDocs config relation rest
termination_by structural fields => fields
end

theorem exprDocs_eq (config : Config) (placement : Placement) (es : List (Expr A D V T)) :
    exprDocs config placement es = es.map (Expr.doc config placement) := by
  induction es with
  | nil => rfl
  | cons e es ih => simp [exprDocs, ih]

theorem Expr.doc_lambda_whole (config : Config) (a : A) (param : Pattern V) (body : Expr A D V T) :
    (lambda a param body).doc config .whole =
      .text "\\" ++ (lambda a param body).doc config .continuing := by
  simp only [Expr.doc, Placement.wrap_whole]

instance : Printable (Expr A D V T) := ⟨Expr.doc⟩

instance : Printable (Def A D V T) := ⟨fun config _ => Def.doc config⟩

end PhaseTree
