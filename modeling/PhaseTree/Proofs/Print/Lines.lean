import PhaseTree.Proofs.Layout.Breaks
import PhaseTree.Proofs.Print.SingleLine
import PhaseTree.Proofs.Print.Unbroken

set_option autoImplicit false

/-!
How many lines printed trees take. Every line break belongs to one node: a branch of an `if` or `case`, a
definition of a `let`, its `in`, or the type in front of a definition. All other nodes, and all names,
patterns, types and literals, only add to a line.
-/

namespace PhaseTree

section

variable {A D V T : Type}

def Def.isAnnotated : Def A D V T → Bool
  | .bind _ _ type => type.isSome
  | .foreign _ => false

namespace Expr

/-- The line breaks that a node makes itself, those of its definitions included. -/
def ownBreaks : Expr A D V T → Nat
  | guards _ branches => branches.length
  | letIn _ defs _ => 1 + defs.length + defs.countP Def.isAnnotated
  | case _ _ branches => branches.length
  | _ => 0

def Spreads : Expr A D V T → Prop
  | guards _ branches => branches ≠ []
  | letIn _ _ _ => True
  | case _ _ branches => branches ≠ []
  | _ => False

theorem ownBreaks_eq_zero (e : Expr A D V T) : e.ownBreaks = 0 ↔ ¬ e.Spreads := by
  cases e with
  | guards _ branches => simp [ownBreaks, Spreads]
  | letIn _ defs body => simp [ownBreaks, Spreads]
  | case _ subject branches => simp [ownBreaks, Spreads]
  | _ => simp [ownBreaks, Spreads]

end Expr

end

section

variable {A V : Type}

mutual
/-- The nodes that are printed, each before those inside it. A channel shows none of its expressions. -/
def Expr.nodes : Expr A Empty V (TypeExpr V) → List (Expr A Empty V (TypeExpr V))
  | e@(.lit _ _) => [e]
  | e@(.var _ _) => [e]
  | e@(.range _ low high) => e :: (low.nodes ++ high.nodes)
  | e@(.list _ items) => e :: exprNodes items
  | e@(.binop _ _ left right) => e :: (left.nodes ++ right.nodes)
  | e@(.lambda _ _ body) => e :: body.nodes
  | e@(.app _ func arg) => e :: (func.nodes ++ arg.nodes)
  | e@(.guards _ branches) => e :: guardNodes branches
  | e@(.letIn _ defs body) => e :: (defNodes defs ++ body.nodes)
  | e@(.case _ subject branches) => e :: (subject.nodes ++ branchNodes branches)
  | e@(.data _ _ args) => e :: exprNodes args
  | e@(.access _ record _) => e :: record.nodes
  | e@(.remove _ record _) => e :: record.nodes
  | e@(.insert _ record _ value) => e :: (record.nodes ++ value.nodes)
  | e@(.modify _ record fields) => e :: (record.nodes ++ fieldNodes fields)
  | e@(.record _ fields) => e :: fieldNodes fields
  | e@(.channel _ _) => [e]
  | e@(.shader _ _ _) => [e]
termination_by structural e => e
def Def.nodes : Def A Empty V (TypeExpr V) → List (Expr A Empty V (TypeExpr V))
  | .bind _ body _ => body.nodes
  | .foreign definition => definition.elim
termination_by structural d => d
def exprNodes : List (Expr A Empty V (TypeExpr V)) → List (Expr A Empty V (TypeExpr V))
  | [] => []
  | e :: rest => e.nodes ++ exprNodes rest
termination_by structural es => es
def defNodes : List (Def A Empty V (TypeExpr V)) → List (Expr A Empty V (TypeExpr V))
  | [] => []
  | d :: rest => d.nodes ++ defNodes rest
termination_by structural defs => defs
def guardNodes : List (Expr A Empty V (TypeExpr V) × Expr A Empty V (TypeExpr V)) →
    List (Expr A Empty V (TypeExpr V))
  | [] => []
  | (condition, result) :: rest => condition.nodes ++ (result.nodes ++ guardNodes rest)
termination_by structural branches => branches
def branchNodes : List (Pattern V × Expr A Empty V (TypeExpr V)) →
    List (Expr A Empty V (TypeExpr V))
  | [] => []
  | (_, result) :: rest => result.nodes ++ branchNodes rest
termination_by structural branches => branches
def fieldNodes : List (String × Expr A Empty V (TypeExpr V)) → List (Expr A Empty V (TypeExpr V))
  | [] => []
  | (_, value) :: rest => value.nodes ++ fieldNodes rest
termination_by structural fields => fields
end

def nodeBreaks (nodes : List (Expr A Empty V (TypeExpr V))) : Nat := (nodes.map Expr.ownBreaks).sum

@[simp] theorem nodeBreaks_nil : nodeBreaks ([] : List (Expr A Empty V (TypeExpr V))) = 0 := rfl

@[simp] theorem nodeBreaks_cons (e : Expr A Empty V (TypeExpr V)) (rest) :
    nodeBreaks (e :: rest) = e.ownBreaks + nodeBreaks rest := by
  simp [nodeBreaks]

@[simp] theorem nodeBreaks_append (nodes nodes' : List (Expr A Empty V (TypeExpr V))) :
    nodeBreaks (nodes ++ nodes') = nodeBreaks nodes + nodeBreaks nodes' := by
  simp [nodeBreaks]

theorem nodeBreaks_eq_zero (nodes : List (Expr A Empty V (TypeExpr V))) :
    nodeBreaks nodes = 0 ↔ ∀ node ∈ nodes, ¬ node.Spreads := by
  induction nodes with
  | nil => simp
  | cons e rest ih =>
    rw [nodeBreaks_cons, Nat.add_eq_zero_iff, e.ownBreaks_eq_zero, ih, List.forall_mem_cons]

end

namespace Placement

@[simp] theorem breaks_wrap (placement : Placement) (doc : Doc) :
    (placement.wrap doc).breaks = doc.breaks := by
  cases placement <;> simp [wrap]

@[simp] theorem breaks_wrapIf (compound : Bool) (placement : Placement) (doc : Doc) :
    (placement.wrapIf compound doc).breaks = doc.breaks := by
  cases compound <;> simp [wrapIf]

end Placement

section

variable {A V : Type} [Named V]

theorem Expr.nodeBreaks_of_isNegation {op : V} {left : Expr A Empty V (TypeExpr V)}
    (h : left.isNegation op = true) : nodeBreaks left.nodes = 0 := by
  have hz : left.isInt 0 = true := (Bool.and_eq_true_iff.1 h).2
  cases left with
  | lit _ value => rfl
  | _ => cases hz

theorem nil_of_sugar {X : Type} {name : String} {args : List X}
    (h : Sugar.of name args.length = .nil) : args = [] :=
  List.length_eq_zero_iff.1 ((Sugar.of_eq_nil_iff _ _).1 h).2

mutual
theorem Expr.breaks_doc (config : Config) (placement : Placement)
    (e : Expr A Empty V (TypeExpr V)) :
    (e.doc config placement).breaks = nodeBreaks e.nodes := by
  cases e with
  | lit _ value =>
    rw [Expr.doc, (onOneLine_literal placement value).breaks]
    rfl
  | var _ name =>
    rw [Expr.doc, (onOneLine_nameDoc name).breaks]
    rfl
  | range _ low high =>
    have hl := Expr.breaks_doc config .operand low
    have hh := Expr.breaks_doc config .operand high
    simp [Expr.doc, Expr.ownBreaks, Expr.nodes, hl, hh]
  | list _ items =>
    have hi := exprDocs_breaks config .whole items
    simp [Expr.doc, Expr.ownBreaks, Expr.nodes, hi]
  | binop _ op left right =>
    have hl := Expr.breaks_doc config .operand left
    have hr := Expr.breaks_doc config .operand right
    have ho : (infixDoc op).breaks = 0 := (onOneLine_infixDoc op).breaks
    rw [Expr.doc, Placement.breaks_wrap]
    split
    case isTrue hn =>
      -- The zero on the left is not printed, which saves no line.
      have hz := Expr.nodeBreaks_of_isNegation hn
      simp [Expr.ownBreaks, Expr.nodes, hr, hz]
    case isFalse hn => simp [Expr.ownBreaks, Expr.nodes, hl, hr, ho]
  | lambda _ param body =>
    have hp : (param.doc .operand).breaks = 0 := (param.doc_onOneLine .operand).breaks
    have hc := Expr.breaks_doc config .continuing body
    have hw := Expr.breaks_doc config .whole body
    cases placement <;> cases hl : body.isLambda <;>
      simp [Expr.doc, Expr.ownBreaks, Expr.nodes, hl, hp, hc, hw]
  | app _ func arg =>
    have hf := Expr.breaks_doc config (.chained func.isApp) func
    have ha := Expr.breaks_doc config .operand arg
    simp [Expr.doc, Expr.ownBreaks, Expr.nodes, hf, ha]
  | guards _ branches =>
    have hb := guardDocs_breaks config branches
    simp [Expr.doc, Expr.ownBreaks, Expr.nodes, hb]
  | letIn _ defs body =>
    have hd := defDocs_breaks config defs
    have hb := Expr.breaks_doc config .whole body
    simp only [Expr.doc, Expr.ownBreaks, Expr.nodes, Placement.breaks_wrap, Doc.breaks_align,
      Doc.breaks_append, Doc.breaks_text, Doc.breaks_newline, Doc.breaks_concat, nodeBreaks_cons,
      nodeBreaks_append, hd, hb]
    omega
  | case _ subject branches =>
    have hs := Expr.breaks_doc config .whole subject
    have hb := branchDocs_breaks config branches
    simp only [Expr.doc, Expr.ownBreaks, Expr.nodes, Placement.breaks_wrap, Doc.breaks_align,
      Doc.breaks_append, Doc.breaks_text, Doc.breaks_concat, nodeBreaks_cons, nodeBreaks_append, hs, hb]
    omega
  | data note ctor args =>
    have hd := exprDocs_breaks config .operand args
    have hw := exprDocs_breaks config .whole args
    have hc := consDocs_breaks config args
    have hn : nodeBreaks (Expr.data note ctor args).nodes = nodeBreaks (exprNodes args) := by
      simp [Expr.nodes, Expr.ownBreaks]
    rw [Expr.doc, hn]
    split
    case h_1 => simpa using hc
    case h_2 hs =>
      rw [nil_of_sugar hs]
      rfl
    case h_3 => simpa using hw
    case h_4 => simpa using hd
  | access _ e field =>
    have he := Expr.breaks_doc config .operand e
    simp [Expr.doc, Expr.ownBreaks, Expr.nodes, he]
  | remove _ e field =>
    have he := Expr.breaks_doc config .whole e
    cases placement <;> simp [Expr.doc, Expr.ownBreaks, Expr.nodes, he]
  | insert _ e field value =>
    have he := Expr.breaks_doc config (if e.isRemove then .continuing else .whole) e
    have hv := Expr.breaks_doc config .whole value
    simp [Expr.doc, Expr.ownBreaks, Expr.nodes, he, hv]
  | modify _ e fields =>
    have he := Expr.breaks_doc config .whole e
    have hf := fieldDocs_breaks config " <- " fields
    simp [Expr.doc, Expr.ownBreaks, Expr.nodes, he, hf]
  | record _ fields =>
    have hf := fieldDocs_breaks config " = " fields
    simp [Expr.doc, Expr.ownBreaks, Expr.nodes, hf]
  | channel _ channel => rfl
  | shader _ _ _ => rfl
termination_by structural e
theorem Def.breaks_doc (config : Config) (d : Def A Empty V (TypeExpr V)) :
    (d.doc config).breaks = (if d.isAnnotated then 1 else 0) + nodeBreaks d.nodes := by
  rcases d with ⟨pattern, body, type⟩ | definition
  · have hp : (pattern.doc .whole).breaks = 0 := (pattern.doc_onOneLine .whole).breaks
    have hb := Expr.breaks_doc config .whole body
    cases type with
    | none => simp [Def.doc, Def.isAnnotated, Def.nodes, hp, hb]
    | some type =>
      have ht : (Printable.doc config .whole type).breaks = 0 := (type.doc_onOneLine .whole).breaks
      simp [Def.doc, Def.isAnnotated, Def.nodes, hp, ht, hb]
  · exact definition.elim
termination_by structural d
theorem exprDocs_breaks (config : Config) (placement : Placement)
    (es : List (Expr A Empty V (TypeExpr V))) :
    ((exprDocs config placement es).map Doc.breaks).sum = nodeBreaks (exprNodes es) := by
  cases es with
  | nil => rfl
  | cons e es =>
    have he := Expr.breaks_doc config placement e
    have hes := exprDocs_breaks config placement es
    simp [exprDocs, exprNodes, he, hes]
termination_by structural es
theorem consDocs_breaks (config : Config) (es : List (Expr A Empty V (TypeExpr V))) :
    ((consDocs config es).map Doc.breaks).sum = nodeBreaks (exprNodes es) := by
  cases es with
  | nil => rfl
  | cons e es =>
    have he := Expr.breaks_doc config (.chained (es.isEmpty && e.isCons)) e
    have hes := consDocs_breaks config es
    simp [consDocs, exprNodes, he, hes]
termination_by structural es
theorem guardDocs_breaks (config : Config)
    (branches : List (Expr A Empty V (TypeExpr V) × Expr A Empty V (TypeExpr V))) :
    ((guardDocs config branches).map Doc.breaks).sum =
      branches.length + nodeBreaks (guardNodes branches) := by
  rcases branches with _ | ⟨⟨condition, result⟩, branches⟩
  · rfl
  · have hc := Expr.breaks_doc config .whole condition
    have hr := Expr.breaks_doc config .whole result
    have hb := guardDocs_breaks config branches
    simp only [guardDocs, guardNodes, List.map_cons, List.sum_cons, List.length_cons, Doc.breaks_append,
      Doc.breaks_text, Doc.breaks_newline, nodeBreaks_append, hc, hr, hb]
    omega
termination_by structural branches
theorem defDocs_breaks (config : Config) (defs : List (Def A Empty V (TypeExpr V))) :
    ((defDocs config defs).map Doc.breaks).sum =
      defs.length + defs.countP Def.isAnnotated + nodeBreaks (defNodes defs) := by
  cases defs with
  | nil => rfl
  | cons d defs =>
    have hd := Def.breaks_doc config d
    have hds := defDocs_breaks config defs
    simp only [defDocs, defNodes, List.map_cons, List.sum_cons, List.length_cons, List.countP_cons,
      Doc.breaks_append, Doc.breaks_newline, nodeBreaks_append, hd, hds]
    omega
termination_by structural defs
theorem branchDocs_breaks (config : Config)
    (branches : List (Pattern V × Expr A Empty V (TypeExpr V))) :
    ((branchDocs config branches).map Doc.breaks).sum =
      branches.length + nodeBreaks (branchNodes branches) := by
  rcases branches with _ | ⟨⟨pattern, result⟩, branches⟩
  · rfl
  · have hp : (pattern.doc .whole).breaks = 0 := (pattern.doc_onOneLine .whole).breaks
    have hr := Expr.breaks_doc config .whole result
    have hb := branchDocs_breaks config branches
    simp only [branchDocs, branchNodes, List.map_cons, List.sum_cons, List.length_cons, Doc.breaks_append,
      Doc.breaks_text, Doc.breaks_newline, nodeBreaks_append, hp, hr, hb]
    omega
termination_by structural branches
theorem fieldDocs_breaks (config : Config) (relation : String)
    (fields : List (String × Expr A Empty V (TypeExpr V))) :
    ((fieldDocs config relation fields).map Doc.breaks).sum = nodeBreaks (fieldNodes fields) := by
  rcases fields with _ | ⟨⟨field, value⟩, fields⟩
  · rfl
  · have hv := Expr.breaks_doc config .whole value
    have hf := fieldDocs_breaks config relation fields
    simp [fieldDocs, fieldNodes, hv, hf]
termination_by structural fields
end

/-- What printing adds to a canvas breaks the line `count` times, and stays on it exactly if `single`. -/
def BreaksLine {X : Type} [Printable X] (value : X) (count : Nat) (single : Prop) : Prop :=
  ∀ config placement (canvas : Canvas), ∃ added,
    (draw config placement value canvas).text = canvas.text ++ added ∧
    added.toList.count '\n' = count ∧ ('\n' ∉ added.toList ↔ single)

theorem BreaksLine.of_doc {X : Type} [Printable X] {value : X} {count : Nat} {single : Prop}
    (hu : ∀ config placement, (Printable.doc config placement value).Unbroken)
    (hb : ∀ config placement, (Printable.doc config placement value).breaks = count)
    (hs : count = 0 ↔ single) : BreaksLine value count single := by
  intro config placement canvas
  refine ⟨_, (Printable.doc config placement value).text_draw canvas, ?_⟩
  have hc := (Printable.doc config placement value).count_piece (hu config placement) canvas.column
    canvas.column
  rw [String.toList_ofList, ← List.count_eq_zero, hc, hb]
  exact ⟨rfl, hs⟩

/-- Every line break is made by one node that is shown, or by the type of the definition printed. -/
theorem breaksLine_nodes :
    (∀ e : Expr A Empty V (TypeExpr V), (∀ label ∈ e.labels, Unbroken label) →
      BreaksLine e (nodeBreaks e.nodes) (∀ node ∈ e.nodes, ¬ node.Spreads)) ∧
    (∀ d : Def A Empty V (TypeExpr V), (∀ label ∈ d.labels, Unbroken label) →
      BreaksLine d ((if d.isAnnotated then 1 else 0) + nodeBreaks d.nodes)
        (d.isAnnotated = false ∧ ∀ node ∈ d.nodes, ¬ node.Spreads)) := by
  constructor
  · intro e h
    exact .of_doc (fun config placement => e.doc_unbroken config placement h)
      (fun config placement => e.breaks_doc config placement) (nodeBreaks_eq_zero e.nodes)
  · intro d h
    have hs : (if d.isAnnotated then 1 else 0) + nodeBreaks d.nodes = 0 ↔
        d.isAnnotated = false ∧ ∀ node ∈ d.nodes, ¬ node.Spreads := by
      rw [Nat.add_eq_zero_iff, nodeBreaks_eq_zero]
      simp
    exact .of_doc (fun config _ => d.doc_unbroken config h) (fun config _ => d.breaks_doc config) hs

/-- What a channel sends and what a literal holds makes no line break; a type makes one. -/
theorem breaksLine_nodes_let :
    let unseen : ParsedExpr := .letIn .synthetic [] (.lit .synthetic (.bool true))
    let body : ParsedExpr := .case .synthetic (.lit .synthetic (.text "a\nb"))
      [(.any, .channel .synthetic (.outbound "out" unseen (.con ⟨"T"⟩)))]
    let d : ParsedDef := .bind (.var "f") body (some (.con ⟨"T"⟩))
    let e : ParsedExpr := .letIn .synthetic [d, .bind .any (.guards .synthetic []) none] body
    (∀ label ∈ d.labels, Unbroken label) ∧ (∀ label ∈ e.labels, Unbroken label) ∧
      d.isAnnotated = true ∧ nodeBreaks d.nodes = 1 ∧ nodeBreaks e.nodes = 6 ∧
      BreaksLine d ((if d.isAnnotated then 1 else 0) + nodeBreaks d.nodes)
        (d.isAnnotated = false ∧ ∀ node ∈ d.nodes, ¬ node.Spreads) ∧
      BreaksLine e (nodeBreaks e.nodes) (∀ node ∈ e.nodes, ¬ node.Spreads) := by
  intro unseen body d e
  have hd : ∀ label ∈ d.labels, Unbroken label := by decide
  have he : ∀ label ∈ e.labels, Unbroken label := by decide
  obtain ⟨exprs, defs⟩ := @breaksLine_nodes Span RawName _
  exact ⟨hd, he, rfl, rfl, rfl, defs d hd, exprs e he⟩

end

end PhaseTree
