import Mathlib.Tactic.SplitIfs
import PhaseTree.Proofs.Layout.Anchoring
import PhaseTree.Proofs.Print.SingleLine

set_option autoImplicit false

namespace PhaseTree

variable {A D V T : Type} [Named V]

def Literal.Compound : Literal → Prop
  | int n => n < 0
  | float x => x.isNegative = true ∨ x.isFinite = false
  | _ => False

instance : (value : Literal) → Decidable value.Compound
  | .int n => inferInstanceAs (Decidable (n < 0))
  | .float x => inferInstanceAs (Decidable (x.isNegative = true ∨ x.isFinite = false))
  | .char _ | .text _ | .bool _ => isFalse id

/-- Behind a constructor of tuples the arguments do not count: a tuple has parentheses of its own. -/
def IsApplied {X : Type} (ctor : Option String) (args : List X) : Prop :=
  args.isEmpty = false ∧ ctor.any Reserved.isTupleName = false

instance {X : Type} (ctor : Option String) (args : List X) : Decidable (IsApplied ctor args) :=
  inferInstanceAs (Decidable (_ ∧ _))

def Pattern.Compound : Pattern V → Prop
  | data name args => IsApplied (some (Named.bare name)) args
  | named _ _ => True
  | lit value => value.Compound
  | _ => False

instance : (p : Pattern V) → Decidable p.Compound
  | .data name args => inferInstanceAs (Decidable (IsApplied (some (Named.bare name)) args))
  | .named _ _ => isTrue trivial
  | .lit value => inferInstanceAs (Decidable value.Compound)
  | .record _ | .var _ | .any => isFalse id

def TypeExpr.Compound : TypeExpr V → Prop
  | function _ _ => True
  | app head args => IsApplied (head.con?.map Named.bare) args
  | _ => False

instance : (t : TypeExpr V) → Decidable t.Compound
  | .function _ _ => isTrue trivial
  | .app head args => inferInstanceAs (Decidable (IsApplied (head.con?.map Named.bare) args))
  | .var _ | .con _ | .record _ _ => isFalse id

def Expr.Compound : Expr A D V T → Prop
  | lit _ value => value.Compound
  | binop _ _ _ _ => True
  | lambda _ _ _ => True
  | app _ _ _ => True
  | guards _ _ => True
  | letIn _ _ _ => True
  | case _ _ _ => True
  | data _ ctor args => IsApplied (some ctor) args
  | _ => False

instance : (e : Expr A D V T) → Decidable e.Compound
  | .lit _ value => inferInstanceAs (Decidable value.Compound)
  | .binop _ _ _ _ | .lambda _ _ _ | .app _ _ _ => isTrue trivial
  | .guards _ _ | .letIn _ _ _ | .case _ _ _ => isTrue trivial
  | .data _ ctor args => inferInstanceAs (Decidable (IsApplied (some ctor) args))
  | .var _ _ | .range _ _ _ | .list _ _ | .access _ _ _ | .remove _ _ _ => isFalse id
  | .insert _ _ _ _ | .modify _ _ _ | .record _ _ | .channel _ _ | .shader _ _ _ => isFalse id

theorem Literal.doc_operand (value : Literal) : value.doc .operand =
    if value.Compound then (value.doc .whole).parens else value.doc .whole := by
  have hc : value.isCompound = decide value.Compound := by
    cases value with
    | float x => cases hf : x.isFinite <;> simp [isCompound, Compound, hf]
    | int n => rfl
    | char _ | text _ | bool _ => rfl
  by_cases h : value.Compound
  · simp [doc, hc, h, Placement.wrapIf, Placement.wrap]
  · simp [doc, hc, h, Placement.wrapIf]

theorem isApplied_iff {X : Type} (name : String) (args : List X) : IsApplied (some name) args ↔
    match Sugar.of name args.length with
    | .cons => True
    | .nil => False
    | .tuple => False
    | .plain => args.isEmpty = false := by
  unfold IsApplied Sugar.of
  rw [Option.any_some]
  split_ifs with hcons hnil htuple
  · have hne : args ≠ [] := by
      intro h
      simp [h] at hcons
    simp [hne, hcons.1, Reserved.isTupleName_cons]
  · have he : args = [] := List.eq_nil_of_length_eq_zero hnil.2
    simp [he]
  · simp [htuple]
  · simp [htuple]

theorem Pattern.doc_operand (p : Pattern V) : p.doc .operand =
    if p.Compound then (p.doc .whole).parens else p.doc .whole := by
  cases p with
  | data name args =>
    have happlied := isApplied_iff (Named.bare name) args
    rw [Pattern.doc, Pattern.doc]
    cases hs : Sugar.of (Named.bare name) args.length with
    | cons | nil | tuple =>
      simp only [hs] at happlied
      simp [Compound, happlied, Placement.wrap]
    | plain =>
      simp only [hs] at happlied
      cases he : args.isEmpty <;> simp [Compound, happlied, he, Placement.wrapIf, Placement.wrap]
  | named name inner => simp [Pattern.doc, Compound, Placement.wrap]
  | lit value =>
    rw [Pattern.doc, Pattern.doc]
    exact value.doc_operand
  | record _ | var _ | any => simp [Pattern.doc, Compound]

theorem TypeExpr.isTupleHead_eq (head : TypeExpr V) :
    head.isTupleHead = (head.con?.map Named.bare).any Reserved.isTupleName := by
  cases head <;> rfl

theorem TypeExpr.doc_operand (t : TypeExpr V) : t.doc .operand =
    if t.Compound then (t.doc .whole).parens else t.doc .whole := by
  cases t with
  | function argument result => simp [TypeExpr.doc, Compound, Placement.wrap]
  | app head args =>
    have hh := head.isTupleHead_eq.symm
    rw [TypeExpr.doc, TypeExpr.doc]
    cases htuple : head.isTupleHead with
    | true => simp [Compound, IsApplied, hh, htuple]
    | false =>
      cases he : args.isEmpty <;>
        simp [Compound, IsApplied, hh, htuple, he, Placement.wrapIf, Placement.wrap]
  | var _ | con _ | record _ _ => simp [TypeExpr.doc, Compound]

variable [Printable D] [Printable T]

theorem Expr.doc_operand (config : Config) (e : Expr A D V T) : e.doc config .operand =
    if e.Compound then (e.doc config .whole).parens else e.doc config .whole := by
  cases e with
  | lit a value =>
    rw [Expr.doc, Expr.doc]
    exact value.doc_operand
  | data a ctor args =>
    have happlied := isApplied_iff ctor args
    rw [Expr.doc, Expr.doc]
    cases hs : Sugar.of ctor args.length with
    | cons | nil | tuple =>
      simp only [hs] at happlied
      simp [Compound, happlied, Placement.wrap]
    | plain =>
      simp only [hs] at happlied
      cases he : args.isEmpty <;> simp [Compound, happlied, he, Placement.wrapIf, Placement.wrap]
  | binop _ _ _ _ | lambda _ _ _ | app _ _ _ => simp [Expr.doc, Compound, Placement.wrap]
  | guards _ _ | letIn _ _ _ | case _ _ _ => simp [Expr.doc, Compound, Placement.wrap]
  | var _ _ | range _ _ _ | list _ _ | access _ _ _ | remove _ _ _ => simp [Expr.doc, Compound]
  | insert _ _ _ _ | modify _ _ _ | record _ _ | channel _ _ => simp [Expr.doc, Compound]
  | shader _ _ _ => simp [Expr.doc, Compound]

namespace Placement

@[simp] theorem anchored_wrap (placement : Placement) (doc : Doc) :
    (placement.wrap doc).Anchored ↔ doc.Anchored := by
  cases placement <;> simp [wrap, Doc.parens]

@[simp] theorem anchored_wrapIf (compound : Bool) (placement : Placement) (doc : Doc) :
    (placement.wrapIf compound doc).Anchored ↔ doc.Anchored := by
  cases compound <;> simp [wrapIf]

end Placement

mutual
/-- The forms of several lines are aligned, so it does not matter what they hold. -/
theorem Expr.doc_anchored (config : Config) (placement : Placement) (e : Expr A D V T) :
    (e.doc config placement).Anchored := by
  cases e with
  | lit a value => exact (onOneLine_literal placement value).anchored
  | var a name => exact (onOneLine_nameDoc name).anchored
  | range a low high =>
    have hl := Expr.doc_anchored config .operand low
    have hh := Expr.doc_anchored config .operand high
    simp [Expr.doc, Doc.brackets, hl, hh]
  | list a items =>
    have hi := exprDocs_anchored config .whole items
    simpa [Expr.doc, Doc.brackets] using Doc.anchored_separated hi
  | binop a op left right =>
    have ho := (onOneLine_infixDoc op).anchored
    have hl := Expr.doc_anchored config .operand left
    have hr := Expr.doc_anchored config .operand right
    rw [Expr.doc, Placement.anchored_wrap]
    split <;> simp [ho, hl, hr]
  | lambda a param body =>
    have hp := (param.doc_onOneLine .operand).anchored
    have hi := Expr.doc_anchored config .continuing body
    have hb := Expr.doc_anchored config .whole body
    have hn : (if body.isLambda then .text " " ++ body.doc config .continuing
        else .text " -> " ++ body.doc config .whole : Doc).Anchored := by
      split <;> simp [hi, hb]
    cases placement <;> simp [Expr.doc, hp, hn]
  | app a func arg =>
    have hf := Expr.doc_anchored config (.chained func.isApp) func
    have ha := Expr.doc_anchored config .operand arg
    simp [Expr.doc, hf, ha]
  | guards _ _ | letIn _ _ _ | case _ _ _ => simp [Expr.doc]
  | data a ctor args =>
    rw [Expr.doc]
    split
    · simpa using Doc.anchored_separated (consDocs_anchored config args)
    · trivial
    · simpa [Doc.parens] using Doc.anchored_separated (exprDocs_anchored config .whole args)
    · simpa using exprDocs_anchored config .operand args
  | access a e field =>
    have he := Expr.doc_anchored config .operand e
    simp [Expr.doc, he]
  | remove a e field =>
    have he := Expr.doc_anchored config .whole e
    cases placement <;> simp [Expr.doc, Doc.braces, he]
  | insert a e field value =>
    have he := Expr.doc_anchored config (if e.isRemove then .continuing else .whole) e
    have hv := Expr.doc_anchored config .whole value
    simp [Expr.doc, Doc.braces, he, hv]
  | modify a e fields =>
    have he := Expr.doc_anchored config .whole e
    have hf : (Doc.separated ", " (fieldDocs config " <- " fields)).Anchored :=
      Doc.anchored_separated (fieldDocs_anchored config _ fields)
    simp [Expr.doc, Doc.braces, he, hf]
  | record a fields =>
    have hf : (Doc.separated ", " (fieldDocs config " = " fields)).Anchored :=
      Doc.anchored_separated (fieldDocs_anchored config _ fields)
    simp [Expr.doc, Doc.braces, hf]
  | channel a channel => simp [Expr.doc]
  | shader a uid source => simp [Expr.doc]
termination_by structural e
theorem exprDocs_anchored (config : Config) (placement : Placement) (es : List (Expr A D V T)) :
    ∀ doc ∈ exprDocs config placement es, doc.Anchored := by
  cases es with
  | nil => simp [exprDocs]
  | cons e es =>
    rw [exprDocs, List.forall_mem_cons]
    exact ⟨Expr.doc_anchored config placement e, exprDocs_anchored config placement es⟩
termination_by structural es
theorem consDocs_anchored (config : Config) (es : List (Expr A D V T)) :
    ∀ doc ∈ consDocs config es, doc.Anchored := by
  cases es with
  | nil => simp [consDocs]
  | cons e es =>
    rw [consDocs, List.forall_mem_cons]
    exact ⟨Expr.doc_anchored config _ e, consDocs_anchored config es⟩
termination_by structural es
theorem fieldDocs_anchored (config : Config) (relation : String) (fields : List (String × Expr A D V T)) :
    ∀ doc ∈ fieldDocs config relation fields, doc.Anchored := by
  rcases fields with _ | ⟨⟨field, value⟩, fields⟩
  · simp [fieldDocs]
  · rw [fieldDocs, List.forall_mem_cons]
    exact ⟨⟨trivial, trivial, Expr.doc_anchored config .whole value⟩,
      fieldDocs_anchored config relation fields⟩
termination_by structural fields
end

/-- As an operand, a compound value stands in one pair of parentheses, one column further to the right,
and any other value looks the same as on its own. -/
def ParenthesizedIf {X : Type} [Printable X] (compound : Prop) [Decidable compound] (value : X) : Prop :=
  ∀ (config : Config) (canvas : Canvas), draw config .operand value canvas =
    if compound then (draw config .whole value (canvas.emit "(")).emit ")"
    else draw config .whole value canvas

theorem parenthesizedIf_of_doc {X : Type} [Printable X] {compound : Prop} [Decidable compound] {value : X}
    (h : ∀ config, (Printable.doc config .whole value).Anchored ∧
      Printable.doc config .operand value =
        if compound then (Printable.doc config .whole value).parens
        else Printable.doc config .whole value) : ParenthesizedIf compound value := by
  intro config canvas
  obtain ⟨anchored, operand⟩ := h config
  change (Printable.doc config .operand value).draw canvas = _
  rw [operand]
  split_ifs
  · exact anchored.draw_parens canvas
  · rfl

theorem operand_parenthesizes_compound :
    (∀ e : Expr A D V T, ParenthesizedIf e.Compound e) ∧
    (∀ p : Pattern V, ParenthesizedIf p.Compound p) ∧
    (∀ t : TypeExpr V, ParenthesizedIf t.Compound t) ∧
    ∀ value : Literal, ParenthesizedIf value.Compound value := by
  refine ⟨fun e => ?_, fun p => ?_, fun t => ?_, fun value => ?_⟩
  all_goals apply parenthesizedIf_of_doc; intro config
  · exact ⟨e.doc_anchored config .whole, e.doc_operand config⟩
  · exact ⟨(p.doc_onOneLine .whole).anchored, p.doc_operand⟩
  · exact ⟨(t.doc_onOneLine .whole).anchored, t.doc_operand⟩
  · exact ⟨(onOneLine_literal .whole value).anchored, value.doc_operand⟩

end PhaseTree
