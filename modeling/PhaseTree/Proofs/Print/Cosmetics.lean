import PhaseTree.Print.Expr
import PhaseTree.Proofs.Layout.Outdenting

set_option autoImplicit false

namespace PhaseTree

section

variable {doc doc' head : Doc} {docs docs' : List Doc}

theorem Placement.flat_wrap (placement : Placement) (h : doc.flat = doc'.flat) :
    (placement.wrap doc).flat = (placement.wrap doc').flat := by
  cases placement with
  | operand => simp [wrap, Doc.parens, h]
  | whole | continuing => exact h

theorem Placement.flat_wrapIf (compound : Bool) (placement : Placement) (h : doc.flat = doc'.flat) :
    (placement.wrapIf compound doc).flat = (placement.wrapIf compound doc').flat := by
  cases compound with
  | true => exact placement.flat_wrap h
  | false => exact h

theorem Doc.flat_separated_congr (separator : String) (h : docs.map flat = docs'.map flat) :
    (separated separator docs).flat = (separated separator docs').flat := by
  rw [flat_separated, flat_separated, h]

theorem Doc.flat_concat_congr (h : docs.map flat = docs'.map flat) :
    (concat docs).flat = (concat docs').flat := by
  rw [flat_concat, flat_concat, h]

theorem Doc.flat_applied_congr (h : docs.map flat = docs'.map flat) :
    (applied head docs).flat = (applied head docs').flat := by
  have spaced : ∀ args : List Doc, (applied head args).flat =
      head.flat ++ ((args.map flat).map (" ".toList ++ ·)).flatten := by
    intro args
    rw [applied, flat_append, flat_concat, List.map_map, List.map_map]
    rfl
  rw [spaced, spaced, h]

end

variable {A V : Type} [Named V] (config config' : Config)

mutual
theorem Expr.flat_doc (placement : Placement) (e : Expr A Empty V (TypeExpr V)) :
    (e.doc config placement).flat = (e.doc config' placement).flat := by
  cases e with
  | lit _ _ | var _ _ | channel _ _ | shader _ _ _ => rfl
  | range _ low high =>
    have hl := Expr.flat_doc .operand low
    have hh := Expr.flat_doc .operand high
    simp [Expr.doc, Doc.brackets, hl, hh]
  | list _ items =>
    have hi := Doc.flat_separated_congr ", " (flat_exprDocs .whole items)
    simp [Expr.doc, Doc.brackets, hi]
  | binop _ op left right =>
    have hl := Expr.flat_doc .operand left
    have hr := Expr.flat_doc .operand right
    rw [Expr.doc, Expr.doc]
    apply Placement.flat_wrap
    split <;> simp [hl, hr]
  | lambda _ param body =>
    have hi := Expr.flat_doc .continuing body
    have hb := Expr.flat_doc .whole body
    cases hl : body.isLambda <;> cases placement <;>
      simp [Expr.doc, Placement.wrap, Doc.parens, hl, hi, hb]
  | app _ func arg =>
    have hf := Expr.flat_doc (.chained func.isApp) func
    have ha := Expr.flat_doc .operand arg
    rw [Expr.doc, Expr.doc]
    apply Placement.flat_wrap
    simp [hf, ha]
  | guards _ branches =>
    have hb := Doc.flat_concat_congr (flat_guardDocs branches)
    rw [Expr.doc, Expr.doc]
    apply Placement.flat_wrap
    simp only [Doc.flat_align, Doc.flat_append, hb]
  | letIn _ defs body =>
    have hd := Doc.flat_concat_congr (flat_defDocs defs)
    have hb := Expr.flat_doc .whole body
    rw [Expr.doc, Expr.doc]
    apply Placement.flat_wrap
    simp only [Doc.flat_align, Doc.flat_append, Doc.flat_newline, hd, hb]
  | case _ subject branches =>
    have hs := Expr.flat_doc .whole subject
    have hb := Doc.flat_concat_congr (flat_branchDocs branches)
    rw [Expr.doc, Expr.doc]
    apply Placement.flat_wrap
    simp only [Doc.flat_align, Doc.flat_append, hs, hb]
  | data _ ctor args =>
    rw [Expr.doc, Expr.doc]
    cases Sugar.of ctor args.length with
    | cons => exact Placement.flat_wrap _ (Doc.flat_separated_congr " :: " (flat_consDocs args))
    | nil => rfl
    | tuple =>
      have ha := Doc.flat_separated_congr ", " (flat_exprDocs .whole args)
      simp [Doc.parens, ha]
    | plain => exact Placement.flat_wrapIf _ _ (Doc.flat_applied_congr (flat_exprDocs .operand args))
  | access _ e field =>
    have he := Expr.flat_doc .operand e
    simp [Expr.doc, he]
  | remove _ e field =>
    have he := Expr.flat_doc .whole e
    cases placement <;> simp [Expr.doc, Doc.braces, he]
  | insert _ e field value =>
    have he := Expr.flat_doc (if e.isRemove then .continuing else .whole) e
    have hv := Expr.flat_doc .whole value
    simp [Expr.doc, Doc.braces, he, hv]
  | modify _ e fields =>
    have he := Expr.flat_doc .whole e
    have hf := Doc.flat_separated_congr ", " (flat_fieldDocs " <- " fields)
    simp [Expr.doc, Doc.braces, he, hf]
  | record _ fields =>
    have hf := Doc.flat_separated_congr ", " (flat_fieldDocs " = " fields)
    simp [Expr.doc, Doc.braces, hf]
termination_by structural e
theorem Def.flat_doc (d : Def A Empty V (TypeExpr V)) : (d.doc config).flat = (d.doc config').flat := by
  rcases d with ⟨pattern, body, type⟩ | definition
  · have hb := Expr.flat_doc .whole body
    cases type with
    | none => simp [Def.doc, hb]
    | some type =>
      -- A type has one document for all configurations.
      have ht : (Printable.doc config .whole type).flat = (Printable.doc config' .whole type).flat := rfl
      simp [Def.doc, hb, ht]
  · exact definition.elim
termination_by structural d
theorem flat_exprDocs (placement : Placement) (es : List (Expr A Empty V (TypeExpr V))) :
    (exprDocs config placement es).map Doc.flat = (exprDocs config' placement es).map Doc.flat := by
  cases es with
  | nil => rfl
  | cons e es =>
    rw [exprDocs, exprDocs, List.map_cons, List.map_cons, Expr.flat_doc placement e,
      flat_exprDocs placement es]
termination_by structural es
theorem flat_consDocs (es : List (Expr A Empty V (TypeExpr V))) :
    (consDocs config es).map Doc.flat = (consDocs config' es).map Doc.flat := by
  cases es with
  | nil => rfl
  | cons e es =>
    rw [consDocs, consDocs, List.map_cons, List.map_cons, Expr.flat_doc _ e, flat_consDocs es]
termination_by structural es
theorem flat_guardDocs (branches : List (Expr A Empty V (TypeExpr V) × Expr A Empty V (TypeExpr V))) :
    (guardDocs config branches).map Doc.flat = (guardDocs config' branches).map Doc.flat := by
  rcases branches with _ | ⟨⟨condition, result⟩, branches⟩
  · rfl
  · have hc := Expr.flat_doc .whole condition
    have hr := Expr.flat_doc .whole result
    simp [guardDocs, hc, hr, flat_guardDocs branches]
termination_by structural branches
theorem flat_defDocs (defs : List (Def A Empty V (TypeExpr V))) :
    (defDocs config defs).map Doc.flat = (defDocs config' defs).map Doc.flat := by
  cases defs with
  | nil => rfl
  | cons d defs => simp [defDocs, Def.flat_doc d, flat_defDocs defs]
termination_by structural defs
theorem flat_branchDocs (branches : List (Pattern V × Expr A Empty V (TypeExpr V))) :
    (branchDocs config branches).map Doc.flat = (branchDocs config' branches).map Doc.flat := by
  rcases branches with _ | ⟨⟨pattern, result⟩, branches⟩
  · rfl
  · simp [branchDocs, Expr.flat_doc .whole result, flat_branchDocs branches]
termination_by structural branches
theorem flat_fieldDocs (relation : String) (fields : List (String × Expr A Empty V (TypeExpr V))) :
    (fieldDocs config relation fields).map Doc.flat =
      (fieldDocs config' relation fields).map Doc.flat := by
  rcases fields with _ | ⟨⟨field, value⟩, fields⟩
  · rfl
  · simp [fieldDocs, Expr.flat_doc .whole value, flat_fieldDocs relation fields]
termination_by structural fields
end

/-- From any two canvases and with any two configurations, what is printed is the same up to the
indentation of its lines. -/
def SameUpToIndentation {X : Type} [Printable X] (value : X) : Prop :=
  ∀ (config config' : Config) (placement : Placement) (canvas canvas' : Canvas), ∃ added added',
    (draw config placement value canvas).text = canvas.text ++ added ∧
    (draw config' placement value canvas').text = canvas'.text ++ added' ∧
    outdent added = outdent added'

theorem printed_up_to_indentation :
    (∀ e : Expr A Empty V (TypeExpr V), SameUpToIndentation e) ∧
    ∀ d : Def A Empty V (TypeExpr V), SameUpToIndentation d := by
  refine ⟨fun e => ?_, fun d => ?_⟩
  all_goals intro config config' placement canvas canvas'; apply Doc.outdent_draw
  · exact e.flat_doc config config' placement
  · exact d.flat_doc config config'

end PhaseTree
