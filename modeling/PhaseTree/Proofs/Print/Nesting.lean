import PhaseTree.Proofs.Number.Characters
import PhaseTree.Proofs.Print.Brackets
import PhaseTree.Proofs.Print.Labels

set_option autoImplicit false

namespace PhaseTree

def Bare (name : String) : Prop := Blankless name.toList ∧ ∀ c ∈ name.toList, Clear c

instance (name : String) : Decidable (Bare name) := inferInstanceAs (Decidable (_ ∧ _))

/-- A name, or a name behind the segments of its module. The reserved name `[]` is the only one with
brackets. -/
def Tidy (label : String) : Prop :=
  ∃ parts : List String, label = ".".intercalate parts ∧ ∀ part ∈ parts, part = Reserved.nil ∨ Bare part

theorem Bare.solid {name : String} (h : Bare name) : (Doc.text name).Solid := Doc.solid_text h.2 h.1

theorem Tidy.level {label : String} (h : Tidy label) :
    ∃ outer, Level label.toList outer ∧ Blankless outer := by
  obtain ⟨parts, rfl, hp⟩ := h
  have atom : ∀ part, part = Reserved.nil ∨ Bare part →
      ∃ outer, Level part.toList outer ∧ Blankless outer := by
    intro part hpart
    rcases hpart with rfl | hb
    · exact ⟨['['], Level.nil.enclosed rfl, by decide⟩
    · exact ⟨part.toList, Level.of_clear hb.2, hb.1⟩
  induction parts with
  | nil => exact ⟨[], Level.nil, by decide⟩
  | cons part parts ih =>
    rw [List.forall_mem_cons] at hp
    obtain ⟨outer, hl, hb⟩ := atom part hp.1
    cases parts with
    | nil =>
      rw [String.intercalate_singleton]
      exact ⟨outer, hl, hb⟩
    | cons next parts =>
      obtain ⟨outer', hl', hb'⟩ := ih hp.2
      have dot : Level ".".toList ['.'] := Level.of_clear (by decide)
      rw [String.intercalate_cons_cons, String.toList_append, String.toList_append]
      exact ⟨outer ++ ['.'] ++ outer', (hl.append dot).append hl', (hb.append (by decide)).append hb'⟩

theorem Tidy.solid {label : String} (h : Tidy label) : (Doc.text label).Solid := by
  obtain ⟨outer, hl, hb⟩ := h.level
  exact ⟨outer, Doc.spans_text hl rfl, hb⟩

theorem tidy_single {name : String} (h : name = Reserved.nil ∨ Bare name) : Tidy name :=
  ⟨[name], String.intercalate_singleton.symm, by simpa using h⟩

theorem QualifiedName.tidy_display {name : QualifiedName}
    (hs : ∀ path, name.origin = .exported path → ∀ segment ∈ path.segments,
      segment = Reserved.nil ∨ Bare segment)
    (hn : name.name = Reserved.nil ∨ Bare name.name) : Tidy (Named.display name) := by
  have single : Tidy name.name := tidy_single hn
  rcases name with ⟨⟨⟩ | ⟨⟨segments⟩⟩ | ⟨⟩, name⟩
  · exact single
  · by_cases he : segments = []
    · refine ⟨["", name], ?_, ?_⟩
      · rw [he]
        rfl
      · have empty : Bare "" := by decide
        simpa [empty] using hn
    · refine ⟨segments ++ [name], ?_, ?_⟩
      · rw [String.intercalate_append_of_ne_nil he (by simp), String.intercalate_singleton]
        rfl
      · rw [List.forall_mem_append]
        exact ⟨hs _ rfl, by simpa using hn⟩
  · exact single

theorem solid_nil : (Doc.text "[]").Solid :=
  ⟨['['], Doc.spans_text (Level.nil.enclosed rfl) rfl, by decide⟩

theorem bare_operator {name : String} (h : Reserved.isOperator name = true) : Bare name := by
  have hc : ∀ c ∈ name.toList, c ∈ Reserved.operatorChars := by
    simpa using (Bool.and_eq_true_iff.1 h).2
  have clear : ∀ c ∈ Reserved.operatorChars, Clear c := by decide
  exact ⟨⟨fun hm => absurd (hc _ hm) (by decide), fun hm => absurd (hc _ hm) (by decide)⟩,
    fun c hm => clear c (hc c hm)⟩

theorem bare_numeric {s : String} (h : ∀ c ∈ s.toList, Numeric c) : Bare s := by
  have clear : ∀ c ∈ delimiters, ¬ Numeric c := by decide
  exact ⟨⟨fun hm => absurd (h _ hm) (by decide), fun hm => absurd (h _ hm) (by decide)⟩,
    fun c hm hd => clear c hd (h c hm)⟩

theorem solid_bareDoc {name : String} (h : Tidy name) : (bareDoc name).Solid := by
  unfold bareDoc
  cases Reserved.isOperator name with
  | true => exact h.solid.balanced.parens
  | false => exact h.solid

theorem solid_nameDoc {V : Type} [Named V] {name : V} (h : Tidy (Named.display name)) :
    (nameDoc name).Solid := by
  unfold nameDoc
  cases Reserved.isOperator (Named.bare name) with
  | true => exact h.solid.balanced.parens
  | false => exact h.solid

theorem solid_infixDoc {V : Type} [Named V] {name : V} (h : Tidy (Named.display name)) :
    (infixDoc name).Solid := by
  have quote : (Doc.text "`").Solid := Bare.solid (by decide)
  unfold infixDoc
  split
  case isTrue ho => exact (bare_operator ho).solid
  case isFalse => exact quote.append (h.solid.append quote)

theorem solid_quoted {quote : Char} (hq : quote ∈ quotes) (s : String) :
    (Doc.text (Quoted.text quote s)).Solid := by
  have apart : ∀ c ∈ quotes, Blankless [c] := by decide
  have hl : Level (Quoted.text quote s).toList [quote] := by
    rw [Quoted.text, String.toList_ofList]
    exact Level.quoted hq s.toList
  exact ⟨[quote], Doc.spans_text hl rfl, apart quote hq⟩

theorem balanced_floatText (x : Binary64) : (Doc.text (Literal.floatText x)).Balanced := by
  unfold Literal.floatText
  split_ifs
  · exact Doc.balanced_text (by decide)
  · exact Doc.balanced_text (by decide)
  · exact Doc.balanced_text (by decide)
  · exact (bare_numeric (numeric_write _ x)).solid.balanced

theorem floatText_of_isFinite {x : Binary64} (h : x.isFinite = true) :
    Literal.floatText x = x.write Literal.floatStyle := by
  have hf : (x.exponentField == Binary64.exponentSize - 1) = false := by
    simpa [Binary64.isFinite] using h
  simp [Literal.floatText, Binary64.isNaN, Binary64.isInfinite, hf]

theorem fits_literal (placement : Placement) (value : Literal) : (value.doc placement).Fits placement := by
  cases value with
  | int n =>
    have hs : (Doc.text n.repr).Solid := (bare_numeric (numeric_intRepr n)).solid
    exact Doc.Balanced.wrapIf hs.balanced (fun _ => hs) placement
  | float x =>
    refine Doc.Balanced.wrapIf (balanced_floatText x) (fun h => ?_) placement
    have hf : x.isFinite = true := by
      simp only [Literal.isCompound, Bool.or_eq_false_iff, Bool.not_eq_false'] at h
      exact h.1
    change (Doc.text (Literal.floatText x)).Solid
    rw [floatText_of_isFinite hf]
    exact (bare_numeric (numeric_write _ x)).solid
  | char c => exact (solid_quoted (by decide) _).fits placement
  | text s => exact (solid_quoted (by decide) s).fits placement
  | bool b =>
    cases b
    · exact (Bare.solid (by decide)).fits placement
    · exact (Bare.solid (by decide)).fits placement

section

variable {A V : Type} [Named V]

mutual
theorem Pattern.doc_fits (placement : Placement) (p : Pattern V) (h : ∀ label ∈ p.labels, Tidy label) :
    (p.doc placement).Fits placement := by
  cases p with
  | data name args =>
    simp only [Pattern.labels, List.forall_mem_cons] at h
    have hw := Pattern.docs_fits .whole args h.2
    have ho := Pattern.docs_fits .operand args h.2
    have hc := Pattern.consDocs_balanced args h.2
    rw [Pattern.doc]
    split
    · exact (Doc.balanced_separated (by decide) hc).wrap placement
    · exact solid_nil.fits placement
    · exact (Doc.balanced_separated (by decide) hw).parens.fits placement
    · apply h.1.solid.applied ho
      cases args <;> simp [Pattern.docs]
  | record fields =>
    have hf : (Doc.separated ", " (fields.map .text)).Balanced := by
      apply Doc.balanced_separated (by decide)
      exact List.forall_mem_map.2 fun field hm => (h field hm).solid.balanced
    exact hf.braces.fits placement
  | named name inner =>
    simp only [Pattern.labels, List.forall_mem_cons] at h
    have hi := Pattern.doc_fits .operand inner h.2
    have hn := solid_bareDoc h.1
    exact (hi.balanced.join (by decide) hn.balanced).wrap placement
  | var name => exact (solid_bareDoc (h name List.mem_cons_self)).fits placement
  | any => exact (Bare.solid (by decide)).fits placement
  | lit value => exact fits_literal placement value
theorem Pattern.docs_fits (placement : Placement) (ps : List (Pattern V))
    (h : ∀ label ∈ Pattern.labelsAll ps, Tidy label) :
    ∀ doc ∈ Pattern.docs placement ps, doc.Fits placement := by
  cases ps with
  | nil => simp [Pattern.docs]
  | cons p ps =>
    rw [Pattern.labelsAll, List.forall_mem_append] at h
    rw [Pattern.docs, List.forall_mem_cons]
    exact ⟨Pattern.doc_fits placement p h.1, Pattern.docs_fits placement ps h.2⟩
theorem Pattern.consDocs_balanced (ps : List (Pattern V))
    (h : ∀ label ∈ Pattern.labelsAll ps, Tidy label) : ∀ doc ∈ Pattern.consDocs ps, doc.Balanced := by
  cases ps with
  | nil => simp [Pattern.consDocs]
  | cons p ps =>
    rw [Pattern.labelsAll, List.forall_mem_append] at h
    rw [Pattern.consDocs, List.forall_mem_cons]
    exact ⟨(Pattern.doc_fits _ p h.1).balanced, Pattern.consDocs_balanced ps h.2⟩
end

mutual
theorem TypeExpr.doc_fits (placement : Placement) (t : TypeExpr V) (h : ∀ label ∈ t.labels, Tidy label) :
    (t.doc placement).Fits placement := by
  cases t with
  | function argument result =>
    rw [TypeExpr.labels, List.forall_mem_append] at h
    have ha := (TypeExpr.doc_fits (.ofParens argument.isFunction) argument h.1).balanced
    have hr : (result.doc .whole).Balanced := TypeExpr.doc_fits .whole result h.2
    exact (ha.join (by decide) hr).wrap placement
  | var name => exact (h name List.mem_cons_self).solid.fits placement
  | con name => exact (h _ List.mem_cons_self).solid.fits placement
  | app head args =>
    rw [TypeExpr.labels, List.forall_mem_append] at h
    have hh : (head.doc .operand).Solid := TypeExpr.doc_fits .operand head h.1
    have hw := TypeExpr.docs_fits .whole args h.2
    have ho := TypeExpr.docs_fits .operand args h.2
    rw [TypeExpr.doc]
    split
    · exact (Doc.balanced_separated (by decide) hw).parens.fits placement
    · apply hh.applied ho
      cases args <;> simp [TypeExpr.docs]
  | record fields extension =>
    rw [TypeExpr.labels, List.forall_mem_append] at h
    have hf : (Doc.separated ", " (TypeExpr.fieldDocs fields)).Balanced :=
      Doc.balanced_separated (by decide) (TypeExpr.fieldDocs_balanced fields h.1)
    have he := TypeExpr.extensionDoc_balanced extension h.2
    have space : (Doc.text " ").Balanced := Doc.balanced_text (by decide)
    rw [TypeExpr.doc]
    split
    · have hs : (Doc.text "\x7b\x7d").Solid :=
        ⟨['\x7b'], Doc.spans_text (Level.nil.enclosed rfl) rfl, by decide⟩
      exact hs.fits placement
    · exact (space.append ((he.append hf).append space)).braces.fits placement
termination_by structural t
theorem TypeExpr.docs_fits (placement : Placement) (ts : List (TypeExpr V))
    (h : ∀ label ∈ TypeExpr.labelsAll ts, Tidy label) :
    ∀ doc ∈ TypeExpr.docs placement ts, doc.Fits placement := by
  cases ts with
  | nil => simp [TypeExpr.docs]
  | cons t ts =>
    rw [TypeExpr.labelsAll, List.forall_mem_append] at h
    rw [TypeExpr.docs, List.forall_mem_cons]
    exact ⟨TypeExpr.doc_fits placement t h.1, TypeExpr.docs_fits placement ts h.2⟩
termination_by structural ts
theorem TypeExpr.fieldDocs_balanced (fields : List (String × TypeExpr V))
    (h : ∀ label ∈ TypeExpr.labelsFields fields, Tidy label) :
    ∀ doc ∈ TypeExpr.fieldDocs fields, doc.Balanced := by
  rcases fields with _ | ⟨⟨field, t⟩, fields⟩
  · simp [TypeExpr.fieldDocs]
  · simp only [TypeExpr.labelsFields, List.forall_mem_cons, List.forall_mem_append] at h
    have ht : (t.doc .whole).Balanced := TypeExpr.doc_fits .whole t h.2.1
    rw [TypeExpr.fieldDocs, List.forall_mem_cons]
    exact ⟨h.1.solid.balanced.join (by decide) ht, TypeExpr.fieldDocs_balanced fields h.2.2⟩
termination_by structural fields
theorem TypeExpr.extensionDoc_balanced (extension : Option (TypeExpr V))
    (h : ∀ label ∈ TypeExpr.labelsExtension extension, Tidy label) :
    (TypeExpr.extensionDoc extension).Balanced := by
  cases extension with
  | none => exact Doc.balanced_empty
  | some t =>
    have ht : (t.doc .whole).Balanced := TypeExpr.doc_fits .whole t h
    exact ht.append (Doc.balanced_text (by decide))
termination_by structural extension
end

mutual
theorem Expr.doc_fits (config : Config) (placement : Placement) (e : Expr A Empty V (TypeExpr V))
    (h : ∀ label ∈ e.labels, Tidy label) : (e.doc config placement).Fits placement := by
  cases e with
  | lit _ value => exact fits_literal placement value
  | var _ name => exact (solid_nameDoc (h _ List.mem_cons_self)).fits placement
  | range _ low high =>
    rw [Expr.labels, List.forall_mem_append] at h
    have hl := (Expr.doc_fits config .operand low h.1).balanced
    have hh := (Expr.doc_fits config .operand high h.2).balanced
    exact (hl.join (by decide) hh).brackets.fits placement
  | list _ items =>
    have hi := exprDocs_fits config .whole items h
    exact (Doc.balanced_separated (by decide) hi).brackets.fits placement
  | binop _ op left right =>
    simp only [Expr.labels, List.forall_mem_cons, List.forall_mem_append] at h
    have ho := (solid_infixDoc h.1).balanced
    have hl := (Expr.doc_fits config .operand left h.2.1).balanced
    have hr := (Expr.doc_fits config .operand right h.2.2).balanced
    have space : (Doc.text " ").Balanced := Doc.balanced_text (by decide)
    have minus : (Doc.text "-").Balanced := Doc.balanced_text (by decide)
    rw [Expr.doc]
    apply Doc.Balanced.wrap
    split
    · exact minus.append hr
    · exact hl.append ((space.append (ho.append space)).append hr)
  | lambda _ param body =>
    rw [Expr.labels, List.forall_mem_append] at h
    have hp := (param.doc_fits .operand h.1).balanced
    have hi := (Expr.doc_fits config .continuing body h.2).balanced
    have hb := (Expr.doc_fits config .whole body h.2).balanced
    have hn : (if body.isLambda then .text " " ++ body.doc config .continuing
        else .text " -> " ++ body.doc config .whole : Doc).Balanced := by
      split
      · exact (Doc.balanced_text (by decide)).append hi
      · exact (Doc.balanced_text (by decide)).append hb
    have backslash : (Doc.text "\\").Balanced := Doc.balanced_text (by decide)
    cases placement with
    | continuing => exact hp.append hn
    | whole | operand => exact (backslash.append (hp.append hn)).wrap _
  | app _ func arg =>
    rw [Expr.labels, List.forall_mem_append] at h
    have hf := (Expr.doc_fits config (.chained func.isApp) func h.1).balanced
    have ha := (Expr.doc_fits config .operand arg h.2).balanced
    exact (hf.join (by decide) ha).wrap placement
  | guards _ branches =>
    have hb := Doc.balanced_concat (guardDocs_balanced config branches h)
    have keyword : (Doc.text "if").Balanced := Doc.balanced_text (by decide)
    exact (keyword.append hb).align.wrap placement
  | letIn _ defs body =>
    rw [Expr.labels, List.forall_mem_append] at h
    have hd := Doc.balanced_concat (defDocs_balanced config defs h.1)
    have hb := (Expr.doc_fits config .whole body h.2).balanced
    have keyword : (Doc.text "let").Balanced := Doc.balanced_text (by decide)
    have hin : (Doc.text "in ").Balanced := Doc.balanced_text (by decide)
    have last := (Doc.balanced_newline 0).append (hin.append hb)
    exact (keyword.append (hd.append last)).align.wrap placement
  | case _ subject branches =>
    rw [Expr.labels, List.forall_mem_append] at h
    have hs := (Expr.doc_fits config .whole subject h.1).balanced
    have hb := Doc.balanced_concat (branchDocs_balanced config branches h.2)
    have keyword : (Doc.text "case ").Balanced := Doc.balanced_text (by decide)
    have hof : (Doc.text " of").Balanced := Doc.balanced_text (by decide)
    exact (keyword.append (hs.append (hof.append hb))).align.wrap placement
  | data _ ctor args =>
    simp only [Expr.labels, List.forall_mem_cons] at h
    have hw := exprDocs_fits config .whole args h.2
    have ho := exprDocs_fits config .operand args h.2
    have hc := consDocs_balanced config args h.2
    rw [Expr.doc]
    split
    · exact (Doc.balanced_separated (by decide) hc).wrap placement
    · exact solid_nil.fits placement
    · exact (Doc.balanced_separated (by decide) hw).parens.fits placement
    · apply h.1.solid.applied ho
      cases args <;> simp [exprDocs]
  | access _ e field =>
    simp only [Expr.labels, List.forall_mem_cons] at h
    have he : (e.doc config .operand).Solid := Expr.doc_fits config .operand e h.2
    have dot : (Doc.text ".").Solid := Bare.solid (by decide)
    exact (he.append (dot.append h.1.solid)).fits placement
  | remove _ e field =>
    simp only [Expr.labels, List.forall_mem_cons] at h
    have he := (Expr.doc_fits config .whole e h.2).balanced
    have hr : (e.doc config .whole ++ (.text " - " ++ .text field)).Balanced :=
      he.join (by decide) h.1.solid.balanced
    cases placement with
    | continuing => exact hr
    | whole | operand => exact hr.braces.fits _
  | insert _ e field value =>
    simp only [Expr.labels, List.forall_mem_cons, List.forall_mem_append] at h
    have he := (Expr.doc_fits config (if e.isRemove then .continuing else .whole) e h.2.1).balanced
    have hv := (Expr.doc_fits config .whole value h.2.2).balanced
    have hf : (Doc.text field ++ (.text " = " ++ value.doc config .whole)).Balanced :=
      h.1.solid.balanced.join (by decide) hv
    exact (he.join (by decide) hf).braces.fits placement
  | modify _ e fields =>
    rw [Expr.labels, List.forall_mem_append] at h
    have he := (Expr.doc_fits config .whole e h.1).balanced
    have hf := fieldDocs_balanced config " <- " (by decide) fields h.2
    exact (he.join (by decide) (Doc.balanced_separated (by decide) hf)).braces.fits placement
  | record _ fields =>
    have hf := fieldDocs_balanced config " = " (by decide) fields h
    exact (Doc.balanced_separated (by decide) hf).braces.fits placement
  | channel _ channel =>
    have name := (h _ List.mem_cons_self).solid
    have opening : (Doc.text "<port:").Solid := Bare.solid (by decide)
    have closing : (Doc.text ">").Solid := Bare.solid (by decide)
    exact (opening.append (name.append closing)).fits placement
  | shader _ _ _ =>
    have inner : Level "glsl| ... |".toList "glsl| ... |".toList := Level.of_clear (by decide)
    have hs : (Doc.text "[glsl| ... |]").Solid :=
      ⟨['['], Doc.spans_text (inner.enclosed rfl) rfl, by decide⟩
    exact hs.fits placement
termination_by structural e
theorem Def.doc_balanced (config : Config) (d : Def A Empty V (TypeExpr V))
    (h : ∀ label ∈ d.labels, Tidy label) : (d.doc config).Balanced := by
  rcases d with ⟨pattern, body, type⟩ | definition
  · simp only [Def.labels, List.forall_mem_append] at h
    have hp := (pattern.doc_fits .whole h.1).balanced
    have hb := (Expr.doc_fits config .whole body h.2.1).balanced
    have equation : (pattern.doc .whole ++ (.text " = " ++ body.doc config .whole)).Balanced :=
      hp.join (by decide) hb
    cases type with
    | none => exact equation
    | some type =>
      have ht := (type.doc_fits .whole h.2.2).balanced
      have line := (Doc.balanced_newline 0).append equation
      exact (hp.join (by decide) (ht.append line)).align
  · exact definition.elim
termination_by structural d
theorem exprDocs_fits (config : Config) (placement : Placement) (es : List (Expr A Empty V (TypeExpr V)))
    (h : ∀ label ∈ exprLabels es, Tidy label) :
    ∀ doc ∈ exprDocs config placement es, doc.Fits placement := by
  cases es with
  | nil => simp [exprDocs]
  | cons e es =>
    rw [exprLabels, List.forall_mem_append] at h
    rw [exprDocs, List.forall_mem_cons]
    exact ⟨Expr.doc_fits config placement e h.1, exprDocs_fits config placement es h.2⟩
termination_by structural es
theorem consDocs_balanced (config : Config) (es : List (Expr A Empty V (TypeExpr V)))
    (h : ∀ label ∈ exprLabels es, Tidy label) : ∀ doc ∈ consDocs config es, doc.Balanced := by
  cases es with
  | nil => simp [consDocs]
  | cons e es =>
    rw [exprLabels, List.forall_mem_append] at h
    rw [consDocs, List.forall_mem_cons]
    exact ⟨(Expr.doc_fits config _ e h.1).balanced, consDocs_balanced config es h.2⟩
termination_by structural es
theorem guardDocs_balanced (config : Config)
    (branches : List (Expr A Empty V (TypeExpr V) × Expr A Empty V (TypeExpr V)))
    (h : ∀ label ∈ guardLabels branches, Tidy label) :
    ∀ doc ∈ guardDocs config branches, doc.Balanced := by
  rcases branches with _ | ⟨⟨condition, result⟩, branches⟩
  · simp [guardDocs]
  · simp only [guardLabels, List.forall_mem_append] at h
    have hc := (Expr.doc_fits config .whole condition h.1).balanced
    have hr := (Expr.doc_fits config .whole result h.2.1).balanced
    have bar : (Doc.text "| ").Balanced := Doc.balanced_text (by decide)
    have branch : (condition.doc config .whole ++ (.text " -> " ++ result.doc config .whole)).Balanced :=
      hc.join (by decide) hr
    rw [guardDocs, List.forall_mem_cons]
    exact ⟨(Doc.balanced_newline _).append (bar.append branch), guardDocs_balanced config branches h.2.2⟩
termination_by structural branches
theorem defDocs_balanced (config : Config) (defs : List (Def A Empty V (TypeExpr V)))
    (h : ∀ label ∈ defLabels defs, Tidy label) : ∀ doc ∈ defDocs config defs, doc.Balanced := by
  cases defs with
  | nil => simp [defDocs]
  | cons d defs =>
    rw [defLabels, List.forall_mem_append] at h
    have hd := Def.doc_balanced config d h.1
    rw [defDocs, List.forall_mem_cons]
    exact ⟨(Doc.balanced_newline _).append hd, defDocs_balanced config defs h.2⟩
termination_by structural defs
theorem branchDocs_balanced (config : Config) (branches : List (Pattern V × Expr A Empty V (TypeExpr V)))
    (h : ∀ label ∈ branchLabels branches, Tidy label) :
    ∀ doc ∈ branchDocs config branches, doc.Balanced := by
  rcases branches with _ | ⟨⟨pattern, result⟩, branches⟩
  · simp [branchDocs]
  · simp only [branchLabels, List.forall_mem_append] at h
    have hp := (pattern.doc_fits .whole h.1).balanced
    have hr := (Expr.doc_fits config .whole result h.2.1).balanced
    have branch : (pattern.doc .whole ++ (.text " -> " ++ result.doc config .whole)).Balanced :=
      hp.join (by decide) hr
    rw [branchDocs, List.forall_mem_cons]
    exact ⟨(Doc.balanced_newline _).append branch, branchDocs_balanced config branches h.2.2⟩
termination_by structural branches
theorem fieldDocs_balanced (config : Config) (relation : String) (hr : ∀ c ∈ relation.toList, Clear c)
    (fields : List (String × Expr A Empty V (TypeExpr V)))
    (h : ∀ label ∈ fieldLabels fields, Tidy label) :
    ∀ doc ∈ fieldDocs config relation fields, doc.Balanced := by
  rcases fields with _ | ⟨⟨field, value⟩, fields⟩
  · simp [fieldDocs]
  · simp only [fieldLabels, List.forall_mem_cons, List.forall_mem_append] at h
    have hv := (Expr.doc_fits config .whole value h.2.1).balanced
    rw [fieldDocs, List.forall_mem_cons]
    exact ⟨h.1.solid.balanced.join hr hv, fieldDocs_balanced config relation hr fields h.2.2⟩
termination_by structural fields
end

/-- Scanned from its first character on, what is printed ends at depth zero and outside of literals. An
operand shows no blank there. -/
def WellBracketed {X : Type} [Printable X] (placement : Placement) (value : X) : Prop :=
  ∀ (config : Config) (column : Nat), ∃ outer,
    Scan.start.run (draw config placement value ⟨.empty, column⟩).text.toList =
        some ⟨[], .code, outer⟩ ∧
      (placement = .operand → Blankless outer)

theorem wellBracketed_of_fits {X : Type} [Printable X] {placement : Placement} {value : X}
    (h : ∀ config, (Printable.doc config placement value).Fits placement) :
    WellBracketed placement value := by
  intro config column
  have hd := h config
  cases placement with
  | operand =>
    obtain ⟨w, ha⟩ := hd
    obtain ⟨outer, hl, rfl⟩ := ha.spans column column
    exact ⟨outer, hl [] [], fun _ => ha.blankless⟩
  | whole | continuing =>
    obtain ⟨outer, hl, -⟩ := hd column column
    exact ⟨outer, hl [] [], nofun⟩

theorem printed_wellBracketed :
    (∀ e : Expr A Empty V (TypeExpr V), (∀ label ∈ e.labels, Tidy label) →
      ∀ placement, WellBracketed placement e) ∧
    (∀ d : Def A Empty V (TypeExpr V), (∀ label ∈ d.labels, Tidy label) → WellBracketed .whole d) ∧
    (∀ p : Pattern V, (∀ label ∈ p.labels, Tidy label) → ∀ placement, WellBracketed placement p) ∧
    ∀ t : TypeExpr V, (∀ label ∈ t.labels, Tidy label) → ∀ placement, WellBracketed placement t := by
  refine ⟨fun e h placement => ?_, fun d h => ?_, fun p h placement => ?_, fun t h placement => ?_⟩
  all_goals apply wellBracketed_of_fits; intro config
  · exact e.doc_fits config placement h
  · exact d.doc_balanced config h
  · exact p.doc_fits placement h
  · exact t.doc_fits placement h

theorem printed_wellBracketed_literals :
    let quote : ParsedExpr := .lit .synthetic (.char '"')
    let arg : ParsedExpr := .data .synthetic Reserved.nil []
    let body : ParsedExpr := .app .synthetic (.var .synthetic ⟨"f"⟩) arg
    let def' : ParsedDef := .bind (.var "f") (.lit .synthetic (.text ")\"\\[")) (some (.con ⟨"T"⟩))
    let e : ParsedExpr := .letIn .synthetic [def'] (.guards .synthetic [(quote, body)])
    (∀ label ∈ e.labels, Tidy label) ∧ WellBracketed .operand e := by
  intro quote arg body def' e
  have hl : ∀ label ∈ e.labels, label = Reserved.nil ∨ Bare label := by decide
  have h : ∀ label ∈ e.labels, Tidy label := fun label hm => tidy_single (hl label hm)
  exact ⟨h, printed_wellBracketed.1 e h .operand⟩

end

end PhaseTree
