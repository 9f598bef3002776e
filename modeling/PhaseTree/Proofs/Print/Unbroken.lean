import PhaseTree.Proofs.Layout.Relocation
import PhaseTree.Proofs.Number.Characters
import PhaseTree.Proofs.Print.Labels
import PhaseTree.Proofs.Print.Lexemes

set_option autoImplicit false

namespace PhaseTree

namespace Doc

@[simp] theorem unbroken_empty : empty.Unbroken := trivial

@[simp] theorem unbroken_text (s : String) : (text s).Unbroken ↔ PhaseTree.Unbroken s := Iff.rfl

@[simp] theorem unbroken_newline (indent : Nat) : (newline indent).Unbroken := trivial

@[simp] theorem unbroken_append (first second : Doc) :
    (first ++ second).Unbroken ↔ first.Unbroken ∧ second.Unbroken := Iff.rfl

@[simp] theorem unbroken_align (body : Doc) : (align body).Unbroken ↔ body.Unbroken := Iff.rfl

@[simp] theorem unbroken_parens (body : Doc) : (parens body).Unbroken ↔ body.Unbroken := by
  simp [parens, between, PhaseTree.Unbroken]

@[simp] theorem unbroken_brackets (body : Doc) : (brackets body).Unbroken ↔ body.Unbroken := by
  simp [brackets, between, PhaseTree.Unbroken]

@[simp] theorem unbroken_braces (body : Doc) : (braces body).Unbroken ↔ body.Unbroken := by
  simp [braces, between, PhaseTree.Unbroken]

@[simp] theorem unbroken_concat (docs : List Doc) :
    (concat docs).Unbroken ↔ ∀ doc ∈ docs, doc.Unbroken := by
  induction docs with
  | nil => simp [concat]
  | cons doc docs ih => simp [concat, ih]

@[simp] theorem unbroken_applied (head : Doc) (args : List Doc) :
    (applied head args).Unbroken ↔ head.Unbroken ∧ ∀ arg ∈ args, arg.Unbroken := by
  simp [applied, PhaseTree.Unbroken]

theorem unbroken_separated {separator : String} (hs : PhaseTree.Unbroken separator) {docs : List Doc}
    (h : ∀ doc ∈ docs, doc.Unbroken) : (separated separator docs).Unbroken :=
  separated_closed trivial (fun _ _ h h' => ⟨h, h'⟩) hs h

end Doc

namespace Placement

@[simp] theorem unbroken_wrap (placement : Placement) (doc : Doc) :
    (placement.wrap doc).Unbroken ↔ doc.Unbroken := by
  cases placement <;> simp [wrap]

@[simp] theorem unbroken_wrapIf (compound : Bool) (placement : Placement) (doc : Doc) :
    (placement.wrapIf compound doc).Unbroken ↔ doc.Unbroken := by
  cases compound <;> simp [wrapIf]

end Placement

theorem unbroken_operator {name : String} (h : Reserved.isOperator name = true) : Unbroken name := by
  intro hn
  have hc : ∀ c ∈ name.toList, c ∈ Reserved.operatorChars := by
    simpa using (Bool.and_eq_true_iff.1 h).2
  exact absurd (hc _ hn) (by decide)

theorem unbroken_bareDoc (name : String) (h : Unbroken name) : (bareDoc name).Unbroken := by
  unfold bareDoc
  cases Reserved.isOperator name <;> simpa [Doc.parensIf] using h

theorem unbroken_nameDoc {V : Type} [Named V] (name : V) (h : Unbroken (Named.display name)) :
    (nameDoc name).Unbroken := by
  unfold nameDoc
  cases Reserved.isOperator (Named.bare name) <;> simpa [Doc.parensIf] using h

theorem unbroken_infixDoc {V : Type} [Named V] (name : V) (h : Unbroken (Named.display name)) :
    (infixDoc name).Unbroken := by
  unfold infixDoc
  split
  case isTrue ho => exact unbroken_operator ho
  case isFalse ho => simpa [Doc.between, Unbroken] using h

theorem unbroken_numeric {s : String} (h : ∀ c ∈ s.toList, Numeric c) : Unbroken s := by
  intro hm
  exact absurd (h _ hm) (by simp [Numeric])

theorem unbroken_quoted (quote : Char) (h : quote ≠ '\n') (s : String) : Unbroken (Quoted.text quote s) :=
  Quoted.notMem_text List.mem_cons_self h.symm s

theorem unbroken_spelling (value : Literal) : Unbroken value.spelling := by
  cases value with
  | int n => exact unbroken_numeric (numeric_intRepr n)
  | float x =>
    change Unbroken (Literal.floatText x)
    unfold Literal.floatText
    split_ifs
    · simp [Unbroken]
    · simp [Unbroken]
    · simp [Unbroken]
    · exact unbroken_numeric (numeric_write _ x)
  | char c => exact unbroken_quoted '\'' (by decide) _
  | text s => exact unbroken_quoted '"' (by decide) s
  | bool b => cases b <;> simp [Literal.spelling, Unbroken]

theorem unbroken_literal (placement : Placement) (value : Literal) :
    (value.doc placement).Unbroken := by
  simpa [Literal.doc] using unbroken_spelling value

section

variable {A V : Type} [Named V]

mutual
theorem Pattern.doc_unbroken (placement : Placement) (p : Pattern V)
    (h : ∀ label ∈ p.labels, Unbroken label) : (p.doc placement).Unbroken := by
  cases p with
  | data name args =>
    simp only [Pattern.labels, List.forall_mem_cons] at h
    rw [Pattern.doc]
    split
    · simpa using Doc.unbroken_separated (by decide) (Pattern.consDocs_unbroken args h.2)
    · exact (by decide : Unbroken "[]")
    · simpa using Doc.unbroken_separated (by decide) (Pattern.docs_unbroken .whole args h.2)
    · simpa using ⟨h.1, Pattern.docs_unbroken .operand args h.2⟩
  | record fields =>
    rw [Pattern.doc, Doc.unbroken_braces]
    exact Doc.unbroken_separated (by decide) (by simpa [Pattern.labels] using h)
  | named name inner =>
    simp only [Pattern.labels, List.forall_mem_cons] at h
    have hi := Pattern.doc_unbroken .operand inner h.2
    simpa [Pattern.doc, hi, unbroken_bareDoc name h.1] using (by decide : Unbroken " as ")
  | var name => exact unbroken_bareDoc name (h name List.mem_cons_self)
  | any => exact (by decide : Unbroken "_")
  | lit value => exact unbroken_literal placement value
theorem Pattern.docs_unbroken (placement : Placement) (ps : List (Pattern V))
    (h : ∀ label ∈ Pattern.labelsAll ps, Unbroken label) :
    ∀ doc ∈ Pattern.docs placement ps, doc.Unbroken := by
  cases ps with
  | nil => simp [Pattern.docs]
  | cons p ps =>
    rw [Pattern.labelsAll, List.forall_mem_append] at h
    simpa [Pattern.docs] using
      ⟨Pattern.doc_unbroken placement p h.1, Pattern.docs_unbroken placement ps h.2⟩
theorem Pattern.consDocs_unbroken (ps : List (Pattern V))
    (h : ∀ label ∈ Pattern.labelsAll ps, Unbroken label) :
    ∀ doc ∈ Pattern.consDocs ps, doc.Unbroken := by
  cases ps with
  | nil => simp [Pattern.consDocs]
  | cons p ps =>
    rw [Pattern.labelsAll, List.forall_mem_append] at h
    simpa [Pattern.consDocs] using
      ⟨Pattern.doc_unbroken _ p h.1, Pattern.consDocs_unbroken ps h.2⟩
end

mutual
theorem TypeExpr.doc_unbroken (placement : Placement) (t : TypeExpr V)
    (h : ∀ label ∈ t.labels, Unbroken label) : (t.doc placement).Unbroken := by
  cases t with
  | function argument result =>
    rw [TypeExpr.labels, List.forall_mem_append] at h
    have ha := TypeExpr.doc_unbroken (.ofParens argument.isFunction) argument h.1
    have hr := TypeExpr.doc_unbroken .whole result h.2
    simpa [TypeExpr.doc, ha, hr] using (by decide : Unbroken " -> ")
  | var name => exact h name List.mem_cons_self
  | con name => exact h _ List.mem_cons_self
  | app head args =>
    rw [TypeExpr.labels, List.forall_mem_append] at h
    rw [TypeExpr.doc]
    split
    · simpa using Doc.unbroken_separated (by decide) (TypeExpr.docs_unbroken .whole args h.2)
    · simpa using
        ⟨TypeExpr.doc_unbroken .operand head h.1, TypeExpr.docs_unbroken .operand args h.2⟩
  | record fields extension =>
    rw [TypeExpr.labels, List.forall_mem_append] at h
    have hf := TypeExpr.fieldDocs_unbroken fields h.1
    have he := TypeExpr.extensionDoc_unbroken extension h.2
    rw [TypeExpr.doc]
    split
    · exact (by decide : Unbroken "\x7b\x7d")
    · rw [Doc.unbroken_braces]
      exact ⟨by decide, ⟨he, Doc.unbroken_separated (by decide) hf⟩, by decide⟩
termination_by structural t
theorem TypeExpr.docs_unbroken (placement : Placement) (ts : List (TypeExpr V))
    (h : ∀ label ∈ TypeExpr.labelsAll ts, Unbroken label) :
    ∀ doc ∈ TypeExpr.docs placement ts, doc.Unbroken := by
  cases ts with
  | nil => simp [TypeExpr.docs]
  | cons t ts =>
    rw [TypeExpr.labelsAll, List.forall_mem_append] at h
    simpa [TypeExpr.docs] using
      ⟨TypeExpr.doc_unbroken placement t h.1, TypeExpr.docs_unbroken placement ts h.2⟩
termination_by structural ts
theorem TypeExpr.fieldDocs_unbroken (fields : List (String × TypeExpr V))
    (h : ∀ label ∈ TypeExpr.labelsFields fields, Unbroken label) :
    ∀ doc ∈ TypeExpr.fieldDocs fields, doc.Unbroken := by
  rcases fields with _ | ⟨⟨field, t⟩, fields⟩
  · simp [TypeExpr.fieldDocs]
  · simp only [TypeExpr.labelsFields, List.forall_mem_cons, List.forall_mem_append] at h
    have ht := TypeExpr.doc_unbroken .whole t h.2.1
    have hf := TypeExpr.fieldDocs_unbroken fields h.2.2
    simp only [TypeExpr.fieldDocs, List.forall_mem_cons]
    exact ⟨⟨h.1, by decide, ht⟩, hf⟩
termination_by structural fields
theorem TypeExpr.extensionDoc_unbroken (extension : Option (TypeExpr V))
    (h : ∀ label ∈ TypeExpr.labelsExtension extension, Unbroken label) :
    (TypeExpr.extensionDoc extension).Unbroken := by
  cases extension with
  | none => trivial
  | some t => exact ⟨TypeExpr.doc_unbroken .whole t h, by decide⟩
termination_by structural extension
end

mutual
theorem Expr.doc_unbroken (config : Config) (placement : Placement)
    (e : Expr A Empty V (TypeExpr V)) (h : ∀ label ∈ e.labels, Unbroken label) :
    (e.doc config placement).Unbroken := by
  cases e with
  | lit _ value => exact unbroken_literal placement value
  | var _ name => exact unbroken_nameDoc name (h _ List.mem_cons_self)
  | range _ low high =>
    rw [Expr.labels, List.forall_mem_append] at h
    rw [Expr.doc, Doc.unbroken_brackets]
    exact ⟨Expr.doc_unbroken config .operand low h.1, by decide,
      Expr.doc_unbroken config .operand high h.2⟩
  | list _ items =>
    rw [Expr.doc, Doc.unbroken_brackets]
    exact Doc.unbroken_separated (by decide) (exprDocs_unbroken config .whole items h)
  | binop _ op left right =>
    simp only [Expr.labels, List.forall_mem_cons, List.forall_mem_append] at h
    have hl := Expr.doc_unbroken config .operand left h.2.1
    have hr := Expr.doc_unbroken config .operand right h.2.2
    rw [Expr.doc, Placement.unbroken_wrap]
    split
    · exact ⟨by decide, hr⟩
    · exact ⟨hl, ⟨by decide, unbroken_infixDoc op h.1, by decide⟩, hr⟩
  | lambda _ param body =>
    rw [Expr.labels, List.forall_mem_append] at h
    have hp := param.doc_unbroken .operand h.1
    have hi := Expr.doc_unbroken config .continuing body h.2
    have hb := Expr.doc_unbroken config .whole body h.2
    have hn : (if body.isLambda then .text " " ++ body.doc config .continuing
        else .text " -> " ++ body.doc config .whole : Doc).Unbroken := by
      split
      · exact ⟨by decide, hi⟩
      · exact ⟨by decide, hb⟩
    cases placement with
    | continuing =>
      rw [Expr.doc]
      exact ⟨hp, hn⟩
    | whole | operand =>
      simp only [Expr.doc, Placement.unbroken_wrap]
      exact ⟨by decide, hp, hn⟩
  | app _ func arg =>
    rw [Expr.labels, List.forall_mem_append] at h
    rw [Expr.doc, Placement.unbroken_wrap]
    exact ⟨Expr.doc_unbroken config _ func h.1, by decide,
      Expr.doc_unbroken config .operand arg h.2⟩
  | guards _ branches =>
    have hb := guardDocs_unbroken config branches h
    simpa [Expr.doc] using ⟨(by decide : Unbroken "if"), hb⟩
  | letIn _ defs body =>
    rw [Expr.labels, List.forall_mem_append] at h
    have hd := defDocs_unbroken config defs h.1
    have hb := Expr.doc_unbroken config .whole body h.2
    simpa [Expr.doc, hb] using ⟨(by decide : Unbroken "let"), hd, (by decide : Unbroken "in ")⟩
  | case _ subject branches =>
    rw [Expr.labels, List.forall_mem_append] at h
    have hs := Expr.doc_unbroken config .whole subject h.1
    have hb := branchDocs_unbroken config branches h.2
    simpa [Expr.doc, hs] using ⟨(by decide : Unbroken "case "), (by decide : Unbroken " of"), hb⟩
  | data _ ctor args =>
    simp only [Expr.labels, List.forall_mem_cons] at h
    rw [Expr.doc]
    split
    · rw [Placement.unbroken_wrap]
      exact Doc.unbroken_separated (by decide) (consDocs_unbroken config args h.2)
    · exact (by decide : Unbroken "[]")
    · rw [Doc.unbroken_parens]
      exact Doc.unbroken_separated (by decide) (exprDocs_unbroken config .whole args h.2)
    · simpa using ⟨h.1, exprDocs_unbroken config .operand args h.2⟩
  | access _ e field =>
    simp only [Expr.labels, List.forall_mem_cons] at h
    exact ⟨Expr.doc_unbroken config .operand e h.2, by decide, h.1⟩
  | remove _ e field =>
    simp only [Expr.labels, List.forall_mem_cons] at h
    have hr : (e.doc config .whole ++ (.text " - " ++ .text field)).Unbroken :=
      ⟨Expr.doc_unbroken config .whole e h.2, by decide, h.1⟩
    cases placement with
    | continuing =>
      rw [Expr.doc]
      exact hr
    | whole | operand => simpa only [Expr.doc, Doc.unbroken_braces] using hr
  | insert _ e field value =>
    simp only [Expr.labels, List.forall_mem_cons, List.forall_mem_append] at h
    rw [Expr.doc, Doc.unbroken_braces]
    exact ⟨Expr.doc_unbroken config _ e h.2.1, by decide, h.1, by decide,
      Expr.doc_unbroken config .whole value h.2.2⟩
  | modify _ e fields =>
    rw [Expr.labels, List.forall_mem_append] at h
    rw [Expr.doc, Doc.unbroken_braces]
    exact ⟨Expr.doc_unbroken config .whole e h.1, by decide,
      Doc.unbroken_separated (by decide) (fieldDocs_unbroken config " <- " (by decide) fields h.2)⟩
  | record _ fields =>
    rw [Expr.doc, Doc.unbroken_braces]
    exact Doc.unbroken_separated (by decide) (fieldDocs_unbroken config " = " (by decide) fields h)
  | channel _ channel =>
    exact ⟨by decide, h _ List.mem_cons_self, by decide⟩
  | shader _ _ _ => exact (by decide : Unbroken "[glsl| ... |]")
termination_by structural e
theorem Def.doc_unbroken (config : Config) (d : Def A Empty V (TypeExpr V))
    (h : ∀ label ∈ d.labels, Unbroken label) : (d.doc config).Unbroken := by
  rcases d with ⟨pattern, body, type⟩ | definition
  · simp only [Def.labels, List.forall_mem_append] at h
    have hp := pattern.doc_unbroken .whole h.1
    have he : (pattern.doc .whole ++ (.text " = " ++ body.doc config .whole)).Unbroken :=
      ⟨hp, by decide, Expr.doc_unbroken config .whole body h.2.1⟩
    cases type with
    | none => exact he
    | some type =>
      have ht : (type.doc .whole).Unbroken := type.doc_unbroken .whole h.2.2
      exact ⟨hp, by decide, ht, trivial, he⟩
  · exact definition.elim
termination_by structural d
theorem exprDocs_unbroken (config : Config) (placement : Placement)
    (es : List (Expr A Empty V (TypeExpr V))) (h : ∀ label ∈ exprLabels es, Unbroken label) :
    ∀ doc ∈ exprDocs config placement es, doc.Unbroken := by
  cases es with
  | nil => simp [exprDocs]
  | cons e es =>
    rw [exprLabels, List.forall_mem_append] at h
    simpa [exprDocs] using
      ⟨Expr.doc_unbroken config placement e h.1, exprDocs_unbroken config placement es h.2⟩
termination_by structural es
theorem consDocs_unbroken (config : Config) (es : List (Expr A Empty V (TypeExpr V)))
    (h : ∀ label ∈ exprLabels es, Unbroken label) :
    ∀ doc ∈ consDocs config es, doc.Unbroken := by
  cases es with
  | nil => simp [consDocs]
  | cons e es =>
    rw [exprLabels, List.forall_mem_append] at h
    simpa [consDocs] using ⟨Expr.doc_unbroken config _ e h.1, consDocs_unbroken config es h.2⟩
termination_by structural es
theorem guardDocs_unbroken (config : Config)
    (branches : List (Expr A Empty V (TypeExpr V) × Expr A Empty V (TypeExpr V)))
    (h : ∀ label ∈ guardLabels branches, Unbroken label) :
    ∀ doc ∈ guardDocs config branches, doc.Unbroken := by
  rcases branches with _ | ⟨⟨condition, result⟩, branches⟩
  · simp [guardDocs]
  · simp only [guardLabels, List.forall_mem_append] at h
    have hc := Expr.doc_unbroken config .whole condition h.1
    have hr := Expr.doc_unbroken config .whole result h.2.1
    rw [guardDocs, List.forall_mem_cons]
    exact ⟨⟨trivial, by decide, hc, by decide, hr⟩, guardDocs_unbroken config branches h.2.2⟩
termination_by structural branches
theorem defDocs_unbroken (config : Config) (defs : List (Def A Empty V (TypeExpr V)))
    (h : ∀ label ∈ defLabels defs, Unbroken label) :
    ∀ doc ∈ defDocs config defs, doc.Unbroken := by
  cases defs with
  | nil => simp [defDocs]
  | cons d defs =>
    rw [defLabels, List.forall_mem_append] at h
    rw [defDocs, List.forall_mem_cons]
    exact ⟨⟨trivial, Def.doc_unbroken config d h.1⟩, defDocs_unbroken config defs h.2⟩
termination_by structural defs
theorem branchDocs_unbroken (config : Config)
    (branches : List (Pattern V × Expr A Empty V (TypeExpr V)))
    (h : ∀ label ∈ branchLabels branches, Unbroken label) :
    ∀ doc ∈ branchDocs config branches, doc.Unbroken := by
  rcases branches with _ | ⟨⟨pattern, result⟩, branches⟩
  · simp [branchDocs]
  · simp only [branchLabels, List.forall_mem_append] at h
    have hp := pattern.doc_unbroken .whole h.1
    have hr := Expr.doc_unbroken config .whole result h.2.1
    rw [branchDocs, List.forall_mem_cons]
    exact ⟨⟨trivial, hp, by decide, hr⟩, branchDocs_unbroken config branches h.2.2⟩
termination_by structural branches
theorem fieldDocs_unbroken (config : Config) (relation : String) (hs : Unbroken relation)
    (fields : List (String × Expr A Empty V (TypeExpr V)))
    (h : ∀ label ∈ fieldLabels fields, Unbroken label) :
    ∀ doc ∈ fieldDocs config relation fields, doc.Unbroken := by
  rcases fields with _ | ⟨⟨field, value⟩, fields⟩
  · simp [fieldDocs]
  · simp only [fieldLabels, List.forall_mem_cons, List.forall_mem_append] at h
    have hv := Expr.doc_unbroken config .whole value h.2.1
    rw [fieldDocs, List.forall_mem_cons]
    exact ⟨⟨h.1, hs, hv⟩, fieldDocs_unbroken config relation hs fields h.2.2⟩
termination_by structural fields
end

end

end PhaseTree
