import PhaseTree.Proofs.Print.Nesting
import PhaseTree.Proofs.Print.Parentheses
import PhaseTree.Proofs.Print.Phrases

set_option autoImplicit false

namespace PhaseTree

namespace Placement

def shown (placement : Placement) (words : List String) : List String :=
  match placement with
  | operand => []
  | _ => words

def shownIf (compound : Bool) (placement : Placement) (words : List String) : List String :=
  if compound then placement.shown words else words

theorem shownIf_operand (compound : Bool) (words : List String) :
    operand.shownIf compound words ⊆ whole.shownIf compound words := by
  cases compound with
  | true => exact List.nil_subset _
  | false => exact List.Subset.refl _

end Placement

section

variable {A V : Type} [Named V]

namespace Pattern

mutual
def words (placement : Placement) : Pattern V → List String
  | data name args =>
    match Sugar.of (Named.bare name) args.length with
    | .cons => placement.shown (consWords args)
    | .nil | .tuple => []
    | .plain => placement.shownIf (!args.isEmpty) (Named.display name :: wordsAll args)
  | named _ inner => placement.shown (inner.words .operand)
  | record _ | var _ | any | lit _ => []
termination_by structural p => p
def wordsAll : List (Pattern V) → List String
  | [] => []
  | p :: rest => p.words .operand ++ wordsAll rest
termination_by structural ps => ps
def consWords : List (Pattern V) → List String
  | [] => []
  | p :: rest => p.words (.chained (rest.isEmpty && p.isCons)) ++ consWords rest
termination_by structural ps => ps
end

end Pattern

mutual
/-- The names that stand as words outside of all brackets, definitions and branches left out that have other
lines below them. Operators between operands are not among them, and a variable only if it looks like an
operator without being one. -/
def Expr.words (placement : Placement) : Expr A Empty V (TypeExpr V) → List String
  | .var _ name => if Reserved.isOperator (Named.bare name) then [] else [Named.display name]
  | .binop _ _ left right => placement.shown (left.words .operand ++ right.words .operand)
  | .lambda _ param body => placement.shown (param.words .operand ++ body.words .whole)
  | .app _ func arg => placement.shown (func.words (.chained func.isApp) ++ arg.words .operand)
  | .guards _ branches => placement.shown (guardWords branches)
  | .letIn _ _ body => placement.shown (body.words .whole)
  | .case _ subject branches => placement.shown (subject.words .whole ++ branchWords branches)
  | .data _ ctor args =>
    match Sugar.of ctor args.length with
    | .cons => placement.shown (consWords args)
    | .nil | .tuple => []
    | .plain => placement.shownIf (!args.isEmpty) (ctor :: exprWords args)
  | .lit _ _ | .range _ _ _ | .list _ _ | .access _ _ _ | .remove _ _ _ | .insert _ _ _ _ => []
  | .modify _ _ _ | .record _ _ | .channel _ _ | .shader _ _ _ => []
termination_by structural e => e
def exprWords : List (Expr A Empty V (TypeExpr V)) → List String
  | [] => []
  | e :: rest => e.words .operand ++ exprWords rest
termination_by structural es => es
def consWords : List (Expr A Empty V (TypeExpr V)) → List String
  | [] => []
  | e :: rest => e.words (.chained (rest.isEmpty && e.isCons)) ++ consWords rest
termination_by structural es => es
def guardWords : List (Expr A Empty V (TypeExpr V) × Expr A Empty V (TypeExpr V)) → List String
  | [] => []
  | (condition, result) :: rest =>
    if rest.isEmpty then condition.words .whole ++ result.words .whole else guardWords rest
termination_by structural branches => branches
def branchWords : List (Pattern V × Expr A Empty V (TypeExpr V)) → List String
  | [] => []
  | (pattern, result) :: rest =>
    if rest.isEmpty then pattern.words .whole ++ result.words .whole else branchWords rest
termination_by structural branches => branches
end

end

/-- A name that can be told from the text around it. -/
def Legible (label : String) : Prop := Tidy label ∧ label ≠ ""

theorem Bare.legible {name : String} (h : Bare name) (hne : name ≠ "") : Legible name :=
  ⟨tidy_single (.inr h), hne⟩

theorem Legible.isWord {label : String} (h : Legible label) (hm : label ≠ "-") : (Doc.text label).IsWord :=
  h.1.solid.isWord (Doc.worded_text h.2 hm)

theorem worded_parensIf {wanted : Bool} {body : Doc} (h : wanted = false → body.Worded) :
    (Doc.parensIf wanted body).Worded := by
  cases wanted with
  | true => exact Doc.worded_parens body
  | false => exact h rfl

theorem worded_bareDoc {name : String} (hne : name ≠ "") : (bareDoc name).Worded := by
  apply worded_parensIf
  intro ho
  apply Doc.worded_text hne
  intro e
  rw [e] at ho
  exact absurd ho (by decide)

/-- Only the operator `-` prints as a minus. -/
theorem atom_infixDoc {V : Type} [Named V] {name : V} (h : Tidy (Named.display name)) :
    ∃ w, (infixDoc name).Atom w ∧ w ≠ [] ∧ (w = ['-'] → Named.bare name = "-") := by
  have hs := solid_infixDoc h
  unfold infixDoc at hs ⊢
  split at hs
  case isTrue ho =>
    have hb := bare_operator ho
    have hne : (Named.bare name).toList ≠ [] := by simpa using (Bool.and_eq_true_iff.1 ho).1
    rw [if_pos ho]
    exact ⟨_, ⟨Doc.spans_text (Level.of_clear hb.2) rfl, hb.1⟩, hne, fun e => String.toList_injective e⟩
  case isFalse ho =>
    obtain ⟨w, ha, hne, hm⟩ := hs.isWord (Doc.worded_append (by decide) (by decide) _)
    rw [if_neg ho]
    exact ⟨w, ha, hne, fun e => absurd e hm⟩

theorem intRepr_worded (n : Int) : (Doc.text n.repr).Worded := by
  have digits : ∀ m : Nat, m.repr.toList ≠ [] ∧ '-' ∉ m.repr.toList := by
    intro m
    rw [Nat.toList_repr]
    exact ⟨Nat.toDigits_ne_nil, fun h =>
      absurd (Nat.isDigit_of_mem_toDigits (by decide) (by decide) h) (by decide)⟩
  apply Doc.always_text
  cases n with
  | ofNat m => exact ⟨(digits m).1, fun e => (digits m).2 (by rw [show m.repr.toList = ['-'] from e]; simp)⟩
  | negSucc m =>
    have hr : (Int.repr (.negSucc m)).toList = '-' :: (m + 1).repr.toList := by simp [Int.repr]
    rw [hr]
    exact ⟨by simp, fun e => (digits (m + 1)).1 (List.cons.inj e).2⟩

theorem mark_mem_write (style : DecimalStyle) (d : Decimal) : '.' ∈ d.write style ∨ 'e' ∈ d.write style := by
  unfold Decimal.write
  split_ifs
  · left
    unfold Decimal.positional
    dsimp only
    split_ifs <;> simp
  · right
    simp [Decimal.scientific]

theorem write_worded (style : DecimalStyle) (x : Binary64) : (Doc.text (x.write style)).Worded := by
  have hmark : '.' ∈ (x.write style).toList ∨ 'e' ∈ (x.write style).toList := by
    rw [Binary64.write, String.toList_ofList, List.mem_append, List.mem_append]
    exact (mark_mem_write style x.shortest).imp .inr .inr
  apply Doc.always_text
  constructor
  · intro e
    simp [e] at hmark
  · intro e
    simp [e] at hmark

theorem floatText_unsigned (x : Binary64) : (Doc.text (Literal.floatText x)).Unsigned := by
  have sign : Unsigned ['-', '1'] :=
    Undivided.unsigned ⟨_, Level.of_clear (by decide), by decide⟩ (by decide)
  have slash : Unsigned " / 0".toList := unsigned_of_notMem (by decide) (by decide)
  unfold Literal.floatText
  split_ifs
  · exact Doc.unsigned_text (by decide) (by decide)
  · exact Doc.always_text (sign.append slash)
  · exact Doc.unsigned_text (by decide) (by decide)
  · exact ((bare_numeric (numeric_write _ x)).solid.isWord (write_worded _ x)).unsigned

namespace Literal

theorem doc_whole (value : Literal) : value.doc .whole = .text value.spelling := by
  unfold doc
  cases value.isCompound <;> rfl

theorem spelling_worded {value : Literal} (h : ¬value.Compound) : (Doc.text value.spelling).Worded := by
  cases value with
  | int n => exact intRepr_worded n
  | float x =>
    have hf : x.isFinite = true := by
      cases hf : x.isFinite with
      | true => rfl
      | false => exact absurd (.inr hf) h
    change (Doc.text (floatText x)).Worded
    rw [floatText_of_isFinite hf]
    exact write_worded _ x
  | char c => exact Doc.always_text (by simp [spelling, Quoted.toList_text])
  | text s => exact Doc.always_text (by simp [spelling, Quoted.toList_text])
  | bool b => cases b <;> exact Doc.worded_text (by decide) (by decide)

theorem doc_worded (value : Literal) : (value.doc .operand).Worded := by
  rw [doc_operand]
  split_ifs with hc
  · exact Doc.worded_parens _
  · rw [doc_whole]
    exact spelling_worded hc

theorem doc_unsigned (value : Literal) : (value.doc .whole).Unsigned := by
  by_cases hc : value.Compound
  · rw [doc_whole]
    cases value with
    | int n => exact ((bare_numeric (numeric_intRepr n)).solid.isWord (intRepr_worded n)).unsigned
    | float x => exact floatText_unsigned x
    | char _ | text _ | bool _ => exact hc.elim
  · have hs : (value.doc .operand).Solid := fits_literal .operand value
    have hw := hs.isWord value.doc_worded
    rw [doc_operand, if_neg hc] at hw
    exact hw.unsigned

end Literal

theorem not_applied {X : Type} {name : String} {args : List X} (h : ¬IsApplied (some name) args) :
    Sugar.of name args.length ≠ .cons ∧ (Sugar.of name args.length = .plain → args = []) := by
  rw [isApplied_iff] at h
  constructor
  · intro hs
    exact h (by simp [hs])
  · intro hs
    simpa [hs] using h

theorem applied {X : Type} {name : String} {args : List X} (h : IsApplied (some name) args) :
    Sugar.of name args.length = .cons ∨ Sugar.of name args.length = .plain := by
  rw [isApplied_iff] at h
  cases hs : Sugar.of name args.length with
  | cons | plain => simp
  | nil | tuple => simp [hs] at h

theorem pair_of_cons {X : Type} {name : String} {args : List X} (h : Sugar.of name args.length = .cons) :
    ∃ head tail, args = [head, tail] :=
  List.length_eq_two.1 ((Sugar.of_eq_cons_iff _ _).1 h).2

theorem cons_unsigned {head tail : Doc} (hh : head.IsWord) (ht : tail.Unsigned) :
    (Doc.separated " :: " [head, tail]).Unsigned := by
  have colons : (Doc.text " :: ").Unsigned := Doc.unsigned_text (by decide) (by decide)
  exact hh.unsigned.append (colons.append ht)

theorem Expr.ctor?_of_isCons {A D V T : Type} {e : Expr A D V T} (h : e.isCons = true) :
    e.ctor?.isSome = true := by
  cases e <;> simp_all [isCons, ctor?]

section

variable {A V : Type} [Named V]

theorem Pattern.words_operand (p : Pattern V) : p.words .operand ⊆ p.words .whole := by
  cases p with
  | data name args =>
    rw [words, words]
    split
    · exact List.nil_subset _
    · exact List.nil_subset _
    · exact List.nil_subset _
    · exact Placement.shownIf_operand _ _
  | named _ _ => exact List.nil_subset _
  | record _ | var _ | any | lit _ => exact List.nil_subset _

theorem Pattern.doc_isWord (p : Pattern V) (h : ∀ label ∈ p.labels, Legible label)
    (hw : ∀ word ∈ p.words .operand, word ≠ "-") : (p.doc .operand).IsWord := by
  have hs : (p.doc .operand).Solid := p.doc_fits .operand fun label hm => (h label hm).1
  apply hs.isWord
  by_cases hc : p.Compound
  · rw [Pattern.doc_operand, if_pos hc]
    exact Doc.worded_parens _
  · cases p with
    | data name args =>
      obtain ⟨notCons, plain⟩ := not_applied hc
      rw [Pattern.doc]
      cases hsugar : Sugar.of (Named.bare name) args.length with
      | cons => exact absurd hsugar notCons
      | nil => exact Doc.worded_text (by decide) (by decide)
      | tuple => exact Doc.worded_parens _
      | plain =>
        cases plain hsugar
        have hl := (h _ List.mem_cons_self).2
        have hm : Named.display name ≠ "-" := by
          rw [words, hsugar] at hw
          exact hw _ List.mem_cons_self
        exact (Doc.worded_text hl hm).applied_nil
    | record fields => exact Doc.worded_braces _
    | named name inner => exact absurd trivial hc
    | var name => exact worded_bareDoc (h name List.mem_cons_self).2
    | any => exact Doc.worded_text (by decide) (by decide)
    | lit value => exact value.doc_worded

theorem Pattern.docs_isWord (ps : List (Pattern V)) (h : ∀ label ∈ labelsAll ps, Legible label)
    (hw : ∀ word ∈ wordsAll ps, word ≠ "-") : ∀ doc ∈ docs .operand ps, doc.IsWord := by
  induction ps with
  | nil => simp [docs]
  | cons p ps ih =>
    rw [labelsAll, List.forall_mem_append] at h
    rw [wordsAll, List.forall_mem_append] at hw
    rw [docs, List.forall_mem_cons]
    exact ⟨p.doc_isWord h.1 hw.1, ih h.2 hw.2⟩

theorem Pattern.doc_unsigned (p : Pattern V) (h : ∀ label ∈ p.labels, Legible label)
    (hw : ∀ word ∈ p.words .whole, word ≠ "-") : (p.doc .whole).Unsigned := by
  by_cases hc : p.Compound
  · cases p with
    | data name args =>
      simp only [Pattern.labels, List.forall_mem_cons] at h
      rw [Pattern.doc]
      rw [Pattern.words] at hw
      obtain hcons | hplain := applied hc
      · obtain ⟨head, tail, rfl⟩ := pair_of_cons hcons
        simp only [labelsAll, List.forall_mem_append] at h
        simp only [hcons, Placement.shown, consWords, List.forall_mem_append] at hw
        have hh : (head.doc .operand).IsWord := head.doc_isWord h.2.1 hw.1
        have ht : (tail.doc (.chained tail.isCons)).Unsigned := by
          have ht : ∀ word ∈ tail.words (.chained tail.isCons), word ≠ "-" := hw.2.1
          cases hk : tail.isCons with
          | true =>
            rw [hk] at ht
            exact tail.doc_unsigned h.2.2.1 ht
          | false =>
            rw [hk] at ht
            exact (tail.doc_isWord h.2.2.1 ht).unsigned
        simp only [hcons, consDocs, Placement.wrap]
        exact cons_unsigned hh ht
      · simp only [hplain, Placement.shownIf, Placement.shown, ite_self, List.forall_mem_cons] at hw
        have hl : (Doc.text (Named.display name)).IsWord := h.1.isWord hw.1
        have happlied := hl.unsigned.applied (docs_isWord args h.2 hw.2)
        simp only [hplain, Placement.wrapIf, Placement.wrap, ite_self]
        exact happlied
    | named name inner =>
      simp only [Pattern.labels, List.forall_mem_cons] at h
      have hi := (inner.doc_isWord h.2 hw).unsigned
      have hn := ((solid_bareDoc h.1.1).isWord (worded_bareDoc h.1.2)).unsigned
      have has : (Doc.text " as ").Unsigned := Doc.unsigned_text (by decide) (by decide)
      rw [Pattern.doc]
      exact hi.append (has.append hn)
    | lit value =>
      rw [Pattern.doc]
      exact value.doc_unsigned
    | record _ | var _ | any => exact hc.elim
  · have hword := p.doc_isWord h fun word hm => hw word (p.words_operand hm)
    rw [Pattern.doc_operand, if_neg hc] at hword
    exact hword.unsigned

theorem Expr.words_operand (e : Expr A Empty V (TypeExpr V)) : e.words .operand ⊆ e.words .whole := by
  cases e with
  | var _ _ => exact List.Subset.refl _
  | data _ ctor args =>
    rw [words, words]
    split
    · exact List.nil_subset _
    · exact List.nil_subset _
    · exact List.nil_subset _
    · exact Placement.shownIf_operand _ _
  | _ => exact List.nil_subset _

theorem Expr.doc_worded (config : Config) (e : Expr A Empty V (TypeExpr V))
    (h : ∀ label ∈ e.labels, label ≠ "") (hw : ∀ word ∈ e.words .operand, word ≠ "-") :
    (e.doc config .operand).Worded := by
  by_cases hc : e.Compound
  · rw [Expr.doc_operand, if_pos hc]
    exact Doc.worded_parens _
  · cases e with
    | lit _ value => exact value.doc_worded
    | var a name =>
      apply worded_parensIf
      intro ho
      have hm : Named.display name ≠ "-" := hw _ (by simp [Expr.words, ho])
      exact Doc.worded_text (h _ List.mem_cons_self) hm
    | range _ low high => exact Doc.worded_brackets _
    | list _ items => exact Doc.worded_brackets _
    | data _ ctor args =>
      obtain ⟨notCons, plain⟩ := not_applied hc
      rw [Expr.doc]
      cases hsugar : Sugar.of ctor args.length with
      | cons => exact absurd hsugar notCons
      | nil => exact Doc.worded_text (by decide) (by decide)
      | tuple => exact Doc.worded_parens _
      | plain =>
        cases plain hsugar
        have hm : ctor ≠ "-" := by
          rw [words, hsugar] at hw
          exact hw _ List.mem_cons_self
        exact (Doc.worded_text (h _ List.mem_cons_self) hm).applied_nil
    | access _ e field => exact Doc.worded_dot _ _
    | remove _ e field => exact Doc.worded_braces _
    | insert _ e field value => exact Doc.worded_braces _
    | modify _ e fields => exact Doc.worded_braces _
    | record _ fields => exact Doc.worded_braces _
    | channel _ channel => exact Doc.worded_append (by decide) (by decide) _
    | shader _ _ _ => exact Doc.worded_text (by decide) (by decide)
    | binop _ _ _ _ | lambda _ _ _ | app _ _ _ => exact absurd trivial hc
    | guards _ _ | letIn _ _ _ | case _ _ _ => exact absurd trivial hc

theorem Expr.doc_isWord (config : Config) (e : Expr A Empty V (TypeExpr V))
    (h : ∀ label ∈ e.labels, Legible label) (hw : ∀ word ∈ e.words .operand, word ≠ "-") :
    (e.doc config .operand).IsWord := by
  have hs : (e.doc config .operand).Solid := e.doc_fits config .operand fun label hm => (h label hm).1
  exact hs.isWord (e.doc_worded config (fun label hm => (h label hm).2) hw)

theorem exprDocs_isWord (config : Config) (es : List (Expr A Empty V (TypeExpr V)))
    (h : ∀ label ∈ exprLabels es, Legible label) (hw : ∀ word ∈ exprWords es, word ≠ "-") :
    ∀ doc ∈ exprDocs config .operand es, doc.IsWord := by
  induction es with
  | nil => simp [exprDocs]
  | cons e es ih =>
    rw [exprLabels, List.forall_mem_append] at h
    rw [exprWords, List.forall_mem_append] at hw
    rw [exprDocs, List.forall_mem_cons]
    exact ⟨e.doc_isWord config h.1 hw.1, ih h.2 hw.2⟩

theorem Expr.chain_unsigned (config : Config) (e : Expr A Empty V (TypeExpr V))
    (hk : e.isApp = true ∨ e.ctor?.isSome = true) (h : ∀ label ∈ e.labels, Legible label)
    (hw : ∀ word ∈ e.words .whole, word ≠ "-") : (e.doc config .whole).Unsigned := by
  cases e with
  | app _ func arg =>
    rw [Expr.labels, List.forall_mem_append] at h
    simp only [Expr.words, Placement.shown, List.forall_mem_append] at hw
    have ha := (arg.doc_isWord config h.2 hw.2).unsigned
    have hf : (func.doc config (.chained func.isApp)).Unsigned := by
      have hf := hw.1
      cases hk : func.isApp with
      | true =>
        rw [hk] at hf
        exact func.chain_unsigned config (.inl hk) h.1 hf
      | false =>
        rw [hk] at hf
        exact (func.doc_isWord config h.1 hf).unsigned
    rw [Expr.doc]
    exact hf.append (Doc.unsigned_space.append ha)
  | data a ctor args =>
    by_cases hc : IsApplied (some ctor) args
    · simp only [Expr.labels, List.forall_mem_cons] at h
      rw [Expr.words] at hw
      rw [Expr.doc]
      obtain hcons | hplain := applied hc
      · obtain ⟨head, tail, rfl⟩ := pair_of_cons hcons
        simp only [exprLabels, List.forall_mem_append] at h
        simp only [hcons, Placement.shown, consWords, List.forall_mem_append] at hw
        have hh : (head.doc config .operand).IsWord := head.doc_isWord config h.2.1 hw.1
        have ht : (tail.doc config (.chained tail.isCons)).Unsigned := by
          have ht : ∀ word ∈ tail.words (.chained tail.isCons), word ≠ "-" := hw.2.1
          cases hk : tail.isCons with
          | true =>
            rw [hk] at ht
            exact tail.chain_unsigned config (.inr (ctor?_of_isCons hk)) h.2.2.1 ht
          | false =>
            rw [hk] at ht
            exact (tail.doc_isWord config h.2.2.1 ht).unsigned
        simp only [hcons, consDocs, Placement.wrap]
        exact cons_unsigned hh ht
      · simp only [hplain, Placement.shownIf, Placement.shown, ite_self, List.forall_mem_cons] at hw
        have hl : (Doc.text ctor).IsWord := h.1.isWord hw.1
        have happlied := hl.unsigned.applied (exprDocs_isWord config args h.2 hw.2)
        simp only [hplain, Placement.wrapIf, Placement.wrap, ite_self]
        exact happlied
    · have hn : ¬(data a ctor args : Expr A Empty V (TypeExpr V)).Compound := hc
      have hword := (data a ctor args).doc_isWord config h fun word hm => hw word (words_operand _ hm)
      rw [Expr.doc_operand, if_neg hn] at hword
      exact hword.unsigned
  | _ => simp [isApp, ctor?] at hk

end

end PhaseTree
