import PhaseTree.Proofs.Print.Offside

set_option autoImplicit false

namespace PhaseTree

/-- The text of `inner` ends the text of the expression. -/
inductive Expr.IsTail {A D V T : Type} (inner : Expr A D V T) : Expr A D V T → Prop
  | self : IsTail inner inner
  | lambda (a : A) (param : Pattern V) {body : Expr A D V T} (h : IsTail inner body) :
    IsTail inner (.lambda a param body)
  | letIn (a : A) (defs : List (Def A D V T)) {body : Expr A D V T} (h : IsTail inner body) :
    IsTail inner (.letIn a defs body)
  | guards (a : A) (before : List (Expr A D V T × Expr A D V T)) (condition : Expr A D V T)
    {result : Expr A D V T} (h : IsTail inner result) :
    IsTail inner (.guards a (before ++ [(condition, result)]))
  | case (a : A) (subject : Expr A D V T) (before : List (Pattern V × Expr A D V T)) (pattern : Pattern V)
    {result : Expr A D V T} (h : IsTail inner result) :
    IsTail inner (.case a subject (before ++ [(pattern, result)]))

theorem Legible.written {label : String} (h : Legible label) : Written label := by
  obtain ⟨⟨parts, rfl, hp⟩, hne⟩ := h
  refine ⟨hne, blankless_intercalate fun part hm => ?_⟩
  obtain rfl | hb := hp part hm
  · decide
  · exact hb.1

section

variable {A V : Type} [Named V]

/-- The expression ends with a subtraction, of which `last` is the text of the right operand. -/
def Expr.SubtractsLast (config : Config) (e : Expr A Empty V (TypeExpr V)) (last : List Char) : Prop :=
  ∃ a op left right anchor column, (binop a op left right).IsTail e ∧ Named.bare op = "-" ∧
    left.isNegation op = false ∧ last = (right.doc config .operand).piece anchor column

theorem Expr.SubtractsLast.outward {config : Config} {e e' : Expr A Empty V (TypeExpr V)}
    {last : List Char} (h : e.SubtractsLast config last)
    (ht : ∀ inner : Expr A Empty V (TypeExpr V), inner.IsTail e → inner.IsTail e') :
    e'.SubtractsLast config last := by
  obtain ⟨a, op, left, right, anchor, column, htail, hop, hn, hl⟩ := h
  exact ⟨a, op, left, right, anchor, column, ht _ htail, hop, hn, hl⟩

/-- A chain of lambdas has inner links, which stand behind a parameter. -/
def Expr.Reading (config : Config) (e : Expr A Empty V (TypeExpr V)) : Prop :=
  (e.doc config .whole).Phrase (e.SubtractsLast config) ∧
    (e.isLambda = true → (e.doc config .continuing).Phrase (e.SubtractsLast config))

def guardLine (config : Config) (branch : Expr A Empty V (TypeExpr V) × Expr A Empty V (TypeExpr V)) : Doc :=
  .text "| " ++ (branch.1.doc config .whole ++ (.text " -> " ++ branch.2.doc config .whole))

def branchLine (config : Config) (branch : Pattern V × Expr A Empty V (TypeExpr V)) : Doc :=
  branch.1.doc .whole ++ (.text " -> " ++ branch.2.doc config .whole)

theorem guardDocs_eq (config : Config)
    (branches : List (Expr A Empty V (TypeExpr V) × Expr A Empty V (TypeExpr V))) :
    guardDocs config branches =
      (branches.map (guardLine config)).map fun doc => .newline config.ifIndent ++ doc := by
  induction branches with
  | nil => rfl
  | cons branch branches ih => simp [guardDocs, guardLine, ih]

theorem defDocs_eq (config : Config) (defs : List (Def A Empty V (TypeExpr V))) :
    defDocs config defs = (defs.map (Def.doc config)).map fun doc => .newline config.letIndent ++ doc := by
  induction defs with
  | nil => rfl
  | cons d defs ih => simp [defDocs, ih]

theorem branchDocs_eq (config : Config) (branches : List (Pattern V × Expr A Empty V (TypeExpr V))) :
    branchDocs config branches =
      (branches.map (branchLine config)).map fun doc => .newline config.caseIndent ++ doc := by
  induction branches with
  | nil => rfl
  | cons branch branches ih => simp [branchDocs, branchLine, ih]

theorem Expr.movable_balanced (config : Config) {e : Expr A Empty V (TypeExpr V)}
    (h : ∀ label ∈ e.labels, Legible label) :
    (e.doc config .whole).Movable ∧ (e.doc config .whole).Balanced :=
  ⟨Expr.movable config fun label hm => (h label hm).written,
    (e.doc_fits config .whole fun label hm => (h label hm).1).balanced⟩

theorem Pattern.movable_balanced {p : Pattern V} (h : ∀ label ∈ p.labels, Legible label) :
    (p.doc .whole).Movable ∧ (p.doc .whole).Balanced :=
  ⟨Pattern.movable fun label hm => (h label hm).written,
    (p.doc_fits .whole fun label hm => (h label hm).1).balanced⟩

theorem guardLines_movable_balanced (config : Config)
    {branches : List (Expr A Empty V (TypeExpr V) × Expr A Empty V (TypeExpr V))}
    (h : ∀ label ∈ guardLabels branches, Legible label) :
    ∀ doc ∈ branches.map (guardLine config), doc.Movable ∧ doc.Balanced := by
  induction branches with
  | nil => simp
  | cons branch branches ih =>
    simp only [guardLabels, List.forall_mem_append] at h
    obtain ⟨hc, hr, hrest⟩ := h
    have condition := Expr.movable_balanced config hc
    have result := Expr.movable_balanced config hr
    rw [List.map_cons, List.forall_mem_cons]
    exact ⟨⟨.append (.text (by decide)) (condition.1.append (.append (.text (by decide)) result.1)),
      (Doc.balanced_text (by decide)).append (condition.2.join (by decide) result.2)⟩, ih hrest⟩

theorem branchLines_movable_balanced (config : Config)
    {branches : List (Pattern V × Expr A Empty V (TypeExpr V))}
    (h : ∀ label ∈ branchLabels branches, Legible label) :
    ∀ doc ∈ branches.map (branchLine config), doc.Movable ∧ doc.Balanced := by
  induction branches with
  | nil => simp
  | cons branch branches ih =>
    simp only [branchLabels, List.forall_mem_append] at h
    obtain ⟨hp, hr, hrest⟩ := h
    have pattern := Pattern.movable_balanced hp
    have result := Expr.movable_balanced config hr
    rw [List.map_cons, List.forall_mem_cons]
    exact ⟨⟨pattern.1.append (.append (.text (by decide)) result.1), pattern.2.join (by decide) result.2⟩,
      ih hrest⟩

theorem Def.movable (config : Config) {d : Def A Empty V (TypeExpr V)}
    (h : ∀ label ∈ d.labels, Written label) : (d.doc config).Movable := by
  rcases d with ⟨pattern, body, type⟩ | definition
  · simp only [Def.labels, List.forall_mem_append] at h
    have equation : (pattern.doc .whole ++ (.text " = " ++ body.doc config .whole)).Movable :=
      (Pattern.movable h.1).append (.append (.text (by decide)) (Expr.movable config h.2.1))
    cases type with
    | none => exact equation
    | some type =>
      refine ⟨trivial, (Pattern.movable h.1).unbroken, ?_, (TypeExpr.movable h.2.2).unbroken, trivial,
        equation.unbroken⟩
      decide
  · exact definition.elim

theorem defs_movable_balanced (config : Config) {defs : List (Def A Empty V (TypeExpr V))}
    (h : ∀ label ∈ defLabels defs, Legible label) :
    ∀ doc ∈ defs.map (Def.doc config), doc.Movable ∧ doc.Balanced := by
  induction defs with
  | nil => simp
  | cons d defs ih =>
    rw [defLabels, List.forall_mem_append] at h
    rw [List.map_cons, List.forall_mem_cons]
    exact ⟨⟨Def.movable config fun label hm => (h.1 label hm).written,
      d.doc_balanced config fun label hm => (h.1 label hm).1⟩, ih h.2⟩

theorem Expr.reading_of_whole {config : Config} {e : Expr A Empty V (TypeExpr V)} (hn : e.isLambda = false)
    (h : (e.doc config .whole).Phrase (e.SubtractsLast config)) : e.Reading config :=
  ⟨h, fun hl => by rw [hn] at hl; contradiction⟩

theorem Expr.reading_of_simple {config : Config} {e : Expr A Empty V (TypeExpr V)} (hn : e.isLambda = false)
    (hc : ¬e.Compound) (h : ∀ label ∈ e.labels, Legible label) (hw : ∀ word ∈ e.words .whole, word ≠ "-") :
    e.Reading config := by
  have hword := e.doc_isWord config h fun word hm => hw word (e.words_operand hm)
  rw [Expr.doc_operand, if_neg hc] at hword
  exact reading_of_whole hn hword.unsigned.phrase

theorem Expr.reading_binop {config : Config} {a : A} {op : V} {left right : Expr A Empty V (TypeExpr V)}
    (ho : Tidy (Named.display op)) (hl : (left.doc config .operand).IsWord)
    (hr : (right.doc config .operand).IsWord) : (binop a op left right).Reading config := by
  apply reading_of_whole rfl
  rw [Expr.doc]
  cases hn : left.isNegation op with
  | true =>
    obtain ⟨r, hright, hrne, hrm⟩ := hr
    have sign : (Doc.text "-").Atom "-".toList := ⟨Doc.spans_text (Level.of_clear (by decide)) rfl, by decide⟩
    have word : (Doc.text "-" ++ right.doc config .operand).IsWord :=
      ⟨_, sign.append hright, by simp, by simp [hrne]⟩
    exact word.unsigned.phrase
  | false =>
    obtain ⟨o, hop, hone, hom⟩ := atom_infixDoc ho
    by_cases hminus : o = ['-']
    · subst hminus
      have last := hr.subtracted (P := (binop a op left right).SubtractsLast config) hop
        fun anchor column => ⟨a, op, left, right, anchor, column, .self, hom rfl, hn, rfl⟩
      exact hl.unsigned.then last
    · have operator : (infixDoc op).IsWord := ⟨o, hop, hone, hminus⟩
      have spaced := Doc.unsigned_space.append (operator.unsigned.append Doc.unsigned_space)
      exact (hl.unsigned.append (spaced.append hr.unsigned)).phrase

theorem Expr.reading_lambda {config : Config} {a : A} {param : Pattern V}
    {body : Expr A Empty V (TypeExpr V)} (hp : (param.doc .operand).IsWord) (hb : body.Reading config) :
    (lambda a param body).Reading config := by
  have outward : ∀ last, body.SubtractsLast config last →
      (lambda a param body).SubtractsLast config last :=
    fun last h => SubtractsLast.outward h fun inner ht => .lambda a param ht
  have tail : ∀ head : Doc, head.Unsigned →
      (head ++ (if body.isLambda then .text " " ++ body.doc config .continuing
        else .text " -> " ++ body.doc config .whole)).Phrase
          ((lambda a param body).SubtractsLast config) := by
    intro head hh
    split
    case isTrue hl => exact hh.then (Doc.unsigned_space.then ((hb.2 hl).mono outward))
    case isFalse => exact hh.then (Doc.unsigned_arrow.then (hb.1.mono outward))
  have backslash : (Doc.text "\\").Solid := Bare.solid (by decide)
  have opening : (Doc.text "\\" ++ param.doc .operand).IsWord :=
    (backslash.append hp.solid).isWord (Doc.worded_append (by decide) (by decide) _)
  constructor
  · have whole := tail _ opening.unsigned
    exact whole
  · exact fun _ => tail _ hp.unsigned

theorem Expr.Reading.arrow {config : Config} {e : Expr A Empty V (TypeExpr V)} (h : e.Reading config)
    {rest : Doc} {P : List Char → Prop} (hr : rest.Phrase P) :
    (e.doc config .whole ++ (.text " -> " ++ rest)).Phrase P :=
  h.1.then (Doc.unsigned_arrow.then hr) (Doc.continued_text rest (by decide) ⟨'-', by decide, by decide⟩)

theorem Doc.inked_append {doc : Doc} (h : doc.Always Inked) (rest : Doc) : (doc ++ rest).Always Inked := by
  intro anchor column
  rw [piece_append_stop]
  exact (h anchor column).append _

theorem Expr.reading_guards {config : Config} {a : A}
    {before : List (Expr A Empty V (TypeExpr V) × Expr A Empty V (TypeExpr V))}
    {last : Expr A Empty V (TypeExpr V) × Expr A Empty V (TypeExpr V)}
    (hb : ∀ doc ∈ before.map (guardLine config), doc.Movable ∧ doc.Balanced)
    (hc : last.1.Reading config) (hr : last.2.Reading config) :
    (guards a (before ++ [last])).Reading config := by
  apply reading_of_whole rfl
  have outward : ∀ word, last.2.SubtractsLast config word →
      (guards a (before ++ [last])).SubtractsLast config word :=
    fun word h => h.outward fun inner ht => .guards a before last.1 ht
  have bar : (Doc.text "| ").Unsigned := Doc.unsigned_text (by decide) (by decide)
  have keyword : (Doc.text "if").Unsigned := Doc.unsigned_text (by decide) (by decide)
  have line : (guardLine config last).Phrase _ := bar.then (hc.arrow (hr.1.mono outward))
  have inked : (Doc.text "| ").Always Inked := Doc.always_text ⟨'|', _, rfl, by decide, by decide⟩
  have lines := line.lines (Doc.inked_append inked _) hb config.ifIndent
  rw [Expr.doc, guardDocs_eq, List.map_append]
  exact (keyword.then lines).align

theorem Expr.reading_case {config : Config} {a : A} {subject : Expr A Empty V (TypeExpr V)}
    {before : List (Pattern V × Expr A Empty V (TypeExpr V))} {last : Pattern V × Expr A Empty V (TypeExpr V)}
    (hs : subject.Reading config)
    (hb : ∀ doc ∈ before.map (branchLine config), doc.Movable ∧ doc.Balanced)
    (hi : (last.1.doc .whole).Always Inked) (hp : (last.1.doc .whole).Unsigned)
    (hr : last.2.Reading config) : (case a subject (before ++ [last])).Reading config := by
  apply reading_of_whole rfl
  have outward : ∀ word, last.2.SubtractsLast config word →
      (case a subject (before ++ [last])).SubtractsLast config word :=
    fun word h => h.outward fun inner ht => .case a subject before last.1 ht
  have keyword : (Doc.text "case ").Unsigned := Doc.unsigned_text (by decide) (by decide)
  have hof : (Doc.text " of").Unsigned := Doc.unsigned_text (by decide) (by decide)
  have line : (branchLine config last).Phrase _ := hp.then (Doc.unsigned_arrow.then (hr.1.mono outward))
  have lines := line.lines (Doc.inked_append hi _) hb config.caseIndent
  rw [Expr.doc, branchDocs_eq, List.map_append]
  exact (keyword.then (hs.1.then (hof.then lines)
    (Doc.continued_text _ (by decide) ⟨'o', by decide, by decide⟩))).align

theorem Expr.reading_letIn {config : Config} {a : A} {defs : List (Def A Empty V (TypeExpr V))}
    {body : Expr A Empty V (TypeExpr V)} (hd : ∀ doc ∈ defs.map (Def.doc config), doc.Movable ∧ doc.Balanced)
    (hb : body.Reading config) : (letIn a defs body).Reading config := by
  apply reading_of_whole rfl
  have outward : ∀ word, body.SubtractsLast config word → (letIn a defs body).SubtractsLast config word :=
    fun word h => h.outward fun inner ht => .letIn a defs ht
  have keyword : (Doc.text "let").Unsigned := Doc.unsigned_text (by decide) (by decide)
  have hin : (Doc.text "in ").Unsigned := Doc.unsigned_text (by decide) (by decide)
  have last : (Doc.text "in " ++ body.doc config .whole).Phrase _ := hin.then (hb.1.mono outward)
  have inked : (Doc.text "in ").Always Inked := Doc.always_text ⟨'i', _, rfl, by decide, by decide⟩
  have lines := last.below (Doc.inked_append inked _) hd (Nat.zero_le config.letIndent)
  rw [Expr.doc, defDocs_eq]
  exact (keyword.then lines).align

theorem Pattern.always_inked {p : Pattern V} (h : ∀ label ∈ p.labels, Legible label) :
    (p.doc .whole).Always Inked := by
  intro anchor column
  rw [(p.doc_onOneLine .whole).piece_eq]
  exact p.inked_doc .whole fun label hm => (h label hm).written

mutual
theorem Expr.reading (config : Config) (e : Expr A Empty V (TypeExpr V))
    (h : ∀ label ∈ e.labels, Legible label) (hw : ∀ word ∈ e.words .whole, word ≠ "-") :
    e.Reading config := by
  cases e with
  | binop _ op left right =>
    simp only [Expr.labels, List.forall_mem_cons, List.forall_mem_append] at h
    simp only [Expr.words, Placement.shown, List.forall_mem_append] at hw
    exact Expr.reading_binop h.1.1 (left.doc_isWord config h.2.1 hw.1) (right.doc_isWord config h.2.2 hw.2)
  | lambda _ param body =>
    rw [Expr.labels, List.forall_mem_append] at h
    simp only [Expr.words, Placement.shown, List.forall_mem_append] at hw
    exact Expr.reading_lambda (param.doc_isWord h.1 hw.1) (Expr.reading config body h.2 hw.2)
  | guards a branches =>
    have hlast := guards_reading config branches h hw
    obtain rfl | ⟨before, last, rfl⟩ := branches.eq_nil_or_concat'
    · have keyword : (Doc.text "if").Unsigned := Doc.unsigned_text (by decide) (by decide)
      have nothing : (Doc.concat []).Unsigned := .concat (by simp)
      exact Expr.reading_of_whole rfl (keyword.append nothing).phrase.align
    · have hb := guardLines_movable_balanced config h
      rw [List.map_append, List.forall_mem_append] at hb
      obtain ⟨hc, hr⟩ := hlast last (by simp)
      exact Expr.reading_guards hb.1 hc hr
  | letIn _ defs body =>
    rw [Expr.labels, List.forall_mem_append] at h
    exact Expr.reading_letIn (defs_movable_balanced config h.1) (Expr.reading config body h.2 hw)
  | case _ subject branches =>
    rw [Expr.labels, List.forall_mem_append] at h
    simp only [Expr.words, Placement.shown, List.forall_mem_append] at hw
    have hs := Expr.reading config subject h.1 hw.1
    have hlast := branches_reading config branches h.2 hw.2
    obtain rfl | ⟨before, last, rfl⟩ := branches.eq_nil_or_concat'
    · have keyword : (Doc.text "case ").Unsigned := Doc.unsigned_text (by decide) (by decide)
      have hof : (Doc.text " of").Unsigned := Doc.unsigned_text (by decide) (by decide)
      have nothing : (Doc.concat []).Unsigned := .concat (by simp)
      exact Expr.reading_of_whole rfl (keyword.then (hs.1.then (hof.append nothing).phrase
        (Doc.continued_text _ (by decide) ⟨'o', by decide, by decide⟩))).align
    · have hb := branchLines_movable_balanced config h.2
      rw [List.map_append, List.forall_mem_append] at hb
      obtain ⟨hi, hp, hr⟩ := hlast last (by simp)
      exact Expr.reading_case hs hb.1 hi hp hr
  | app a func arg =>
    exact Expr.reading_of_whole rfl ((Expr.app a func arg).chain_unsigned config (.inl rfl) h hw).phrase
  | data a ctor args =>
    exact Expr.reading_of_whole rfl ((Expr.data a ctor args).chain_unsigned config (.inr rfl) h hw).phrase
  | lit _ value => exact Expr.reading_of_whole rfl value.doc_unsigned.phrase
  | var _ _ | range _ _ _ | list _ _ | access _ _ _ => exact Expr.reading_of_simple rfl id h hw
  | remove _ _ _ | insert _ _ _ _ | modify _ _ _ => exact Expr.reading_of_simple rfl id h hw
  | record _ _ | channel _ _ | shader _ _ _ => exact Expr.reading_of_simple rfl id h hw
termination_by structural e
theorem guards_reading (config : Config)
    (branches : List (Expr A Empty V (TypeExpr V) × Expr A Empty V (TypeExpr V)))
    (h : ∀ label ∈ guardLabels branches, Legible label) (hw : ∀ word ∈ guardWords branches, word ≠ "-") :
    ∀ last ∈ branches.getLast?, last.1.Reading config ∧ last.2.Reading config := by
  rcases branches with _ | ⟨⟨condition, result⟩, branches⟩
  · simp
  · simp only [guardLabels, List.forall_mem_append] at h
    have hc := Expr.reading config condition h.1
    have hr := Expr.reading config result h.2.1
    have rest := guards_reading config branches h.2.2
    cases branches with
    | nil =>
      simp only [guardWords, List.isEmpty_nil, if_true, List.forall_mem_append] at hw
      simpa using ⟨hc hw.1, hr hw.2⟩
    | cons next branches =>
      rw [List.getLast?_cons_cons]
      exact rest hw
termination_by structural branches
theorem branches_reading (config : Config) (branches : List (Pattern V × Expr A Empty V (TypeExpr V)))
    (h : ∀ label ∈ branchLabels branches, Legible label) (hw : ∀ word ∈ branchWords branches, word ≠ "-") :
    ∀ last ∈ branches.getLast?, (last.1.doc .whole).Always Inked ∧ (last.1.doc .whole).Unsigned ∧
      last.2.Reading config := by
  rcases branches with _ | ⟨⟨pattern, result⟩, branches⟩
  · simp
  · simp only [branchLabels, List.forall_mem_append] at h
    have hp := pattern.doc_unsigned h.1
    have hr := Expr.reading config result h.2.1
    have rest := branches_reading config branches h.2.2
    cases branches with
    | nil =>
      simp only [branchWords, List.isEmpty_nil, if_true, List.forall_mem_append] at hw
      simpa using ⟨Pattern.always_inked h.1, hp hw.1, hr hw.2⟩
    | cons next branches =>
      rw [List.getLast?_cons_cons]
      exact rest hw
termination_by structural branches
end

end

end PhaseTree
