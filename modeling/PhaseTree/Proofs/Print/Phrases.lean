import PhaseTree.Proofs.Layout.Sections
import PhaseTree.Proofs.Print.Brackets

set_option autoImplicit false

/-!
Where a minus can stand in a text, between spaces and outside of brackets and literals. In an expression the
form around it goes on behind the minus and one more word, or else everything ends there; and what stands
on a line of a form of several lines has another line of that form below it.
-/

namespace PhaseTree

variable {P Q : List Char → Prop} {cs cs' before behind outer word word' : List Char} {c : Char}

/-- A text behind which a scanner is outside of brackets and literals again. -/
def Outside (cs : List Char) : Prop :=
  ∃ before outer, Scan.run ⟨[], .code, before⟩ cs = some ⟨[], .code, outer⟩

theorem Level.outside (h : Level cs outer) : Outside cs := ⟨[], outer, h [] []⟩

theorem Outside.of_append (h : Outside (cs ++ cs')) (hl : Level cs outer) : Outside cs' := by
  obtain ⟨before, shown, hr⟩ := h
  rw [Scan.run_append, hl, Option.bind_some] at hr
  exact ⟨_, shown, hr⟩

theorem Level.mem_outer (h : Level (cs ++ c :: cs') outer) (ho : Outside cs) : c ∈ outer := by
  obtain ⟨before, shown, hr⟩ := ho
  have whole := h [] before
  rw [Scan.run_append, hr, Option.bind_some, Scan.run_cons, Option.bind_eq_some_iff] at whole
  obtain ⟨next, hs, hn⟩ := whole
  obtain ⟨first, rfl⟩ := Scan.outer_run hr
  have grown : before ++ first ++ [c] <+: before ++ outer := by
    rw [← Scan.outer_step_start hs]
    exact Scan.outer_run hn
  rw [List.append_assoc, List.prefix_append_right_inj] at grown
  exact grown.subset (by simp)

/-- All blanks are inside of brackets or literals. -/
def Undivided (cs : List Char) : Prop := ∃ outer, Level cs outer ∧ Blankless outer

namespace Undivided

theorem not_blank (h : Undivided (cs ++ c :: cs')) (ho : Outside cs) : c ≠ ' ' ∧ c ≠ '\n' := by
  obtain ⟨outer, hl, hb⟩ := h
  have hm := hl.mem_outer ho
  exact ⟨fun e => hb.1 (e ▸ hm), fun e => hb.2 (e ▸ hm)⟩

theorem outside (h : Undivided cs) : Outside cs := by
  obtain ⟨outer, hl, -⟩ := h
  exact hl.outside

theorem split_unique {rest rest' : List Char} {c' : Char} (h : Undivided word) (h' : Undivided word')
    (hc : c = ' ' ∨ c = '\n') (hc' : c' = ' ' ∨ c' = '\n')
    (e : word ++ c :: rest = word' ++ c' :: rest') : word = word' ∧ c :: rest = c' :: rest' := by
  obtain ⟨middle, hw, hm⟩ | ⟨middle, hw, hm⟩ := List.append_eq_append_iff.1 e
  all_goals rcases middle with _ | ⟨next, middle⟩
  · rw [List.append_nil] at hw
    exact ⟨hw.symm, hm⟩
  · obtain ⟨rfl, -⟩ := List.cons.inj hm
    subst hw
    have hn := h'.not_blank h.outside
    exact absurd hc (by simp [hn.1, hn.2])
  · rw [List.append_nil] at hw
    exact ⟨hw, hm.symm⟩
  · obtain ⟨rfl, -⟩ := List.cons.inj hm
    subst hw
    have hn := h.not_blank h'.outside
    exact absurd hc' (by simp [hn.1, hn.2])

end Undivided

/-- A minus between spaces, with what stands in front of it and behind it. The text may begin or end at the
minus. -/
structure Minus (before behind cs : List Char) : Prop where
  split : cs = before ++ '-' :: behind
  opened : before = [] ∨ ∃ front, before = front ++ [' '] ∧ Outside front
  closed : ∀ c ∈ behind.head?, c = ' '

namespace Minus

theorem append (h : Minus before behind (cs ++ cs')) (hl : Level cs outer) :
    (∃ middle, behind = middle ++ cs' ∧ Minus before middle cs) ∨
      ∃ middle, before = cs ++ middle ∧ Minus middle behind cs' := by
  have later {middle : List Char} (hb : before = cs ++ middle) (hc : cs' = middle ++ '-' :: behind) :
      Minus middle behind cs' := by
    refine ⟨hc, ?_, h.closed⟩
    rcases middle.eq_nil_or_concat' with rfl | ⟨front, last, rfl⟩
    · exact .inl rfl
    · obtain hn | ⟨front', hf, ho⟩ := h.opened
      · simp [hb] at hn
      · rw [hb, ← List.append_assoc] at hf
        obtain ⟨rfl, hlast⟩ := List.append_inj' hf rfl
        exact .inr ⟨front, by rw [hlast], ho.of_append hl⟩
  obtain ⟨middle, hb, hm⟩ | ⟨middle, hc, hm⟩ := List.append_eq_append_iff.1 h.split
  · exact .inr ⟨middle, hb, later hb hm⟩
  · rcases middle with _ | ⟨minus, middle⟩
    · rw [List.append_nil] at hc
      exact .inr ⟨[], by rw [hc, List.append_nil], later (by rw [hc, List.append_nil]) hm.symm⟩
    · obtain ⟨rfl, rfl⟩ := List.cons.inj hm
      refine .inl ⟨middle, rfl, hc, h.opened, fun c hm => h.closed c ?_⟩
      cases middle with
      | nil => contradiction
      | cons next middle => exact hm

theorem eq_of_undivided (h : Minus before behind cs) (hu : Undivided cs) : cs = ['-'] := by
  obtain ⟨split, opened, closed⟩ := h
  subst split
  obtain rfl | ⟨front, rfl, ho⟩ := opened
  · cases behind with
    | nil => rfl
    | cons c behind =>
      have dash : Level ['-'] ['-'] := Level.of_clear (by decide)
      have split : Undivided (['-'] ++ c :: behind) := hu
      exact absurd (closed c rfl) (split.not_blank dash.outside).1
  · rw [List.append_assoc] at hu
    exact absurd rfl (hu.not_blank ho).1

end Minus

structure Unsigned (cs : List Char) : Prop where
  level : ∃ outer, Level cs outer
  minus : ∀ before behind, ¬Minus before behind cs

theorem Undivided.unsigned (h : Undivided cs) (hne : cs ≠ ['-']) : Unsigned cs where
  level := by
    obtain ⟨outer, hl, -⟩ := h
    exact ⟨outer, hl⟩
  minus := fun _ _ hm => hne (hm.eq_of_undivided h)

theorem Unsigned.append (h : Unsigned cs) (h' : Unsigned cs') : Unsigned (cs ++ cs') := by
  obtain ⟨outer, hl⟩ := h.level
  obtain ⟨outer', hl'⟩ := h'.level
  refine ⟨⟨_, hl.append hl'⟩, fun before behind hm => ?_⟩
  obtain ⟨middle, -, hm⟩ | ⟨middle, -, hm⟩ := hm.append hl
  · exact h.minus _ _ hm
  · exact h'.minus _ _ hm

theorem unsigned_of_notMem (h : ∀ c ∈ cs, Clear c) (hm : '-' ∉ cs) : Unsigned cs where
  level := ⟨cs, Level.of_clear h⟩
  minus := fun _ _ minus => hm (minus.split ▸ by simp)

/-- The form around an expression goes on behind it, not with a bar on the same line. -/
def Continued (cs : List Char) : Prop :=
  (∃ rest, cs = '\n' :: rest) ∨ ∃ c rest, cs = ' ' :: c :: rest ∧ c ≠ '|'

theorem Continued.append (h : Continued cs) (cs' : List Char) : Continued (cs ++ cs') := by
  obtain ⟨rest, rfl⟩ | ⟨c, rest, rfl, hc⟩ := h
  · exact .inl ⟨rest ++ cs', rfl⟩
  · exact .inr ⟨c, rest ++ cs', rfl, hc⟩

/-- Behind a minus, the form around it goes on after one word, or later on with a line that begins no deeper
than where the minus stands. -/
def Interior (before behind : List Char) : Prop :=
  (∃ word rest, behind = ' ' :: (word ++ rest) ∧ Undivided word ∧ Continued rest) ∨
    Recedes (lastLine before).length behind

namespace Interior

theorem append (h : Interior before behind) (cs : List Char) : Interior before (behind ++ cs) := by
  obtain ⟨word, rest, rfl, hw, hr⟩ | hr := h
  · exact .inl ⟨word, rest ++ cs, by simp, hw, hr.append cs⟩
  · exact .inr (hr.append cs)

theorem further (h : Interior before behind) (cs : List Char) : Interior (cs ++ before) behind :=
  h.imp id fun hr => hr.mono (lastLine_suffix cs before).length_le

theorem not_bar {old after : List Char} (h : Interior before (' ' :: (old ++ ' ' :: '|' :: after)))
    (ho : Undivided old) : Recedes (lastLine before).length (' ' :: (old ++ ' ' :: '|' :: after)) := by
  obtain ⟨word, rest, e, hw, ⟨rest, rfl⟩ | ⟨c, rest, rfl, hc⟩⟩ | hr := h
  · obtain ⟨-, e⟩ := ho.split_unique hw (.inl rfl) (.inr rfl) (List.cons.inj e).2
    exact absurd (List.cons.inj e).1 (by decide)
  · obtain ⟨-, e⟩ := ho.split_unique hw (.inl rfl) (.inl rfl) (List.cons.inj e).2
    simp only [List.cons.injEq, true_and] at e
    exact absurd e.1.symm hc
  · exact hr

end Interior

/-- The text of a complete expression. If it ends with a minus and one more word, the word has the
property. -/
structure Phrase (P : List Char → Prop) (cs : List Char) : Prop where
  level : ∃ outer, Level cs outer
  minus : ∀ before behind, Minus before behind cs →
    Interior before behind ∨ ∃ word, behind = ' ' :: word ∧ Undivided word ∧ P word

theorem Unsigned.phrase (h : Unsigned cs) : Phrase P cs :=
  ⟨h.level, fun before behind hm => absurd hm (h.minus before behind)⟩

namespace Phrase

theorem mono (h : Phrase P cs) (hq : ∀ word, P word → Q word) : Phrase Q cs := by
  refine ⟨h.level, fun before behind hm => (h.minus before behind hm).imp id ?_⟩
  rintro ⟨word, rfl, hw, hp⟩
  exact ⟨word, rfl, hw, hq word hp⟩

theorem append (h : Phrase P cs') (hl : ∃ outer, Level cs outer)
    (hi : ∀ before behind, Minus before behind cs → Interior before (behind ++ cs')) :
    Phrase P (cs ++ cs') := by
  obtain ⟨outer, hl⟩ := hl
  obtain ⟨outer', hl'⟩ := h.level
  refine ⟨⟨_, hl.append hl'⟩, fun before behind hm => ?_⟩
  obtain ⟨middle, rfl, hf⟩ | ⟨middle, rfl, hs⟩ := hm.append hl
  · exact .inl (hi before middle hf)
  · exact (h.minus middle behind hs).imp (fun hi => hi.further cs) id

theorem continued (h : Phrase P cs) (h' : Phrase Q cs') (hc : Continued cs') : Phrase Q (cs ++ cs') := by
  refine h'.append h.level fun before behind hm => ?_
  obtain hi | ⟨word, rfl, hw, -⟩ := h.minus before behind hm
  · exact hi.append cs'
  · exact .inl ⟨word, cs', rfl, hw, hc⟩

end Phrase

theorem Unsigned.then (h : Unsigned cs) (h' : Phrase P cs') : Phrase P (cs ++ cs') :=
  h'.append h.level fun before behind hm => absurd hm (h.minus before behind)

structure Block (depth : Nat) (cs : List Char) : Prop where
  level : ∃ outer, Level cs outer
  indented : Indented depth cs
  broken : ∀ c ∈ cs.head?, c = '\n'

theorem Block.append {depth : Nat} (h : Block depth cs) (h' : Block depth cs') : Block depth (cs ++ cs') := by
  obtain ⟨outer, hl⟩ := h.level
  obtain ⟨outer', hl'⟩ := h'.level
  refine ⟨⟨_, hl.append hl'⟩, h.indented.append h'.indented, ?_⟩
  cases cs with
  | nil => exact h'.broken
  | cons c cs => exact h.broken

theorem unsigned_lineStart (width : Nat) : Unsigned ('\n' :: List.replicate width ' ') := by
  apply unsigned_of_notMem
  · rw [List.forall_mem_cons]
    refine ⟨by decide, fun c hc => ?_⟩
    rw [List.eq_of_mem_replicate hc]
    decide
  · simp

theorem Undivided.subtracted (h : Undivided word) (hne : word ≠ ['-']) (hp : P word) :
    Phrase P (' ' :: '-' :: ' ' :: word) := by
  have dash : Level [' ', '-', ' '] [' ', '-', ' '] := Level.of_clear (by decide)
  have unsigned := h.unsigned hne
  obtain ⟨outer, hl⟩ := unsigned.level
  refine ⟨⟨_, dash.append hl⟩, fun before behind hm => .inr ?_⟩
  have hm : Minus before behind ([' ', '-', ' '] ++ word) := hm
  obtain ⟨middle, rfl, hf⟩ | ⟨middle, -, hs⟩ := hm.append dash
  · have split := hf.split
    rcases before with _ | ⟨_, _ | ⟨_, _ | ⟨_, before⟩⟩⟩ <;> simp at split
    rw [← split.2]
    exact ⟨word, rfl, h, hp⟩
  · exact absurd hs (unsigned.minus _ _)

theorem Phrase.below {depth indent : Nat} (hb : Block depth cs) (hle : indent ≤ depth) (hi : Inked cs')
    (h : Phrase P cs') : Phrase P (cs ++ '\n' :: (List.replicate indent ' ' ++ cs')) := by
  refine ((unsigned_lineStart indent).then h).append hb.level fun before behind hm => .inr ?_
  have started : '\n' ∈ before := by
    have broken := hb.broken
    rw [hm.split] at broken
    cases before with
    | nil => exact absurd (broken '-' rfl) (by decide)
    | cons c before => exact broken c rfl ▸ List.mem_cons_self
  have deep := (hm.split ▸ hb.indented).le_lastLine (by decide) started
  exact ⟨behind, indent, cs', rfl, hi, Nat.le_trans hle deep⟩

/-- A minus, one word and a bar: unless a line returns behind it, that can only be where the first
expression ends. -/
theorem Phrase.split {old after rest : List Char} (h : Phrase P cs) (h' : Phrase Q (' ' :: rest))
    (ho : Undivided old) (hm : Minus before (' ' :: (old ++ ' ' :: '|' :: after)) (cs ++ ' ' :: rest))
    (hr : ¬Recedes (lastLine before).length (' ' :: (old ++ ' ' :: '|' :: after))) : P old := by
  obtain ⟨outer, hl⟩ := h.level
  obtain ⟨middle, e, hf⟩ | ⟨middle, rfl, hs⟩ := hm.append hl
  · obtain hi | ⟨word, rfl, hw, hp⟩ := h.minus before middle hf
    · exact absurd ((e ▸ hi.append _).not_bar ho) hr
    · obtain ⟨rfl, -⟩ := ho.split_unique hw (.inl rfl) (.inl rfl) (List.cons.inj e).2
      exact hp
  · obtain hi | ⟨word, e, hw, -⟩ := h'.minus middle _ hs
    · exact absurd ((hi.further cs).not_bar ho) hr
    · cases e
      exact absurd rfl (hw.not_blank ho.outside).1

namespace Doc

variable {first second body : Doc} {docs : List Doc}

def Unsigned (doc : Doc) : Prop := doc.Always PhaseTree.Unsigned

def Phrase (P : List Char → Prop) (doc : Doc) : Prop := doc.Always (PhaseTree.Phrase P)

theorem Unsigned.append (h : first.Unsigned) (h' : second.Unsigned) : (first ++ second).Unsigned :=
  Always.append h h' fun _ _ => PhaseTree.Unsigned.append

theorem Unsigned.phrase (h : first.Unsigned) : first.Phrase P := h.mono fun _ => PhaseTree.Unsigned.phrase

theorem Phrase.mono (h : first.Phrase P) (hq : ∀ word, P word → Q word) : first.Phrase Q :=
  Always.mono h fun _ hp => hp.mono hq

theorem Phrase.align (h : body.Phrase P) : (Doc.align body).Phrase P := Always.align h

theorem Unsigned.then (h : first.Unsigned) (h' : second.Phrase P) : (first ++ second).Phrase P :=
  Always.append h h' fun _ _ => PhaseTree.Unsigned.then

theorem Phrase.then (h : first.Phrase P) (h' : second.Phrase Q) (hc : second.Always Continued) :
    (first ++ second).Phrase Q := by
  have both : second.Always fun cs => PhaseTree.Phrase Q cs ∧ Continued cs :=
    fun anchor column => ⟨h' anchor column, hc anchor column⟩
  exact Always.append h both fun _ _ hp hq => hp.continued hq.1 hq.2

theorem unsigned_text {s : String} (h : ∀ c ∈ s.toList, Clear c) (hm : '-' ∉ s.toList) :
    (text s).Unsigned := always_text (unsigned_of_notMem h hm)

theorem unsigned_space : (text " ").Unsigned := unsigned_text (by decide) (by decide)

theorem unsigned_arrow : (text " -> ").Unsigned := by
  have space : PhaseTree.Unsigned [' '] := unsigned_of_notMem (by decide) (by decide)
  have head : Undivided ['-', '>'] := ⟨_, Level.of_clear (by decide), by decide⟩
  exact always_text ((space.append (head.unsigned (by decide))).append space)

theorem continued_text {s : String} (body : Doc) (h : s.toList.head? = some ' ')
    (h' : ∃ c ∈ s.toList[1]?, c ≠ '|') : (text s ++ body).Always Continued := by
  intro anchor column
  obtain ⟨c, hc, hne⟩ := h'
  obtain ⟨rest, hs⟩ := List.head?_eq_some_iff.1 h
  rw [piece_append_stop, piece_text, hs]
  cases rest with
  | nil => simp [hs] at hc
  | cons next rest =>
    have hn : next = c := by simpa [hs] using hc
    exact .inr ⟨next, _, rfl, hn ▸ hne⟩

theorem Unsigned.concat (h : ∀ doc ∈ docs, doc.Unsigned) : (concat docs).Unsigned := by
  induction docs with
  | nil => exact always_empty (unsigned_of_notMem (by simp) (by simp))
  | cons doc docs ih =>
    rw [List.forall_mem_cons] at h
    exact h.1.append (ih h.2)

theorem always_concat_append (doc : Doc) :
    (concat (docs ++ [doc])).Always P ↔ (concat docs ++ doc).Always P := by
  have same : ∀ anchor column, (concat (docs ++ [doc])).piece anchor column =
      (concat docs ++ doc).piece anchor column := by
    intro anchor column
    induction docs generalizing column with
    | nil => rfl
    | cons first docs ih =>
      have hp := piece_append_stop first (concat (docs ++ [doc])) anchor column
      rw [ih] at hp
      exact hp.trans (piece_append_stop first (concat docs ++ doc) anchor column).symm
  simp only [Always, same]

theorem block_lines {offset : Nat} (h : ∀ doc ∈ docs, doc.Movable ∧ doc.Balanced) (anchor column : Nat) :
    Block (anchor + offset) ((Doc.concat (docs.map fun doc => newline offset ++ doc)).piece anchor column) := by
  induction docs generalizing column with
  | nil => exact ⟨⟨[], Level.nil⟩, trivial, by simp [Doc.concat, piece, render, Canvas.text, Sink.empty]⟩
  | cons doc docs ih =>
    rw [List.forall_mem_cons] at h
    obtain ⟨⟨movable, balanced⟩, h⟩ := h
    have line : Block (anchor + offset) ((newline offset ++ doc).piece anchor column) := by
      obtain ⟨outer, hl, -⟩ := (balanced_newline offset).append balanced anchor column
      refine ⟨⟨outer, hl⟩, ?_, ?_⟩
      · rw [piece_append_stop, piece_newline]
        exact (Indented.lineStart (Nat.le_refl _)).append (movable.rightOf (Nat.le_refl _) anchor).indented
      · simp [piece_line]
    have rest := ih h ((newline offset ++ doc).stop anchor column)
    have whole := piece_append_stop (newline offset ++ doc)
      (Doc.concat (docs.map fun doc => newline offset ++ doc)) anchor column
    exact whole ▸ line.append rest

theorem Phrase.below {offset indent : Nat} (h : second.Phrase P) (hi : second.Always Inked)
    (hd : ∀ doc ∈ docs, doc.Movable ∧ doc.Balanced) (hle : indent ≤ offset) :
    (Doc.concat (docs.map fun doc => newline offset ++ doc) ++ (newline indent ++ second)).Phrase P := by
  intro anchor column
  rw [piece_append_stop, piece_line]
  exact PhaseTree.Phrase.below (block_lines hd anchor column) (Nat.add_le_add_left hle anchor)
    (hi anchor _) (h anchor _)

theorem Phrase.lines (h : second.Phrase P) (hi : second.Always Inked)
    (hd : ∀ doc ∈ docs, doc.Movable ∧ doc.Balanced) (offset : Nat) :
    (Doc.concat ((docs ++ [second]).map fun doc => newline offset ++ doc)).Phrase P := by
  rw [List.map_append]
  exact (always_concat_append _).2 (h.below hi hd (Nat.le_refl offset))

def IsWord (doc : Doc) : Prop := ∃ w, doc.Atom w ∧ w ≠ [] ∧ w ≠ ['-']

def Worded (doc : Doc) : Prop := doc.Always fun cs => cs ≠ [] ∧ cs ≠ ['-']

theorem worded_text {s : String} (hne : s ≠ "") (hm : s ≠ "-") : (text s).Worded := by
  apply always_text
  have minus : "-".toList = ['-'] := by decide
  exact ⟨fun e => hne (String.toList_eq_nil_iff.1 e), fun e => hm (String.toList_injective (e.trans minus.symm))⟩

theorem worded_append {s : String} (hne : s.toList ≠ []) (hs : s.toList.head? ≠ some '-') (body : Doc) :
    (text s ++ body).Worded := by
  intro anchor column
  obtain ⟨middle, h⟩ := piece_append (text s) body anchor column
  obtain ⟨c, cs, hc⟩ := List.exists_cons_of_ne_nil hne
  have hm : c ≠ '-' := by simpa [hc] using hs
  rw [h, piece_text, hc]
  simp [hm]

theorem worded_parens (body : Doc) : body.parens.Worded := worded_append (by decide) (by decide) _

theorem worded_brackets (body : Doc) : body.brackets.Worded := worded_append (by decide) (by decide) _

theorem worded_braces (body : Doc) : body.braces.Worded := worded_append (by decide) (by decide) _

theorem Worded.applied_nil (h : first.Worded) : (applied first []).Worded := by
  have nothing : empty.Always (· = []) := always_empty rfl
  exact Always.append h nothing fun cs cs' hcs hcs' => by
    rw [hcs', List.append_nil]
    exact hcs

theorem worded_dot (before after : Doc) : (before ++ (text "." ++ after)).Worded := by
  intro anchor column
  obtain ⟨middle, h⟩ := piece_append before (text "." ++ after) anchor column
  obtain ⟨last, h'⟩ := piece_append (text ".") after anchor middle
  have dot : ".".toList = ['.'] := by decide
  rw [h, h', piece_text, dot]
  constructor
  · simp
  · intro e
    have hm : '.' ∈ ['-'] := e ▸ by simp
    exact absurd hm (by decide)

theorem Solid.isWord (h : first.Solid) (hw : first.Worded) : first.IsWord := by
  obtain ⟨w, ha⟩ := h
  obtain ⟨outer, hl, rfl⟩ := ha.spans 0 0
  refine ⟨outer, ha, fun e => ?_, fun e => ?_⟩
  · subst e
    exact (hw 0 0).1 (hl.eq_of_clear (by simp))
  · subst e
    exact (hw 0 0).2 (hl.eq_of_clear (by decide))

theorem IsWord.solid (h : first.IsWord) : first.Solid := by
  obtain ⟨w, ha, -⟩ := h
  exact ⟨w, ha⟩

theorem IsWord.undivided (h : first.IsWord) : first.Always fun cs => Undivided cs ∧ cs ≠ ['-'] := by
  intro anchor column
  obtain ⟨w, ha, -, hm⟩ := h
  obtain ⟨outer, hl, rfl⟩ := ha.spans anchor column
  refine ⟨⟨outer, hl, ha.blankless⟩, fun e => hm ?_⟩
  have dash : Level ['-'] ['-'] := Level.of_clear (by decide)
  exact (e ▸ hl).unique dash

theorem IsWord.unsigned (h : first.IsWord) : first.Unsigned :=
  h.undivided.mono fun _ hu => hu.1.unsigned hu.2

theorem Unsigned.applied {args : List Doc} (h : first.Unsigned) (ha : ∀ arg ∈ args, arg.IsWord) :
    (applied first args).Unsigned := by
  have spaced : ∀ arg ∈ args, (text " " ++ arg).Unsigned :=
    fun arg hm => unsigned_space.append (ha arg hm).unsigned
  exact h.append (Unsigned.concat (List.forall_mem_map.2 spaced))

theorem IsWord.subtracted {operator : Doc} (ho : operator.Atom ['-']) (h : first.IsWord)
    (hp : first.Always P) : (between " " " " operator ++ first).Phrase P := by
  intro anchor column
  obtain ⟨middle, hb⟩ := piece_append (between " " " " operator) first anchor column
  obtain ⟨outer, hl, rfl⟩ := ho.spans anchor (column + 1)
  have dash := hl.eq_of_clear (by decide)
  have spaced : (between " " " " operator).piece anchor column = [' ', '-', ' '] := by
    rw [between, piece_append_stop, piece_append_stop, piece_text, piece_text]
    change [' '] ++ (operator.piece anchor (column + 1) ++ [' ']) = _
    rw [dash]
    rfl
  rw [hb, spaced]
  exact (h.undivided anchor middle).1.subtracted (h.undivided anchor middle).2 (hp anchor middle)

end Doc

end PhaseTree
