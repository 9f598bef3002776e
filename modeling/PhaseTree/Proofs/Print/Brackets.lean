import PhaseTree.Print.Literal
import PhaseTree.Proofs.Layout.Pieces

set_option autoImplicit false

/-!
A scanner for brackets. It skips string and character literals, in which a backslash takes the next
character with it, and it keeps the characters that it meets outside of all brackets and literals.
-/

namespace PhaseTree

def closing? : Char → Option Char
  | '(' => some ')'
  | '[' => some ']'
  | '\x7b' => some '\x7d'
  | _ => none

def closings : List Char := [')', ']', '\x7d']

def quotes : List Char := ['\'', '"']

inductive Region where
  | code
  | quoted (quote : Char)
  | escaped (quote : Char)
  deriving DecidableEq

structure Scan where
  /-- The closing brackets that are still to come, innermost first. -/
  awaited : List Char
  region : Region
  /-- What stands outside of all brackets and literals, with the characters that open them. -/
  outer : List Char
  deriving DecidableEq

namespace Scan

def start : Scan := ⟨[], .code, []⟩

/-- A closing bracket that is not awaited ends the scan. -/
def step (s : Scan) (c : Char) : Option Scan :=
  match s.region with
  | .escaped quote => some { s with region := .quoted quote }
  | .quoted quote =>
    if c = '\\' then some { s with region := .escaped quote }
    else if c = quote then some { s with region := .code }
    else some s
  | .code =>
    let outer := if s.awaited.isEmpty then s.outer ++ [c] else s.outer
    if c ∈ closings then
      if s.awaited.head? = some c then some ⟨s.awaited.tail, .code, outer⟩ else none
    else if c ∈ quotes then some ⟨s.awaited, .quoted c, outer⟩
    else some ⟨(closing? c).toList ++ s.awaited, .code, outer⟩

def run (s : Scan) (cs : List Char) : Option Scan := cs.foldlM step s

theorem run_append (s : Scan) (cs cs' : List Char) :
    s.run (cs ++ cs') = (s.run cs).bind fun s' => s'.run cs' := List.foldlM_append

theorem run_cons (s : Scan) (c : Char) (cs : List Char) :
    s.run (c :: cs) = (s.step c).bind fun s' => s'.run cs := rfl

theorem outer_step {s s' : Scan} {c : Char} (h : s.step c = some s') : s.outer <+: s'.outer := by
  have kept : s.outer <+: if s.awaited.isEmpty then s.outer ++ [c] else s.outer := by
    split_ifs
    · exact List.prefix_append _ _
    · exact List.prefix_refl _
  unfold step at h
  split at h
  · cases h
    exact List.prefix_refl _
  · split_ifs at h <;> cases h <;> exact List.prefix_refl _
  · dsimp only at h
    split at h
    · split at h
      · cases h
        exact kept
      · contradiction
    · split at h <;> cases h <;> exact kept

theorem outer_step_start {before : List Char} {c : Char} {s : Scan}
    (h : (⟨[], .code, before⟩ : Scan).step c = some s) : s.outer = before ++ [c] := by
  simp only [step] at h
  split at h
  · contradiction
  · split at h <;> cases h <;> rfl

theorem outer_run {s s' : Scan} {cs : List Char} (h : s.run cs = some s') : s.outer <+: s'.outer := by
  induction cs generalizing s with
  | nil =>
    cases h
    exact List.prefix_refl _
  | cons c cs ih =>
    rw [run_cons, Option.bind_eq_some_iff] at h
    obtain ⟨middle, hm, hr⟩ := h
    exact (outer_step hm).trans (ih hr)

end Scan

/-- Scanned as code at any depth, the text ends where it began; at depth zero, `outer` is what is kept. -/
def Level (cs outer : List Char) : Prop :=
  ∀ awaited before, Scan.run ⟨awaited, .code, before⟩ cs =
    some ⟨awaited, .code, if awaited.isEmpty then before ++ outer else before⟩

def delimiters : List Char := ['(', '[', '\x7b', ')', ']', '\x7d', '\'', '"']

def Clear (c : Char) : Prop := c ∉ delimiters

instance (c : Char) : Decidable (Clear c) := inferInstanceAs (Decidable (_ ∉ _))

/-- It tries the characters of `cs` only: the set of all characters is finite, and another instance
goes through that. -/
instance (priority := 1100) decidableForallMem {p : Char → Prop} [DecidablePred p] (cs : List Char) :
    Decidable (∀ c ∈ cs, p c) := List.decidableBAll p cs

theorem Clear.apart {c : Char} (h : Clear c) : c ∉ closings ∧ c ∉ quotes ∧ closing? c = none := by
  have hc : closings ⊆ delimiters := by decide
  have hq : quotes ⊆ delimiters := by decide
  have ho : closing? c = none := by
    unfold closing?
    split
    · exact absurd h (by decide)
    · exact absurd h (by decide)
    · exact absurd h (by decide)
    · rfl
  exact ⟨fun hm => h (hc hm), fun hm => h (hq hm), ho⟩

namespace Level

variable {cs cs' outer outer' : List Char}

theorem nil : Level [] [] := by
  intro awaited before
  cases awaited <;> simp [Scan.run]

theorem append (h : Level cs outer) (h' : Level cs' outer') : Level (cs ++ cs') (outer ++ outer') := by
  intro awaited before
  rw [Scan.run_append, h, Option.bind_some, h']
  cases awaited <;> simp

theorem single {c : Char} (h : Clear c) : Level [c] [c] := by
  intro awaited before
  obtain ⟨hc, hq, ho⟩ := h.apart
  simp [Scan.run, Scan.step, hc, hq, ho]

theorem of_clear (h : ∀ c ∈ cs, Clear c) : Level cs cs := by
  induction cs with
  | nil => exact nil
  | cons c cs ih =>
    rw [List.forall_mem_cons] at h
    exact (single h.1).append (ih h.2)

theorem unique (h : Level cs outer) (h' : Level cs outer') : outer = outer' := by
  have hr := h [] []
  rw [h' [] []] at hr
  simpa using hr.symm

theorem eq_of_clear (h : Level cs outer) (hc : ∀ c ∈ outer, Clear c) : cs = outer := by
  have run : ∀ before s, Scan.run ⟨[], .code, before⟩ cs = some s → s.outer = before ++ outer →
      cs = outer := by
    clear h
    induction cs generalizing outer with
    | nil =>
      intro before s hr ho
      cases hr
      simpa using ho
    | cons c cs ih =>
      intro before s hr ho
      rw [Scan.run_cons, Option.bind_eq_some_iff] at hr
      obtain ⟨middle, hm, hr⟩ := hr
      have grown : before ++ [c] <+: before ++ outer := by
        rw [← Scan.outer_step_start hm, ← ho]
        exact Scan.outer_run hr
      obtain ⟨outer', rfl⟩ := (List.prefix_append_right_inj before).1 grown
      rw [List.singleton_append, List.forall_mem_cons] at hc
      have hs : (⟨[], .code, before⟩ : Scan).step c = some ⟨[], .code, before ++ [c]⟩ := by
        obtain ⟨hclosing, hquote, hopening⟩ := hc.1.apart
        simp [Scan.step, hclosing, hquote, hopening]
      rw [hs] at hm
      cases hm
      have rest := ih hc.2 (before ++ [c]) s hr (by simpa using ho)
      rw [rest, List.singleton_append]
  exact run [] _ (h [] []) rfl

theorem enclosed {opening closer : Char} (hp : closing? opening = some closer) (h : Level cs outer) :
    Level (opening :: (cs ++ [closer])) [opening] := by
  have ho : opening ∉ closings ∧ opening ∉ quotes ∧ closer ∈ closings := by
    unfold closing? at hp
    split at hp <;> simp_all <;> subst hp <;> decide
  intro awaited before
  rw [Scan.run_cons, Scan.step]
  simp only [ho.1, ho.2.1, if_false, hp, Option.toList_some, List.singleton_append, Option.bind_some]
  rw [Scan.run_append, h, Option.bind_some, Scan.run_cons, Scan.step]
  simp [ho.2.2, Scan.run]

theorem run_escape (quote c : Char) (awaited before : List Char) :
    Scan.run ⟨awaited, .quoted quote, before⟩ (Quoted.escape quote c) =
      some ⟨awaited, .quoted quote, before⟩ := by
  have special : ∀ e : Char, Scan.run ⟨awaited, .quoted quote, before⟩ ['\\', e] =
      some ⟨awaited, .quoted quote, before⟩ := fun _ => rfl
  unfold Quoted.escape
  split
  · exact special _
  · exact special _
  · exact special _
  · exact special _
  · exact special _
  · split
    case isTrue => exact special _
    case isFalse hs _ _ _ _ hc =>
      have hb : c ≠ '\\' := hs
      simp [Scan.run, Scan.step, hb, hc]

theorem quoted {quote : Char} (hq : quote ∈ quotes) (text : List Char) :
    Level (Quoted.encode quote text) [quote] := by
  have apart : ∀ c ∈ quotes, c ∉ closings ∧ c ≠ '\\' := by decide
  obtain ⟨hc, hb⟩ := apart quote hq
  intro awaited before
  have body : ∀ outer, Scan.run ⟨awaited, .quoted quote, outer⟩ (text.flatMap (Quoted.escape quote)) =
      some ⟨awaited, .quoted quote, outer⟩ := by
    intro outer
    induction text with
    | nil => rfl
    | cons c text ih => rw [List.flatMap_cons, Scan.run_append, run_escape, Option.bind_some, ih]
  rw [Quoted.encode, List.cons_append, Scan.run_cons, Scan.step]
  simp only [hc, hq, if_true, if_false, Option.bind_some]
  rw [Scan.run_append, body, Option.bind_some]
  simp [Scan.run, Scan.step, hb]

end Level

def Blankless (cs : List Char) : Prop := ' ' ∉ cs ∧ '\n' ∉ cs

instance (cs : List Char) : Decidable (Blankless cs) := inferInstanceAs (Decidable (_ ∧ _))

theorem Blankless.append {cs cs' : List Char} (h : Blankless cs) (h' : Blankless cs') :
    Blankless (cs ++ cs') := by
  simp [Blankless, h.1, h.2, h'.1, h'.2]

namespace Doc

variable {P Q R : List Char → Prop} {doc first second body : Doc}

/-- Wherever the document stands, scanning what it adds ends at the depth where it began, and what it adds
outside of brackets and literals has the property. -/
def Spans (P : List Char → Prop) (doc : Doc) : Prop := doc.Always fun cs => ∃ outer, Level cs outer ∧ P outer

theorem Spans.mono (h : doc.Spans P) (hq : ∀ outer, P outer → Q outer) : doc.Spans Q :=
  Always.mono h fun _ ⟨outer, hl, hp⟩ => ⟨outer, hl, hq outer hp⟩

theorem spans_empty (h : P []) : empty.Spans P := fun _ _ => ⟨[], Level.nil, h⟩

theorem spans_text {s : String} {outer : List Char} (h : Level s.toList outer) (hp : P outer) :
    (text s).Spans P :=
  always_text ⟨outer, h, hp⟩

theorem Spans.append (hf : first.Spans P) (hs : second.Spans Q)
    (hr : ∀ outer outer', P outer → Q outer' → R (outer ++ outer')) : (first ++ second).Spans R :=
  Always.append hf hs fun _ _ ⟨outer, hl, hp⟩ ⟨outer', hl', hq⟩ =>
    ⟨outer ++ outer', hl.append hl', hr outer outer' hp hq⟩

theorem spans_newline (indent : Nat) (h : ∀ width, P ('\n' :: List.replicate width ' ')) :
    (newline indent).Spans P := by
  refine always_newline indent fun width => ⟨_, Level.of_clear ?_, h width⟩
  intro c hc
  rcases List.mem_cons.1 hc with rfl | hc
  · decide
  · rw [List.eq_of_mem_replicate hc]
    decide

theorem Spans.align (h : body.Spans P) : (align body).Spans P := Always.align h

theorem Spans.between {opening closing : String} {opener closer : Char} (ho : opening.toList = [opener])
    (hc : closing.toList = [closer]) (hp : closing? opener = some closer) (h : body.Spans P)
    (hq : Q [opener]) : (between opening closing body).Spans Q := by
  intro anchor column
  obtain ⟨middle, hf⟩ := piece_append (text opening) (body ++ text closing) anchor column
  obtain ⟨last, hs⟩ := piece_append body (text closing) anchor middle
  obtain ⟨outer, hl, -⟩ := h anchor middle
  refine ⟨[opener], ?_, hq⟩
  rw [Doc.between, hf, hs, piece_text, piece_text, ho, hc]
  exact hl.enclosed hp

theorem Spans.parens (h : body.Spans P) (hq : Q ['(']) : body.parens.Spans Q :=
  h.between (by decide) (by decide) rfl hq

theorem Spans.brackets (h : body.Spans P) (hq : Q ['[']) : body.brackets.Spans Q :=
  h.between (by decide) (by decide) rfl hq

theorem Spans.braces (h : body.Spans P) (hq : Q ['\x7b']) : body.braces.Spans Q :=
  h.between (by decide) (by decide) rfl hq

def Balanced (doc : Doc) : Prop := doc.Spans fun _ => True

/-- All spaces and line breaks are inside of brackets or literals. What is outside is `w` wherever the
document stands. -/
structure Atom (w : List Char) (doc : Doc) : Prop where
  spans : doc.Spans (· = w)
  blankless : Blankless w

def Solid (doc : Doc) : Prop := ∃ w, doc.Atom w

theorem Solid.balanced (h : doc.Solid) : doc.Balanced := by
  obtain ⟨w, ha⟩ := h
  exact ha.spans.mono fun _ _ => trivial

theorem balanced_empty : empty.Balanced := spans_empty trivial

theorem balanced_text {s : String} (h : ∀ c ∈ s.toList, Clear c) : (text s).Balanced :=
  spans_text (Level.of_clear h) trivial

theorem solid_text {s : String} (h : ∀ c ∈ s.toList, Clear c) (hs : Blankless s.toList) :
    (text s).Solid :=
  ⟨s.toList, spans_text (Level.of_clear h) rfl, hs⟩

theorem balanced_newline (indent : Nat) : (newline indent).Balanced :=
  spans_newline indent fun _ => trivial

theorem Balanced.append (hf : first.Balanced) (hs : second.Balanced) : (first ++ second).Balanced :=
  Spans.append hf hs fun _ _ _ _ => trivial

theorem Balanced.join {separator : String} (hf : first.Balanced) (h : ∀ c ∈ separator.toList, Clear c)
    (hs : second.Balanced) : (first ++ (text separator ++ second)).Balanced :=
  hf.append ((balanced_text h).append hs)

theorem Atom.append {w w' : List Char} (h : first.Atom w) (h' : second.Atom w') :
    (first ++ second).Atom (w ++ w') where
  spans := Spans.append h.spans h'.spans fun outer outer' ho ho' => by rw [ho, ho']
  blankless := h.blankless.append h'.blankless

theorem Solid.append (hf : first.Solid) (hs : second.Solid) : (first ++ second).Solid := by
  obtain ⟨w, ha⟩ := hf
  obtain ⟨w', ha'⟩ := hs
  exact ⟨w ++ w', ha.append ha'⟩

theorem solid_empty : empty.Solid := ⟨[], spans_empty rfl, by decide⟩

theorem Balanced.align (h : body.Balanced) : (Doc.align body).Balanced := Spans.align h

theorem Balanced.parens (h : body.Balanced) : body.parens.Solid :=
  ⟨['('], Spans.parens h rfl, by decide⟩

theorem Balanced.brackets (h : body.Balanced) : body.brackets.Solid :=
  ⟨['['], Spans.brackets h rfl, by decide⟩

theorem Balanced.braces (h : body.Balanced) : body.braces.Solid :=
  ⟨['\x7b'], Spans.braces h rfl, by decide⟩

theorem balanced_concat {docs : List Doc} (h : ∀ doc ∈ docs, doc.Balanced) : (concat docs).Balanced := by
  induction docs with
  | nil => exact balanced_empty
  | cons doc docs ih =>
    rw [List.forall_mem_cons] at h
    exact h.1.append (ih h.2)

theorem balanced_separated {separator : String} (hs : ∀ c ∈ separator.toList, Clear c) {docs : List Doc}
    (h : ∀ doc ∈ docs, doc.Balanced) : (separated separator docs).Balanced :=
  separated_closed balanced_empty (fun _ _ => Balanced.append) (balanced_text hs) h

theorem balanced_applied {head : Doc} {args : List Doc} (hh : head.Balanced)
    (h : ∀ arg ∈ args, arg.Balanced) : (applied head args).Balanced := by
  have space : (text " ").Balanced := balanced_text (by decide)
  exact hh.append (balanced_concat (List.forall_mem_map.2 fun arg hm => space.append (h arg hm)))

def Fits (placement : Placement) (doc : Doc) : Prop :=
  match placement with
  | .operand => doc.Solid
  | _ => doc.Balanced

theorem Fits.balanced {placement : Placement} (h : doc.Fits placement) : doc.Balanced := by
  cases placement with
  | operand => exact Solid.balanced h
  | whole | continuing => exact h

theorem Solid.fits (h : doc.Solid) (placement : Placement) : doc.Fits placement := by
  cases placement with
  | operand => exact h
  | whole | continuing => exact h.balanced

theorem Balanced.wrap (h : doc.Balanced) (placement : Placement) : (placement.wrap doc).Fits placement := by
  cases placement with
  | operand => exact h.parens
  | whole | continuing => exact h

theorem Balanced.wrapIf (h : doc.Balanced) {compound : Bool} (hs : compound = false → doc.Solid)
    (placement : Placement) : (placement.wrapIf compound doc).Fits placement := by
  cases compound with
  | true => exact h.wrap placement
  | false => exact (hs rfl).fits placement

theorem Solid.applied {head : Doc} {args : List Doc} (hh : head.Solid) (ha : ∀ arg ∈ args, arg.Solid)
    {compound : Bool} (hn : compound = false → args = []) (placement : Placement) :
    (placement.wrapIf compound (applied head args)).Fits placement := by
  apply Balanced.wrapIf
  · exact balanced_applied hh.balanced fun arg hm => (ha arg hm).balanced
  · intro hc
    rw [hn hc]
    exact hh.append solid_empty

end Doc

end PhaseTree
