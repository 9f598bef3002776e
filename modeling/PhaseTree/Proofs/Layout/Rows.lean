import Mathlib.Data.List.Forall2

set_option autoImplicit false

namespace PhaseTree

structure Row where
  indent : Nat
  content : List Char
  deriving DecidableEq

def Row.read (line : List Char) : Row := ⟨(line.takeWhile (· = ' ')).length, line.dropWhile (· = ' ')⟩

def laterRows (text : List Char) : List Row := (text.splitOn '\n').tail.map Row.read

def firstLine (text : List Char) : List Char := text.takeWhile (· ≠ '\n')

theorem splitOn_eq_firstLine (text : List Char) :
    text.splitOn '\n' = firstLine text :: (text.splitOn '\n').tail := by
  induction text with
  | nil => rfl
  | cons c cs ih =>
    rw [List.splitOn_cons_eq_if_modifyHead, firstLine]
    by_cases hc : c = '\n'
    · simp [hc]
    · rw [ih]
      simp [hc, firstLine]

theorem laterRows_break (cs : List Char) :
    laterRows ('\n' :: cs) = Row.read (firstLine cs) :: laterRows cs := by
  rw [laterRows, List.splitOn_cons_eq_if_modifyHead, if_pos (by decide), List.tail_cons,
    splitOn_eq_firstLine, List.map_cons]
  rfl

theorem laterRows_append_break (cs cs' : List Char) :
    laterRows (cs ++ '\n' :: cs') = laterRows cs ++ laterRows ('\n' :: cs') := by
  rw [laterRows_break, laterRows, List.splitOn_append_cons_self, List.tail_append_of_ne_nil
    (List.splitOn_ne_nil _ _), List.map_append, splitOn_eq_firstLine cs', List.map_cons]
  rfl

theorem laterRows_append {cs : List Char} (h : '\n' ∉ cs) (cs' : List Char) :
    laterRows (cs ++ cs') = laterRows cs' := by
  induction cs with
  | nil => rfl
  | cons c cs ih =>
    rw [List.mem_cons, not_or] at h
    have hc : (c == '\n') = false := beq_false_of_ne (Ne.symm h.1)
    rw [← ih h.2, List.cons_append, laterRows, List.splitOn_cons_eq_if_modifyHead, hc, laterRows]
    cases List.splitOn '\n' (cs ++ cs') <;> rfl

theorem firstLine_append {cs : List Char} (h : '\n' ∉ cs) (cs' : List Char) :
    firstLine (cs ++ cs') = cs ++ firstLine cs' := by
  have hc : ∀ c ∈ cs, decide (c ≠ '\n') = true := by
    intro c hm
    have hne : c ≠ '\n' := fun e => h (e ▸ hm)
    simpa using hne
  exact List.takeWhile_append_of_pos hc

theorem firstLine_prefix (cs cs' : List Char) : firstLine cs <+: firstLine (cs ++ cs') := by
  induction cs with
  | nil => exact List.nil_prefix
  | cons c cs ih =>
    rw [List.cons_append, firstLine, firstLine, List.takeWhile_cons, List.takeWhile_cons]
    split
    · exact (List.prefix_cons_inj c).2 ih
    · exact List.nil_prefix

def lastLine (text : List Char) : List Char := (firstLine text.reverse).reverse

theorem lastLine_append {cs' : List Char} (h : '\n' ∉ cs') (cs : List Char) :
    lastLine (cs ++ cs') = lastLine cs ++ cs' := by
  have reversed : '\n' ∉ cs'.reverse := by simpa using h
  rw [lastLine, List.reverse_append, firstLine_append reversed, List.reverse_append,
    List.reverse_reverse, lastLine]

theorem lastLine_break {cs' : List Char} (h : '\n' ∉ cs') (cs : List Char) :
    lastLine (cs ++ '\n' :: cs') = cs' := by
  have empty : lastLine (cs ++ ['\n']) = [] := by simp [lastLine, firstLine]
  rw [List.append_cons, lastLine_append h, empty, List.nil_append]

theorem lastLine_suffix (cs cs' : List Char) : lastLine cs' <:+ lastLine (cs ++ cs') := by
  rw [lastLine, lastLine, List.reverse_append, List.reverse_suffix]
  exact firstLine_prefix _ _

/-- The text begins with a visible character. -/
def Inked (cs : List Char) : Prop := ∃ c rest, cs = c :: rest ∧ c ≠ ' ' ∧ c ≠ '\n'

theorem Inked.append {cs : List Char} (h : Inked cs) (cs' : List Char) : Inked (cs ++ cs') := by
  obtain ⟨c, rest, rfl, hs, hn⟩ := h
  exact ⟨c, rest ++ cs', rfl, hs, hn⟩

theorem Inked.read {cs : List Char} (h : Inked cs) (indent : Nat) :
    Row.read (firstLine (List.replicate indent ' ' ++ cs)) = ⟨indent, firstLine cs⟩ := by
  obtain ⟨c, rest, rfl, hs, hn⟩ := h
  have spaces : '\n' ∉ List.replicate indent ' ' := by simp
  have line : firstLine (c :: rest) = c :: firstLine rest := by simp [firstLine, hn]
  have blank : ∀ b ∈ List.replicate indent ' ', decide (b = ' ') = true := by
    intro b hb
    simpa using List.eq_of_mem_replicate hb
  rw [firstLine_append spaces, line, Row.read, List.takeWhile_append_of_pos blank,
    List.dropWhile_append_of_pos blank]
  simp [hs]

theorem le_length_of_spaces {depth : Nat} {cs cs' : List Char} {c : Char} (hc : c ≠ ' ')
    (h : List.replicate depth ' ' <+: cs ++ c :: cs') : depth ≤ cs.length := by
  by_contra hlt
  have same := h.getElem (by simpa using hlt : cs.length < (List.replicate depth ' ').length)
  simp at same
  exact hc same.symm

/-- Behind each line break stand at least `depth` spaces. -/
def Indented (depth : Nat) : List Char → Prop
  | [] => True
  | c :: cs => (c = '\n' → List.replicate depth ' ' <+: cs) ∧ Indented depth cs

namespace Indented

variable {depth : Nat} {cs cs' : List Char}

theorem append (h : Indented depth cs) (h' : Indented depth cs') : Indented depth (cs ++ cs') := by
  induction cs with
  | nil => exact h'
  | cons c cs ih => exact ⟨fun hc => (h.1 hc).trans (List.prefix_append cs cs'), ih h.2⟩

theorem of_unbroken (depth : Nat) (h : '\n' ∉ cs) : Indented depth cs := by
  induction cs with
  | nil => trivial
  | cons c cs ih =>
    rw [List.mem_cons, not_or] at h
    exact ⟨fun hc => absurd hc.symm h.1, ih h.2⟩

theorem lineStart {indent : Nat} (h : depth ≤ indent) :
    Indented depth ('\n' :: List.replicate indent ' ') := by
  refine ⟨fun _ => ?_, of_unbroken depth (by simp)⟩
  rw [← Nat.add_sub_of_le h, List.replicate_add]
  exact List.prefix_append _ _

theorem spaces_of_break (h : Indented depth (cs ++ '\n' :: cs')) : List.replicate depth ' ' <+: cs' := by
  induction cs with
  | nil => exact h.1 rfl
  | cons c cs ih => exact ih h.2

theorem le_lastLine {c : Char} (h : Indented depth (cs ++ c :: cs')) (hc : c ≠ ' ') (hb : '\n' ∈ cs) :
    depth ≤ (lastLine cs).length := by
  obtain ⟨last, first, hr, hn⟩ := List.eq_append_cons_of_mem (List.mem_reverse.2 hb)
  have hcs : cs = first.reverse ++ '\n' :: last.reverse := by
    rw [← List.reverse_reverse cs, hr]
    simp
  rw [hcs, lastLine_break (by simpa using hn)]
  rw [hcs, List.append_assoc, List.cons_append] at h
  exact le_length_of_spaces hc h.spaces_of_break

theorem rows (h : Indented depth cs) : ∀ row ∈ laterRows cs, depth ≤ row.indent := by
  induction cs with
  | nil => exact nofun
  | cons c cs ih =>
    by_cases hc : c = '\n'
    · obtain ⟨rest, hr⟩ := h.1 hc
      have spaces : '\n' ∉ List.replicate depth ' ' := by simp
      have deep : depth ≤ (Row.read (firstLine cs)).indent := by
        rw [← hr, firstLine_append spaces, Row.read, List.takeWhile_append_of_pos (by simp)]
        simp
      rw [hc, laterRows_break]
      exact List.forall_mem_cons.2 ⟨deep, ih h.2⟩
    · have single : '\n' ∉ [c] := by simpa using Ne.symm hc
      rw [← List.singleton_append, laterRows_append single]
      exact ih h.2

end Indented

/-- Some line begins visibly at `depth`, or to the left of it. -/
def Recedes (depth : Nat) (cs : List Char) : Prop :=
  ∃ before indent rest, cs = before ++ '\n' :: (List.replicate indent ' ' ++ rest) ∧ Inked rest ∧
    indent ≤ depth

namespace Recedes

variable {depth : Nat} {cs : List Char}

theorem mono (h : Recedes depth cs) {depth' : Nat} (hd : depth ≤ depth') : Recedes depth' cs := by
  obtain ⟨before, indent, rest, e, hi, hle⟩ := h
  exact ⟨before, indent, rest, e, hi, Nat.le_trans hle hd⟩

theorem append (h : Recedes depth cs) (cs' : List Char) : Recedes depth (cs ++ cs') := by
  obtain ⟨before, indent, rest, rfl, hi, hle⟩ := h
  exact ⟨before, indent, rest ++ cs', by simp, hi.append cs', hle⟩

theorem not_indented (h : Recedes depth cs) : ¬Indented (depth + 1) cs := by
  obtain ⟨before, indent, rest, rfl, ⟨c, cs', rfl, hc, -⟩, hle⟩ := h
  intro deeper
  have hi := le_length_of_spaces hc deeper.spaces_of_break
  rw [List.length_replicate] at hi
  omega

end Recedes

/-- What follows the indentation of a line: visibly, the heading, and below it deeper lines only. -/
structure Item (indent : Nat) (heading text : List Char) : Prop where
  inked : Inked text
  deeper : Indented (indent + 1) text
  headed : heading <+: firstLine text

/-- All rows are at least as deep as `indent`, and those that are no deeper begin with the headings, one
for each and in this order. -/
structure Outline (indent : Nat) (headings : List (List Char)) (rows : List Row) : Prop where
  bounded : ∀ row ∈ rows, indent ≤ row.indent
  heads : List.Forall₂ (fun heading row => heading <+: row.content) headings
    (rows.filter fun row => row.indent = indent)

namespace Outline

variable {indent : Nat} {headings headings' : List (List Char)} {rows rows' : List Row}

theorem of_deeper (h : ∀ row ∈ rows, indent < row.indent) : Outline indent [] rows where
  bounded row hm := Nat.le_of_lt (h row hm)
  heads := by
    have none : rows.filter (fun row => row.indent = indent) = [] := by
      refine List.filter_eq_nil_iff.2 fun row hm => ?_
      simpa using Nat.ne_of_gt (h row hm)
    rw [none]
    exact .nil

theorem append (h : Outline indent headings rows) (h' : Outline indent headings' rows') :
    Outline indent (headings ++ headings') (rows ++ rows') where
  bounded := List.forall_mem_append.2 ⟨h.bounded, h'.bounded⟩
  heads := by
    rw [List.filter_append]
    exact List.rel_append h.heads h'.heads

theorem line {text heading : List Char} (h : Item indent heading text) :
    Outline indent [heading] (laterRows ('\n' :: (List.replicate indent ' ' ++ text))) := by
  have spaces : '\n' ∉ List.replicate indent ' ' := by simp
  have first : Outline indent [heading] [⟨indent, firstLine text⟩] := by
    refine ⟨by simp, ?_⟩
    simpa using h.headed
  have deeper : Outline indent [] (laterRows text) := of_deeper h.deeper.rows
  rw [laterRows_break, h.inked.read, laterRows_append spaces]
  exact first.append deeper

end Outline

end PhaseTree
