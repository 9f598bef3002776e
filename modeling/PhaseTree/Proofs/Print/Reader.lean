import PhaseTree.Proofs.Print.Lexemes
import PhaseTree.Tree.Expr

set_option autoImplicit false

/-!
A reader for expressions of one line, by recursive descent. A phrase fills the space between two
delimiters, an operand stands beside others; a sentence is an operand with what may follow it: an operator
and an operand, a further argument, or the rest of a list.

The readers of these parts call one another. They are the limit of approximations that give up after a
number of calls; a statement about the limit is one about all approximations but finitely many.
-/

namespace PhaseTree.Reader

open Lexeme

abbrev Tree (D T : Type) := Expr Unit D RawName T

abbrev Read (X : Type) := List Char → Option (X × List Char)

structure Readers (D T : Type) where
  phrase : Read (Tree D T)
  params : Read (Tree D T)
  sentence : Read (Tree D T)
  tail : Tree D T → Read (Tree D T)
  operand : Read (Tree D T)
  selectors : Tree D T → Read (Tree D T)
  primary : Read (Tree D T)
  items : Read (List (Tree D T))
  fields : Read (List (String × Tree D T))

variable {D T : Type}

def scalar : Read (Tree D T) := fun cs =>
  match numeral cs with
  | some (n, cs) => some (.lit () (.int n), cs)
  | none => (word cs).map fun (name, cs) => (.var () ⟨name⟩, cs)

def leaf : Read (Tree D T)
  | '"' :: cs => do
    let (text, cs) ← Quoted.decode '"' cs
    return (.lit () (.text (String.ofList text)), cs)
  | '\'' :: cs => do
    let (text, cs) ← Quoted.decode '\'' cs
    match text with
    | [c] => return (.lit () (.char c), cs)
    | _ => none
  | cs => scalar cs

namespace Readers

variable (r : Readers D T)

def readPhrase : Read (Tree D T)
  | '\\' :: cs => r.params cs
  | '-' :: cs => do
    let (e, cs) ← r.operand cs
    return (.binop () ⟨"-"⟩ (.lit () (.int 0)) e, cs)
  | cs => r.sentence cs

def readParams : Read (Tree D T) := fun cs => do
  let (name, cs) ← word cs
  match cs with
  | ' ' :: '-' :: '>' :: ' ' :: cs =>
    let (body, cs) ← r.phrase cs
    return (.lambda () (.var name) body, cs)
  | ' ' :: cs =>
    let (body, cs) ← r.params cs
    return (.lambda () (.var name) body, cs)
  | _ => none

def readSentence : Read (Tree D T) := fun cs => do
  let (e, cs) ← r.operand cs
  r.tail e cs

def readTail (e : Tree D T) : Read (Tree D T)
  | ' ' :: cs =>
    match infixName cs with
    | some (op, cs) =>
      if op = Reserved.cons then do
        let (rest, cs) ← r.sentence cs
        return (.data () Reserved.cons [e, rest], cs)
      else do
        let (right, cs) ← r.operand cs
        return (.binop () ⟨op⟩ e right, cs)
    | none => do
      let (arg, cs) ← r.operand cs
      r.tail (.app () e arg) cs
  | cs => some (e, cs)

def readOperand : Read (Tree D T) := fun cs => do
  let (e, cs) ← r.primary cs
  r.selectors e cs

def readSelectors (e : Tree D T) : Read (Tree D T)
  | '.' :: cs =>
    match word cs with
    | some (field, cs) => r.selectors (.access () e field) cs
    | none => some (e, '.' :: cs)
  | cs => some (e, cs)

def readPrimary : Read (Tree D T)
  | '(' :: cs => do
    let (es, cs) ← r.items cs
    match es, cs with
    | [e], ')' :: cs => return (e, cs)
    | es, ')' :: cs => return (.tuple () es, cs)
    | _, _ => none
  | '[' :: ']' :: cs => some (.list () [], cs)
  | '[' :: cs => do
    let (es, cs) ← r.items cs
    match es, cs with
    | es, ']' :: cs => return (.list () es, cs)
    | [low], '.' :: '.' :: cs =>
      let (high, cs) ← r.operand cs
      match cs with
      | ']' :: cs => return (.range () low high, cs)
      | _ => none
    | _, _ => none
  | '\x7b' :: '\x7d' :: cs => some (.record () [], cs)
  | '\x7b' :: cs => do
    let (fs, cs) ← r.fields cs
    match cs with
    | '\x7d' :: cs => return (.record () fs, cs)
    | _ => none
  | cs => leaf cs

def readItems : Read (List (Tree D T)) := fun cs => do
  let (e, cs) ← r.phrase cs
  match cs with
  | ',' :: ' ' :: cs =>
    let (es, cs) ← r.items cs
    return (e :: es, cs)
  | cs => return ([e], cs)

def readFields : Read (List (String × Tree D T)) := fun cs => do
  let (field, cs) ← word cs
  match cs with
  | ' ' :: '=' :: ' ' :: cs =>
    let (value, cs) ← r.phrase cs
    match cs with
    | ',' :: ' ' :: cs =>
      let (fs, cs) ← r.fields cs
      return ((field, value) :: fs, cs)
    | cs => return ([(field, value)], cs)
  | _ => none

def step : Readers D T :=
  ⟨r.readPhrase, r.readParams, r.readSentence, r.readTail, r.readOperand, r.readSelectors,
    r.readPrimary, r.readItems, r.readFields⟩

def idle : Readers D T :=
  ⟨fun _ => none, fun _ => none, fun _ => none, fun _ _ => none, fun _ => none, fun _ _ => none,
    fun _ => none, fun _ => none, fun _ => none⟩

/-- The approximation that gives up after `n` calls within one another. -/
def upTo : Nat → Readers D T
  | 0 => idle
  | n + 1 => (upTo n).step

end Readers

variable {X Y Z : Type}

/-- In the limit, reading returns `x`. -/
def Reads (read : Readers D T → Option X) (x : X) : Prop :=
  ∃ least, ∀ n, least ≤ n → read (.upTo n) = some x

namespace Reads

variable {read : Readers D T → Option X} {read' : Readers D T → Option Y}
  {read'' : Readers D T → Option Z} {x : X} {y : Y} {z : Z}

theorem of_step (h : ∀ r : Readers D T, read r.step = some x) : Reads read x := by
  refine ⟨1, fun n hn => ?_⟩
  cases n with
  | zero => omega
  | succ n => exact h _

theorem step₂ (h : Reads read x) (h' : Reads read' y)
    (next : ∀ r : Readers D T, read r = some x → read' r = some y → read'' r.step = some z) :
    Reads read'' z := by
  obtain ⟨least, hx⟩ := h
  obtain ⟨least', hy⟩ := h'
  refine ⟨max least least' + 1, fun n hn => ?_⟩
  cases n with
  | zero => omega
  | succ n => exact next _ (hx n (by omega)) (hy n (by omega))

theorem step (h : Reads read x)
    (next : ∀ r : Readers D T, read r = some x → read' r.step = some y) : Reads read' y :=
  h.step₂ h fun r hx _ => next r hx

theorem eq {x' : X} (h : Reads read x) (h' : Reads read x') : x = x' := by
  obtain ⟨least, hx⟩ := h
  obtain ⟨least', hx'⟩ := h'
  have same := hx (max least least') (by omega)
  rw [hx' _ (by omega)] at same
  exact (Option.some.inj same).symm

end Reads

def delimiters : List Char := ['"', '\'', '(', '[', '\x7b']

def isOpening (c : Char) : Bool := c.isDigit || isInitial c || delimiters.contains c

def Opens (cs : List Char) : Prop := ∃ c cs', cs = c :: cs' ∧ isOpening c = true

/-- Phrases do not start the way a list ends. -/
def Starts (cs : List Char) : Prop := ∃ c cs', cs = c :: cs' ∧ c ≠ ']'

def operandEnds : List Char → Bool
  | '.' :: cs => !cs.head?.any isInitial
  | c :: _ => !c.isAlphanum
  | [] => true

def phraseEnds : List Char → Bool
  | ' ' :: _ => false
  | cs => operandEnds cs

theorem Opens.append {cs : List Char} (h : Opens cs) (rest : List Char) : Opens (cs ++ rest) := by
  obtain ⟨c, cs', rfl, hc⟩ := h
  exact ⟨c, cs' ++ rest, rfl, hc⟩

theorem Opens.starts {cs : List Char} (h : Opens cs) : Starts cs := by
  obtain ⟨c, cs', rfl, hc⟩ := h
  refine ⟨c, cs', rfl, ?_⟩
  rintro rfl
  contradiction

theorem Starts.append {cs : List Char} (h : Starts cs) (rest : List Char) : Starts (cs ++ rest) := by
  obtain ⟨c, cs', rfl, hc⟩ := h
  exact ⟨c, cs' ++ rest, rfl, hc⟩

theorem boundary_of_operandEnds {cs : List Char} (h : operandEnds cs = true) :
    Boundary Char.isAlphanum cs := by
  unfold operandEnds at h
  split at h
  · exact (boundary_cons _ _ _).2 (by decide)
  · exact (boundary_cons _ _ _).2 (by simpa using h)
  · exact boundary_nil _

theorem operandEnds_of_phraseEnds {cs : List Char} (h : phraseEnds cs = true) :
    operandEnds cs = true := by
  unfold phraseEnds at h
  split at h
  · contradiction
  · exact h

theorem infixName_of_opens {cs : List Char} (h : Opens cs) : infixName cs = none := by
  obtain ⟨c, cs, rfl, hc⟩ := h
  have hq : c ≠ '`' := by
    rintro rfl
    contradiction
  have apart : Reserved.operatorChars.all (!isOpening ·) = true := by decide
  have hs : Reserved.operatorChars.contains c = false := by
    rw [List.contains_eq_mem, decide_eq_false_iff_not]
    intro hm
    have := List.all_eq_true.1 apart c hm
    simp [hc] at this
  exact infixName_eq_none hq hs cs

theorem leaf_eq_scalar {c : Char} (h : ['"', '\''].contains c = false) (cs : List Char) :
    leaf (D := D) (T := T) (c :: cs) = scalar (c :: cs) := by
  rw [leaf.eq_def]
  split
  all_goals first
    | rename_i e
      cases e
      contradiction
    | rfl

namespace Readers

variable {r : Readers D T} {cs cs' rest : List Char} {e : Tree D T}

theorem readSelectors_eq (h : operandEnds cs = true) (e : Tree D T) :
    r.readSelectors e cs = some (e, cs) := by
  rw [readSelectors.eq_def]
  split
  · rename_i cs
    rw [word_eq_none (by simpa [operandEnds] using h)]
  · rfl

theorem readTail_eq (h : phraseEnds cs = true) (e : Tree D T) : r.readTail e cs = some (e, cs) := by
  rw [readTail.eq_def]
  split
  · contradiction
  · rfl

theorem readPhrase_of_opens (h : Opens cs) : r.readPhrase cs = r.sentence cs := by
  obtain ⟨c, cs, rfl, hc⟩ := h
  rw [readPhrase.eq_def]
  split
  · rename_i e
    cases e
    contradiction
  · rename_i e
    cases e
    contradiction
  · rfl

theorem readTail_argument {arg : Tree D T} (hn : infixName cs = none)
    (h : r.operand cs = some (arg, rest)) :
    r.readTail e (' ' :: cs) = r.tail (.app () e arg) rest := by
  rw [readTail, hn]
  simp only [h]
  rfl

theorem readTail_infix {op : String} {right : Tree D T} (hn : infixName cs = some (op, cs'))
    (ho : op ≠ Reserved.cons) (h : r.operand cs' = some (right, rest)) :
    r.readTail e (' ' :: cs) = some (.binop () ⟨op⟩ e right, rest) := by
  rw [readTail, hn]
  simp only [if_neg ho, h]
  rfl

theorem readTail_cons {last : Tree D T} (hn : infixName cs = some (Reserved.cons, cs'))
    (h : r.sentence cs' = some (last, rest)) :
    r.readTail e (' ' :: cs) = some (.data () Reserved.cons [e, last], rest) := by
  rw [readTail, hn]
  simp only [if_true, h]
  rfl

theorem readPrimary_bracket (h : Starts cs) : r.readPrimary ('[' :: cs) = (do
    let (es, cs) ← r.items cs
    match es, cs with
    | es, ']' :: cs => return (.list () es, cs)
    | [low], '.' :: '.' :: cs =>
      let (high, cs) ← r.operand cs
      match cs with
      | ']' :: cs => return (.range () low high, cs)
      | _ => none
    | _, _ => none) := by
  obtain ⟨c, cs, rfl, hc⟩ := h
  rw [readPrimary]
  intro cs' e
  exact hc (List.cons.inj e).1

theorem readPrimary_brace (h : Opens cs) : r.readPrimary ('\x7b' :: cs) = (do
    let (fs, cs) ← r.fields cs
    match cs with
    | '\x7d' :: cs => return (.record () fs, cs)
    | _ => none) := by
  obtain ⟨c, cs, rfl, hc⟩ := h
  rw [readPrimary]
  rintro cs' e
  cases e
  contradiction

theorem readPrimary_leaf {c : Char} (h : ['(', '[', '\x7b'].contains c = false) (cs : List Char) :
    r.readPrimary (c :: cs) = leaf (c :: cs) := by
  rw [readPrimary.eq_def]
  split
  all_goals first
    | rename_i e
      cases e
      contradiction
    | rfl

end Readers

end PhaseTree.Reader
