import Mathlib.Data.List.Basic
import Mathlib.Data.List.TakeDrop
import PhaseTree.Print.Literal
import PhaseTree.Print.Name

set_option autoImplicit false

namespace PhaseTree

def Boundary (p : Char → Bool) (cs : List Char) : Prop := ∀ c ∈ cs.head?, p c = false

@[simp] theorem boundary_cons (p : Char → Bool) (c : Char) (cs : List Char) :
    Boundary p (c :: cs) ↔ p c = false := by
  simp [Boundary]

@[simp] theorem boundary_nil (p : Char → Bool) : Boundary p [] := by
  simp [Boundary]

namespace Quoted

def IsQuote (quote : Char) : Prop := quote = '"' ∨ quote = '\''

def unescape (quote : Char) : Char → Option Char
  | '\\' => some '\\'
  | 'n' => some '\n'
  | 't' => some '\t'
  | 'r' => some '\r'
  | '0' => some '\x00'
  | c => if c = quote then some quote else none

/-- The text up to the first quote that is not escaped, and what stands behind that quote. -/
def decode (quote : Char) : List Char → Option (List Char × List Char)
  | [] => none
  | '\\' :: c :: cs => do
    let c ← unescape quote c
    let (text, cs) ← decode quote cs
    return (c :: text, cs)
  | c :: cs =>
    if c = quote then some ([], cs)
    else do
      let (text, cs) ← decode quote cs
      return (c :: text, cs)

theorem decode_escape {quote : Char} (hq : IsQuote quote) (c : Char) (cs : List Char) :
    decode quote (escape quote c ++ cs) = (decode quote cs).map fun (text, cs) => (c :: text, cs) := by
  have special : ∀ (e : Char), unescape quote e = some c →
      decode quote ('\\' :: e :: cs) = (decode quote cs).map fun (text, cs) => (c :: text, cs) := by
    intro e he
    rw [decode, he]
    cases decode quote cs <;> rfl
  unfold escape
  split
  · exact special _ rfl
  · exact special _ rfl
  · exact special _ rfl
  · exact special _ rfl
  · exact special _ rfl
  · split
    · rename_i hc
      subst hc
      exact special _ (by rcases hq with rfl | rfl <;> rfl)
    · rename_i hs _ _ _ _ hc
      rw [List.singleton_append, decode, if_neg hc]
      · cases decode quote cs <;> rfl
      · rintro c' cs' rfl
        exact absurd rfl hs

theorem decode_encode {quote : Char} (hq : IsQuote quote) (text rest : List Char) :
    decode quote (text.flatMap (escape quote) ++ quote :: rest) = some (text, rest) := by
  induction text with
  | nil => rcases hq with rfl | rfl <;> simp [decode]
  | cons c text ih =>
    rw [List.flatMap_cons, List.append_assoc, decode_escape hq, ih, Option.map_some]

def controls : List Char := ['\n', '\t', '\r', '\x00']

theorem notMem_escape {d : Char} (hd : d ∈ controls) (quote c : Char) : d ∉ escape quote c := by
  have hb : d ≠ '\\' := by
    rintro rfl
    exact absurd hd (by decide)
  unfold escape
  split
  · exact (by decide : ∀ d ∈ controls, d ∉ ['\\', '\\']) d hd
  · exact (by decide : ∀ d ∈ controls, d ∉ ['\\', 'n']) d hd
  · exact (by decide : ∀ d ∈ controls, d ∉ ['\\', 't']) d hd
  · exact (by decide : ∀ d ∈ controls, d ∉ ['\\', 'r']) d hd
  · exact (by decide : ∀ d ∈ controls, d ∉ ['\\', '0']) d hd
  · rename_i hn ht hr h0
    have hc : d ≠ c := by
      rintro rfl
      simp only [controls, List.mem_cons, List.not_mem_nil, or_false] at hd
      rcases hd with h | h | h | h
      · exact hn h
      · exact ht h
      · exact hr h
      · exact h0 h
    split <;> simp [hb, hc]

theorem notMem_text {d quote : Char} (hd : d ∈ controls) (hq : d ≠ quote) (s : String) :
    d ∉ (text quote s).toList := by
  simp [toList_text, hq, notMem_escape hd]

end Quoted

namespace Lexeme

theorem isPrefixOf?_eq_none {opening cs : List Char} (h : (!opening.isPrefixOf cs) = true) :
    opening.isPrefixOf? cs = none := by
  rwa [← Option.isNone_iff_eq_none, ← Option.not_isSome, List.isSome_isPrefixOf?_eq_isPrefixOf]

theorem isPrefixOf?_of_head {c : Char} {cs : List Char} (h : cs.head? ≠ some c) (opening : List Char) :
    (c :: opening).isPrefixOf? cs = none := by
  refine isPrefixOf?_eq_none ?_
  rw [Bool.not_eq_true', ← Bool.not_eq_true, List.isPrefixOf_iff_prefix]
  rintro ⟨more, rfl⟩
  exact h rfl

/-- The longest prefix of characters with `p`, unless it is empty. -/
def run (p : Char → Bool) (cs : List Char) : Option (List Char × List Char) :=
  if cs.takeWhile p = [] then none else some (cs.takeWhile p, cs.dropWhile p)

theorem takeWhile_append {p : Char → Bool} {body rest : List Char} (inside : ∀ c ∈ body, p c = true)
    (hr : Boundary p rest) : (body ++ rest).takeWhile p = body ∧ (body ++ rest).dropWhile p = rest := by
  rw [List.takeWhile_append_of_pos inside, List.dropWhile_append_of_pos inside]
  cases rest with
  | nil => simp
  | cons c cs =>
    rw [boundary_cons] at hr
    simp [hr]

theorem run_append {p : Char → Bool} {body rest : List Char} (hne : body ≠ [])
    (inside : ∀ c ∈ body, p c = true) (hr : Boundary p rest) :
    run p (body ++ rest) = some (body, rest) := by
  obtain ⟨ht, hd⟩ := takeWhile_append inside hr
  rw [run, ht, hd, if_neg hne]

theorem run_eq_none {p : Char → Bool} {cs : List Char} (h : Boundary p cs) : run p cs = none := by
  cases cs with
  | nil => rfl
  | cons c cs =>
    rw [boundary_cons] at h
    simp [run, h]

def numeral (cs : List Char) : Option (Nat × List Char) :=
  (run Char.isDigit cs).map fun (digits, cs) => (Nat.ofDigitChars 10 digits 0, cs)

/-- All lower-case letters. Beyond ASCII, letters are not told apart from other characters. -/
def isInitial (c : Char) : Bool := c.isLower || 127 < c.toNat

def isIdentifier (name : String) : Bool :=
  match name.toList with
  | [] => false
  | c :: cs => isInitial c && cs.all Char.isAlphanum

def word : List Char → Option (String × List Char)
  | [] => none
  | c :: cs =>
    if isInitial c then
      some (String.ofList (c :: cs.takeWhile Char.isAlphanum), cs.dropWhile Char.isAlphanum)
    else none

def symbol (cs : List Char) : Option (String × List Char) :=
  (run Reserved.operatorChars.contains cs).map fun (name, cs) => (String.ofList name, cs)

/-- A name between operands, with the space that ends it. -/
def infixName : List Char → Option (String × List Char)
  | '`' :: cs => do
    let (name, cs) ← word cs
    match cs with
    | '`' :: ' ' :: cs => return (name, cs)
    | _ => none
  | cs => do
    let (name, cs) ← symbol cs
    match cs with
    | ' ' :: cs => return (name, cs)
    | _ => none

theorem exists_of_isIdentifier {name : String} (h : isIdentifier name = true) :
    ∃ c cs, name.toList = c :: cs ∧ isInitial c = true ∧ ∀ d ∈ cs, d.isAlphanum = true := by
  unfold isIdentifier at h
  split at h
  · contradiction
  · rename_i c cs hn
    obtain ⟨hc, hcs⟩ := Bool.and_eq_true_iff.1 h
    exact ⟨c, cs, hn, hc, List.all_eq_true.1 hcs⟩

theorem isOperator_of_isIdentifier {name : String} (h : isIdentifier name = true) :
    Reserved.isOperator name = false := by
  obtain ⟨c, cs, hn, hc, -⟩ := exists_of_isIdentifier h
  have apart : Reserved.operatorChars.all (!isInitial ·) = true := by decide
  rw [Reserved.isOperator, Bool.and_eq_false_iff, List.all_eq_false]
  refine .inr ⟨c, by simp [hn], fun hm => ?_⟩
  have := List.all_eq_true.1 apart c (by simpa using hm)
  simp [hc] at this

theorem repr_eq_cons (n : Nat) : ∃ c cs, n.repr.toList = c :: cs ∧ c.isDigit = true := by
  rw [Nat.toList_repr]
  obtain ⟨c, cs, hc⟩ := List.exists_cons_of_ne_nil (Nat.toDigits_ne_nil : Nat.toDigits 10 n ≠ [])
  have hm : c ∈ Nat.toDigits 10 n := by simp [hc]
  exact ⟨c, cs, hc, Nat.isDigit_of_mem_toDigits (by decide) (by decide) hm⟩

theorem numeral_append (n : Nat) {rest : List Char} (hr : Boundary Char.isDigit rest) :
    numeral (n.repr.toList ++ rest) = some (n, rest) := by
  have inside : ∀ c ∈ Nat.toDigits 10 n, c.isDigit = true := fun c hc =>
    Nat.isDigit_of_mem_toDigits (by decide) (by decide) hc
  simp only [numeral, Nat.toList_repr, run_append Nat.toDigits_ne_nil inside hr, Option.map_some,
    Nat.ofDigitChars_ten_toDigits]

theorem word_append {name : String} (h : isIdentifier name = true) {rest : List Char}
    (hr : Boundary Char.isAlphanum rest) : word (name.toList ++ rest) = some (name, rest) := by
  obtain ⟨c, cs, hn, hc, hcs⟩ := exists_of_isIdentifier h
  obtain ⟨ht, hd⟩ := takeWhile_append hcs hr
  rw [hn, List.cons_append, word, if_pos hc, ht, hd, ← hn, String.ofList_toList]

theorem word_eq_none {cs : List Char} (h : cs.head?.any isInitial = false) : word cs = none := by
  cases cs with
  | nil => rfl
  | cons c cs => exact if_neg (by simpa using h)

theorem symbol_append {name : String} (h : Reserved.isOperator name = true) {rest : List Char}
    (hr : Boundary Reserved.operatorChars.contains rest) :
    symbol (name.toList ++ rest) = some (name, rest) := by
  obtain ⟨hne, inside⟩ := Bool.and_eq_true_iff.1 h
  have hn : name.toList ≠ [] := by simpa using hne
  simp only [symbol, run_append hn (List.all_eq_true.1 inside) hr, Option.map_some,
    String.ofList_toList]

theorem infixName_symbol {name : String} (h : Reserved.isOperator name = true) (rest : List Char) :
    infixName (name.toList ++ ' ' :: rest) = some (name, rest) := by
  have hs : symbol (name.toList ++ ' ' :: rest) = some (name, ' ' :: rest) :=
    symbol_append h ((boundary_cons _ _ _).2 (by decide))
  have hq : ∀ cs, name.toList ++ ' ' :: rest ≠ '`' :: cs := by
    intro cs hcs
    rw [hcs] at hs
    have hn : symbol ('`' :: cs) = none :=
      congrArg _ (run_eq_none ((boundary_cons _ _ _).2 (by decide)))
    rw [hn] at hs
    contradiction
  rw [infixName.eq_2 _ hq, hs]
  rfl

theorem infixName_word {name : String} (h : isIdentifier name = true) (rest : List Char) :
    infixName ('`' :: (name.toList ++ '`' :: ' ' :: rest)) = some (name, rest) := by
  rw [infixName, word_append h ((boundary_cons _ _ _).2 (by decide))]
  rfl

theorem infixName_eq_none {c : Char} (hq : c ≠ '`') (h : Reserved.operatorChars.contains c = false)
    (cs : List Char) : infixName (c :: cs) = none := by
  have hs : symbol (c :: cs) = none := congrArg _ (run_eq_none ((boundary_cons _ _ _).2 h))
  have hc : ∀ cs', c :: cs ≠ '`' :: cs' := fun cs' e => hq (List.cons.inj e).1
  rw [infixName.eq_2 _ hc, hs]
  rfl

end Lexeme

end PhaseTree
