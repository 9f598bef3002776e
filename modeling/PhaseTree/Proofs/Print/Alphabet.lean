import PhaseTree.Print.Sugar
import PhaseTree.Proofs.Print.Lexemes

set_option autoImplicit false

namespace PhaseTree

inductive LetterCase where
  | lower
  | upper
  deriving DecidableEq

/-- The case of each letter that has one. -/
structure Alphabet where
  caseOf : Char → Option LetterCase
  ascii : ∀ c : Char, c.toNat < 128 →
    caseOf c = if c.isLower then some .lower else if c.isUpper then some .upper else none

instance : Inhabited Alphabet where
  default :=
    ⟨fun c => if c.isLower then some .lower else if c.isUpper then some .upper else none, fun _ _ => rfl⟩

namespace Lexeme

def punctuation : List Char := Reserved.operatorChars ++ " (){}[],_\"'".toList

/-- Any character that no printer puts between names, such as a letter or a digit, and the dot. -/
def isNamePart (c : Char) : Bool := c == '.' || !punctuation.contains c

def nameEnds (cs : List Char) : Bool := !cs.head?.any isNamePart

structure IsNameText (name : String) : Prop where
  ne_empty : name ≠ ""
  parts : ∀ c ∈ name.toList, isNamePart c = true

def nameText (cs : List Char) : Option (String × List Char) :=
  (run isNamePart cs).map fun (name, cs) => (String.ofList name, cs)

theorem boundary_of_nameEnds {cs : List Char} (h : nameEnds cs = true) : Boundary isNamePart cs := by
  cases cs with
  | nil => exact boundary_nil _
  | cons c cs => exact (boundary_cons _ _ _).2 (by simpa [nameEnds] using h)

theorem IsNameText.nameText_append {name : String} (h : IsNameText name) {rest : List Char}
    (hr : nameEnds rest = true) : nameText (name.toList ++ rest) = some (name, rest) := by
  have hn : name.toList ≠ [] := by simpa using h.ne_empty
  simp only [nameText, run_append hn h.parts (boundary_of_nameEnds hr), Option.map_some,
    String.ofList_toList]

theorem IsNameText.exists_cons {name : String} (h : IsNameText name) :
    ∃ c cs, name.toList = c :: cs ∧ isNamePart c = true := by
  have hn : name.toList ≠ [] := by simpa using h.ne_empty
  obtain ⟨c, cs, hc⟩ := List.exists_cons_of_ne_nil hn
  exact ⟨c, cs, hc, h.parts c (by simp [hc])⟩

theorem isNamePart_of_isDigit {c : Char} (h : c.isDigit = true) : isNamePart c = true := by
  have apart : punctuation.all (!Char.isDigit ·) = true := by decide
  rw [isNamePart, Bool.or_eq_true, Bool.not_eq_true', List.contains_eq_mem, decide_eq_false_iff_not]
  refine .inr fun hm => ?_
  have := List.all_eq_true.1 apart c hm
  simp [h] at this

end Lexeme

namespace Alphabet

open Lexeme

variable (letters : Alphabet)

def initialCase (name : String) : Option LetterCase := name.toList.head?.bind letters.caseOf

structure IsName (initial : LetterCase) (name : String) : Prop where
  initial : letters.initialCase name = some initial
  parts : ∀ c ∈ name.toList, isNamePart c = true

variable {letters} {initial : LetterCase} {name : String}

theorem caseOf_of_mem_punctuation {c : Char} (h : c ∈ punctuation) : letters.caseOf c = none := by
  have apart : punctuation.all (fun c => c.toNat < 128 && !c.isLower && !c.isUpper) = true := by decide
  have hc := List.all_eq_true.1 apart c h
  simp only [Bool.and_eq_true, Bool.not_eq_true', decide_eq_true_eq] at hc
  obtain ⟨⟨small, lower⟩, upper⟩ := hc
  simp [letters.ascii c small, lower, upper]

theorem caseOf_of_isDigit {c : Char} (h : c.isDigit = true) : letters.caseOf c = none := by
  obtain ⟨-, high⟩ := Char.isDigit_iff_toNat.1 h
  have small : c.toNat < 128 := Nat.lt_of_le_of_lt high (by decide)
  have apart : ∀ n < 128, (Char.ofNat n).isDigit = true →
      (Char.ofNat n).isLower = false ∧ (Char.ofNat n).isUpper = false := by decide
  obtain ⟨lower, upper⟩ := apart c.toNat small (by rwa [Char.ofNat_toNat])
  rw [Char.ofNat_toNat] at lower upper
  simp [letters.ascii c small, lower, upper]

namespace IsName

theorem exists_initial (h : letters.IsName initial name) :
    ∃ c cs, name.toList = c :: cs ∧ letters.caseOf c = some initial := by
  have hi := h.initial
  rw [initialCase, Option.bind_eq_some_iff] at hi
  obtain ⟨c, hc, hcase⟩ := hi
  obtain ⟨cs, hn⟩ := List.head?_eq_some_iff.1 hc
  exact ⟨c, cs, hn, hcase⟩

theorem isNameText (h : letters.IsName initial name) : IsNameText name where
  ne_empty := by
    obtain ⟨c, cs, hn, -⟩ := h.exists_initial
    rintro rfl
    contradiction
  parts := h.parts

theorem isOperator_eq_false (h : letters.IsName initial name) : Reserved.isOperator name = false := by
  obtain ⟨c, cs, hn, hc⟩ := h.exists_initial
  rw [Reserved.isOperator, Bool.and_eq_false_iff, List.all_eq_false]
  refine .inr ⟨c, by simp [hn], fun hm => ?_⟩
  have hp : c ∈ punctuation := List.mem_append_left _ (by simpa using hm)
  simp [caseOf_of_mem_punctuation hp] at hc

theorem isTupleName_eq_false (h : letters.IsName initial name) : Reserved.isTupleName name = false := by
  obtain ⟨c, cs, hn, hc⟩ := h.exists_initial
  have hu : (c :: cs).head? ≠ some '_' := by
    intro e
    have hp : c ∈ punctuation := by
      rw [Option.some.inj e]
      decide
    simp [caseOf_of_mem_punctuation hp] at hc
  have hs : Reserved.tupleStem.toList = '_' :: "Tuple".toList := by decide
  rw [Reserved.isTupleName, hn, hs, isPrefixOf?_of_head hu]

theorem sugar_eq_plain (h : letters.IsName initial name) (arity : Nat) : Sugar.of name arity = .plain := by
  have hcons : name ≠ Reserved.cons := by
    rintro rfl
    exact absurd h.isOperator_eq_false (by decide)
  have hnil : name ≠ Reserved.nil := by
    rintro rfl
    exact absurd (h.parts '[' (by decide)) (by decide)
  simp [Sugar.of, hcons, hnil, h.isTupleName_eq_false]

end IsName

end Alphabet

end PhaseTree
