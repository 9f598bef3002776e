import Mathlib.Data.List.Basic
import PhaseTree.Name.Reserved

set_option autoImplicit false

namespace PhaseTree.Reserved

/-- No zero stands in front that could be left out. -/
def IsShortest (digits : List Char) : Prop := digits.head? = some '0' → digits = ['0']

theorem isNumeral_iff (digits : List Char) :
    isNumeral digits = true ↔ digits ≠ [] ∧ ∀ c ∈ digits, c.isDigit = true := by
  simp [isNumeral]

theorem isNumeral_toDigits (n : Nat) : isNumeral (Nat.toDigits 10 n) = true :=
  (isNumeral_iff _).2 ⟨Nat.toDigits_ne_nil, fun _ => Nat.isDigit_of_mem_toDigits (by decide) (by decide)⟩

theorem exists_digitChar {c : Char} (h : c.isDigit = true) : ∃ d < 10, c = Nat.digitChar d := by
  have bounds : 48 ≤ c.toNat ∧ c.toNat ≤ 57 := Char.isDigit_iff_toNat.1 h
  refine ⟨c.toNat - 48, by omega, Char.toNat_inj.1 ?_⟩
  rw [Nat.toNat_digitChar_of_lt_ten (by omega)]
  omega

theorem isShortest_toDigits (n : Nat) : IsShortest (Nat.toDigits 10 n) := by
  induction n using Nat.base_induction 10 (by decide) with
  | single d small =>
    rw [Nat.toDigits_of_lt_base small]
    exact fun zero => congrArg (List.cons · []) (Option.some.inj zero)
  | digit front d small positive ih =>
    intro zero
    rw [← Nat.toDigits_append_toDigits (by decide) positive small,
      List.head?_append_of_ne_nil _ Nat.toDigits_ne_nil] at zero
    have nothing := congrArg (Nat.ofDigitChars 10 · 0) (ih zero)
    rw [Nat.ofDigitChars_ten_toDigits] at nothing
    exact absurd nothing (Nat.ne_of_gt positive)

/-- Digits behind a number other than zero go on with what it is written as. -/
theorem toDigits_append {digits : List Char} (h : ∀ c ∈ digits, c.isDigit = true) {n : Nat}
    (positive : 0 < n) :
    Nat.toDigits 10 n ++ digits = Nat.toDigits 10 (Nat.ofDigitChars 10 digits n) := by
  induction digits generalizing n with
  | nil => rw [List.append_nil, Nat.ofDigitChars_nil]
  | cons c rest ih =>
    obtain ⟨first, others⟩ := List.forall_mem_cons.1 h
    obtain ⟨d, small, rfl⟩ := exists_digitChar first
    have longer : Nat.toDigits 10 n ++ [Nat.digitChar d] = Nat.toDigits 10 (10 * n + d) := by
      rw [← Nat.toDigits_append_toDigits (by decide) positive small, Nat.toDigits_of_lt_base small]
    rw [Nat.ofDigitChars_cons_digitChar_of_lt_ten small, ← ih others (by omega), ← longer,
      List.append_assoc]
    rfl

theorem toDigits_ofDigitChars {digits : List Char} (h : isNumeral digits = true)
    (shortest : IsShortest digits) : Nat.toDigits 10 (Nat.ofDigitChars 10 digits 0) = digits := by
  obtain ⟨hne, hd⟩ := (isNumeral_iff _).1 h
  obtain ⟨c, rest, rfl⟩ := List.exists_cons_of_ne_nil hne
  obtain ⟨first, others⟩ := List.forall_mem_cons.1 hd
  obtain ⟨d, small, rfl⟩ := exists_digitChar first
  rw [Nat.ofDigitChars_cons_digitChar_of_lt_ten small, Nat.mul_zero, Nat.zero_add]
  -- A zero in front is the only digit. Any other first digit is a number that the rest goes on with.
  rcases Nat.eq_zero_or_pos d with rfl | positive
  · have alone : rest = [] := (List.cons.inj (shortest rfl)).2
    rw [alone]
    rfl
  · rw [← toDigits_append others positive, Nat.toDigits_of_lt_base small]
    rfl

theorem toDigits_eq_iff (digits : List Char) (n : Nat) : Nat.toDigits 10 n = digits ↔
    isNumeral digits = true ∧ IsShortest digits ∧ Nat.ofDigitChars 10 digits 0 = n := by
  constructor
  · rintro rfl
    exact ⟨isNumeral_toDigits n, isShortest_toDigits n, Nat.ofDigitChars_ten_toDigits⟩
  · rintro ⟨numeral, shortest, rfl⟩
    exact toDigits_ofDigitChars numeral shortest

theorem isTupleName_iff (name : String) : isTupleName name = true ↔
    ∃ digits, name.toList = tupleStem.toList ++ digits ∧ isNumeral digits = true := by
  simp only [eq_comm (a := name.toList), ← List.isPrefixOf?_eq_some_iff_append_eq]
  unfold isTupleName
  split <;> simp [*]

theorem isOperator_of_isTupleName {name : String} (h : isTupleName name = true) :
    isOperator name = false := by
  obtain ⟨digits, hn, -⟩ := (isTupleName_iff name).1 h
  rw [isOperator, hn, Bool.and_eq_false_iff]
  exact .inr rfl

theorem toList_tupleName (arity : Nat) :
    (tupleName arity).toList = tupleStem.toList ++ Nat.toDigits 10 arity := by
  rw [tupleName, String.toList_append, Nat.toList_repr]

theorem eq_tupleName_iff (name : String) (arity : Nat) : name = tupleName arity ↔
    ∃ digits, name.toList = tupleStem.toList ++ digits ∧ isNumeral digits = true ∧
      IsShortest digits ∧ Nat.ofDigitChars 10 digits 0 = arity := by
  rw [← String.toList_inj, toList_tupleName]
  constructor
  · intro hn
    exact ⟨_, hn, (toDigits_eq_iff _ arity).1 rfl⟩
  · rintro ⟨digits, hn, written⟩
    rw [hn, (toDigits_eq_iff digits arity).2 written]

def arity? (name : String) : Option Nat :=
  (tupleStem.toList.isPrefixOf? name.toList).map fun digits => Nat.ofDigitChars 10 digits 0

theorem arity?_tupleName (arity : Nat) : arity? (tupleName arity) = some arity := by
  rw [arity?, List.isPrefixOf?_eq_some_iff_append_eq.2 (toList_tupleName arity).symm, Option.map_some,
    Nat.ofDigitChars_ten_toDigits]

theorem tupleName_injective : Function.Injective tupleName := by
  intro m n same
  have read := congrArg arity? same
  rwa [arity?_tupleName, arity?_tupleName, Option.some.injEq] at read

end PhaseTree.Reserved
