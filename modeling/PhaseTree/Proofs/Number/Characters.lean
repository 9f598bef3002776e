import Mathlib.Data.List.TakeDrop
import PhaseTree.Number.DecimalText

set_option autoImplicit false

namespace PhaseTree

def Numeric (c : Char) : Prop := c.isDigit = true ∨ c ∈ ['.', 'e', '-']

instance (c : Char) : Decidable (Numeric c) := inferInstanceAs (Decidable (_ ∨ _))

theorem numeric_digits (n : Nat) : ∀ c ∈ Nat.toDigits 10 n, Numeric c :=
  fun _ h => .inl (Nat.isDigit_of_mem_toDigits (by decide) (by decide) h)

theorem numeric_intRepr (n : Int) : ∀ c ∈ n.repr.toList, Numeric c := by
  cases n with
  | ofNat m =>
    change ∀ c ∈ m.repr.toList, Numeric c
    rw [Nat.toList_repr]
    exact numeric_digits m
  | negSucc m =>
    have hm := numeric_digits (m + 1)
    simpa [Int.repr, Numeric] using hm

theorem numeric_shortest (x : Binary64) : ∀ c ∈ x.shortest.digits, Numeric c := by
  have hz : ∀ c ∈ ['0'], Numeric c := by simp [Numeric]
  unfold Binary64.shortest RoundingInterval.shortest
  split
  · exact hz
  · split
    · intro c h
      have hm := (List.dropWhile_sublist _).mem (List.mem_reverse.1 h)
      exact numeric_digits _ c (List.mem_reverse.1 hm)
    · exact hz

theorem numeric_zeros (count : Nat) : ∀ c ∈ Decimal.zeros count, Numeric c := by
  intro c h
  rw [List.eq_of_mem_replicate h]
  exact .inl rfl

theorem numeric_positional (d : Decimal) (h : ∀ c ∈ d.digits, Numeric c) :
    ∀ c ∈ d.positional, Numeric c := by
  have hz := numeric_zeros
  have hzero : Numeric '0' := .inl rfl
  have hpoint : Numeric '.' := .inr (by decide)
  have ht : ∀ c ∈ d.digits.take (d.exponent.toNat + 1), Numeric c :=
    fun c hm => h c (List.mem_of_mem_take hm)
  have hd : ∀ c ∈ d.digits.drop (d.exponent.toNat + 1), Numeric c :=
    fun c hm => h c (List.mem_of_mem_drop hm)
  unfold Decimal.positional
  dsimp only
  split_ifs
  · simp only [List.cons_append, List.forall_mem_cons, List.forall_mem_append]
    exact ⟨hzero, hpoint, hz _, h⟩
  · simp only [List.forall_mem_cons, List.forall_mem_append]
    exact ⟨⟨h, hz _⟩, hpoint, hzero, by simp⟩
  · rw [List.forall_mem_append, List.forall_mem_cons]
    exact ⟨ht, hpoint, hd⟩

theorem numeric_scientific (d : Decimal) (h : ∀ c ∈ d.digits, Numeric c) :
    ∀ c ∈ d.scientific, Numeric c := by
  have hpoint : Numeric '.' := .inr (by decide)
  have hletter : Numeric 'e' := .inr (by decide)
  have he := numeric_intRepr d.exponent
  unfold Decimal.scientific
  rw [List.forall_mem_append, List.forall_mem_cons]
  refine ⟨?_, hletter, he⟩
  split
  · rename_i first second rest hc
    rw [hc, List.forall_mem_cons] at h
    rw [List.forall_mem_cons, List.forall_mem_cons]
    exact ⟨h.1, hpoint, h.2⟩
  · exact h

theorem numeric_write (style : DecimalStyle) (x : Binary64) :
    ∀ c ∈ (x.write style).toList, Numeric c := by
  have hs := numeric_shortest x
  have hd : ∀ c ∈ x.shortest.write style, Numeric c := by
    unfold Decimal.write
    split_ifs
    · exact numeric_positional _ hs
    · exact numeric_scientific _ hs
  have hsign : ∀ c ∈ (if x.isNegative then ['-'] else []), Numeric c := by
    split_ifs <;> simp [Numeric]
  rw [Binary64.write, String.toList_ofList, List.forall_mem_append]
  exact ⟨hsign, hd⟩

end PhaseTree
