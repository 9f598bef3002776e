import Mathlib.Tactic.Ring
import PhaseTree.Number.Binary64

set_option autoImplicit false

namespace PhaseTree.Binary64

def value (x : Binary64) : ℚ :=
  (if x.isNegative then -1 else 1) * (x.significand * 2 ^ x.exponent)

def unsignedZero (x : Binary64) : Binary64 := if x.isZero then ⟨0⟩ else x

variable {x y : Binary64}

theorem unsignedZero_eq_iff :
    x.unsignedZero = y.unsignedZero ↔ x = y ∨ x.isZero = true ∧ y.isZero = true := by
  have hzero : (⟨0⟩ : Binary64).isZero = true := by decide
  unfold unsignedZero
  grind

theorem same_iff : x.same y = true ↔
    x.isNaN = false ∧ y.isNaN = false ∧ (x = y ∨ x.isZero = true ∧ y.isZero = true) := by
  have bits : x.bits = y.bits ↔ x = y := by
    cases x
    cases y
    simp
  simp [same, bits, and_assoc]

theorem toNat_bits (x : Binary64) : x.bits.toNat =
    ((if x.isNegative then 1 else 0) * exponentSize + x.exponentField) * fractionSize + x.fraction := by
  have last := x.bits.toNat_lt
  simp only [isNegative, exponentField, fraction, exponentSize, fractionSize, beq_iff_eq]
  split <;> omega

theorem eq_of_fields (sign : x.isNegative = y.isNegative) (exponent : x.exponentField = y.exponentField)
    (fraction : x.fraction = y.fraction) : x = y := by
  have bits : x.bits.toNat = y.bits.toNat := by
    rw [toNat_bits, toNat_bits, sign, exponent, fraction]
  cases x
  cases y
  exact congrArg mk (UInt64.toNat_inj.1 bits)

/-- The magnitude in units of `2 ^ -1075`, of which that of a finite number is a multiple. -/
def units (x : Binary64) : ℕ := x.significand * 2 ^ max x.exponentField 1

theorem fraction_lt (x : Binary64) : x.fraction < fractionSize := Nat.mod_lt _ (by decide)

theorem significand_lt (x : Binary64) : x.significand < 2 * fractionSize := by
  have hf := x.fraction_lt
  unfold significand
  split <;> omega

theorem units_eq_zero : x.units = 0 ↔ x.isZero = true := by
  have hsize : 0 < fractionSize := by decide
  simp only [units, significand, isZero, Nat.mul_eq_zero, Nat.pow_eq_zero, Bool.and_eq_true, beq_iff_eq]
  split <;> omega

theorem units_lt_of_lt (h : max x.exponentField 1 < max y.exponentField 1) : x.units < y.units := by
  have full : fractionSize ≤ y.significand := by
    have hy : y.exponentField ≠ 0 := by omega
    rw [significand, if_neg hy]
    exact Nat.le_add_right _ _
  calc x.units < 2 * fractionSize * 2 ^ max x.exponentField 1 :=
        Nat.mul_lt_mul_of_pos_right x.significand_lt (Nat.two_pow_pos _)
    _ = fractionSize * 2 ^ (max x.exponentField 1 + 1) := by ring
    _ ≤ y.units := Nat.mul_le_mul full (Nat.pow_le_pow_right (by decide) h)

theorem fields_eq_of_units_eq (h : x.units = y.units) :
    x.exponentField = y.exponentField ∧ x.fraction = y.fraction := by
  have exponent : max x.exponentField 1 = max y.exponentField 1 := by
    rcases Nat.lt_trichotomy (max x.exponentField 1) (max y.exponentField 1) with lt | eq | gt
    · exact absurd h (Nat.ne_of_lt (units_lt_of_lt lt))
    · exact eq
    · exact absurd h (Nat.ne_of_gt (units_lt_of_lt gt))
  have same : x.significand = y.significand := by
    rw [units, units, exponent] at h
    exact Nat.eq_of_mul_eq_mul_right (Nat.two_pow_pos _) h
  have hx := x.fraction_lt
  have hy := y.fraction_lt
  unfold significand at same
  split at same <;> split at same <;> omega

theorem value_eq (x : Binary64) :
    x.value = (if x.isNegative then -1 else 1) * x.units * 2 ^ (-1075 : ℤ) := by
  rw [value, exponent, sub_eq_add_neg, zpow_add₀ two_ne_zero, zpow_natCast, units, Nat.cast_mul,
    Nat.cast_pow, Nat.cast_ofNat]
  simp only [mul_assoc]

theorem value_eq_iff : x.value = y.value ↔
    (if x.isNegative then -1 else 1 : ℤ) * x.units = (if y.isNegative then -1 else 1) * y.units := by
  have unit : (2 : ℚ) ^ (-1075 : ℤ) ≠ 0 := zpow_ne_zero _ two_ne_zero
  rw [value_eq, value_eq, mul_left_inj' unit]
  exact_mod_cast Iff.rfl

theorem value_eq_iff_same : x.value = y.value ↔ x = y ∨ x.isZero = true ∧ y.isZero = true := by
  rw [value_eq_iff]
  constructor
  · intro h
    have parts : x.units = y.units ∧ (x.units = 0 ∨ x.isNegative = y.isNegative) := by
      cases hx : x.isNegative <;> cases hy : y.isNegative <;> simp [hx, hy] at h ⊢ <;> omega
    obtain ⟨same, zero | sign⟩ := parts
    · exact .inr ⟨units_eq_zero.1 zero, units_eq_zero.1 (same ▸ zero)⟩
    · obtain ⟨exponent, fraction⟩ := fields_eq_of_units_eq same
      exact .inl (eq_of_fields sign exponent fraction)
  · rintro (rfl | ⟨hx, hy⟩)
    · rfl
    · rw [units_eq_zero.2 hx, units_eq_zero.2 hy]
      simp

theorem isNaN_eq_false_iff : x.isNaN = false ↔ x.isFinite = true ∨ x.isInfinite = true := by
  simp only [isNaN, isFinite, isInfinite, Bool.and_eq_false_iff, Bool.and_eq_true, beq_eq_false_iff_ne,
    bne_iff_ne, bne_eq_false_iff_eq, beq_iff_eq]
  tauto

theorem isFinite_of_isZero (h : x.isZero = true) : x.isFinite = true := by
  simp only [isZero, Bool.and_eq_true, beq_iff_eq] at h
  rw [isFinite, h.1]
  decide

theorem eq_of_isInfinite (hx : x.isInfinite = true) (hy : y.isInfinite = true)
    (sign : x.isNegative = y.isNegative) : x = y := by
  simp only [isInfinite, Bool.and_eq_true, beq_iff_eq] at hx hy
  exact eq_of_fields sign (hx.1.trans hy.1.symm) (hx.2.trans hy.2.symm)

/-- Numbers are the same if they are the same infinity or denote the same finite number. -/
theorem same_iff_value_eq : x.same y = true ↔
    (x.isInfinite = true ∧ y.isInfinite = true ∧ x.isNegative = y.isNegative) ∨
      (x.isFinite = true ∧ y.isFinite = true ∧ x.value = y.value) := by
  rw [same_iff, value_eq_iff_same, isNaN_eq_false_iff, isNaN_eq_false_iff]
  constructor
  · rintro ⟨finite | infinite, -, rfl | ⟨zx, zy⟩⟩
    · exact .inr ⟨finite, finite, .inl rfl⟩
    · exact .inr ⟨finite, isFinite_of_isZero zy, .inr ⟨zx, zy⟩⟩
    · exact .inl ⟨infinite, infinite, rfl⟩
    · exact .inr ⟨isFinite_of_isZero zx, isFinite_of_isZero zy, .inr ⟨zx, zy⟩⟩
  · rintro (⟨hx, hy, sign⟩ | ⟨hx, hy, same⟩)
    · exact ⟨.inr hx, .inr hy, .inl (eq_of_isInfinite hx hy sign)⟩
    · exact ⟨.inl hx, .inl hy, same⟩

end PhaseTree.Binary64
