import Mathlib.Algebra.Group.Nat.Defs

set_option autoImplicit false

namespace PhaseTree

def utf8 (text : String) : List UInt8 := text.toUTF8.data.toList

theorem utf8_eq (text : String) :
    text.toUTF8.data.toList = text.toList.flatMap String.utf8EncodeChar := by
  rw [String.toUTF8_eq_toByteArray, ← String.utf8Encode_toList, List.utf8Encode,
    List.data_toByteArray]

section

variable {α β : Type} [Ord α] [Ord β]

theorem compare_append_left [Std.ReflOrd α] (xs ys zs : List α) :
    compare (xs ++ ys) (xs ++ zs) = compare ys zs := by
  induction xs with
  | nil => rfl
  | cons x xs ih =>
    rw [List.cons_append, List.cons_append, List.compare_cons_cons, Std.ReflOrd.compare_self, ih]
    rfl

theorem compare_map {f : α → β} (h : ∀ x y, compare (f x) (f y) = compare x y) (xs ys : List α) :
    compare (xs.map f) (ys.map f) = compare xs ys := by
  induction xs generalizing ys with
  | nil => cases ys <;> rfl
  | cons x xs ih =>
    cases ys with
    | nil => rfl
    | cons y ys =>
      rw [List.map_cons, List.map_cons, List.compare_cons_cons, List.compare_cons_cons, h, ih]

end

namespace Utf8

/-- A number in base 64. The first byte starts at `mark`; `count` more bytes hold one digit each. -/
def spell (mark : Nat) : (count number : Nat) → List UInt8
  | 0, n => [UInt8.ofNat (n + mark)]
  | count + 1, n => spell mark count (n / 64) ++ [UInt8.ofNat (n % 64 + 0x80)]

/-- How a scalar value is spelled depends on its size. -/
inductive Form : (mark count number : Nat) → Prop where
  | one {n : Nat} (high : n ≤ 0x7f) : Form 0 0 n
  | two {n : Nat} (low : 0x7f < n) (high : n ≤ 0x7ff) : Form 0xc0 1 n
  | three {n : Nat} (low : 0x7ff < n) (high : n ≤ 0xffff) : Form 0xe0 2 n
  | four {n : Nat} (low : 0xffff < n) (high : n ≤ 0x10ffff) : Form 0xf0 3 n

variable {mark mark' count count' m n : Nat}

theorem exists_form (c : Char) :
    ∃ mark count, Form mark count c.toNat ∧ String.utf8EncodeChar c = spell mark count c.toNat := by
  have valid : c.toNat < 0xd800 ∨ 0xdfff < c.toNat ∧ c.toNat < 0x110000 := c.valid
  unfold String.utf8EncodeChar
  rcases Nat.lt_or_ge 0x7f c.toNat with one | one
  · rcases Nat.lt_or_ge 0x7ff c.toNat with two | two
    · rcases Nat.lt_or_ge 0xffff c.toNat with three | three
      · refine ⟨_, _, .four three (by omega), ?_⟩
        have small : c.toNat / 262144 < 8 := by omega
        simp [spell, Nat.not_le.2, one, two, three, Nat.div_div_eq_div_mul, Nat.mod_eq_of_lt small]
      · refine ⟨_, _, .three two three, ?_⟩
        have small : c.toNat / 4096 < 16 := by omega
        simp [spell, Nat.not_le.2, one, two, three, Nat.div_div_eq_div_mul, Nat.mod_eq_of_lt small]
    · refine ⟨_, _, .two one two, ?_⟩
      have small : c.toNat / 64 < 32 := by omega
      simp [spell, Nat.not_le.2, one, two, Nat.mod_eq_of_lt small]
  · refine ⟨_, _, .one one, ?_⟩
    simp [spell, one]

theorem exists_spell_eq (mark count n : Nat) :
    ∃ rest, spell mark count n = UInt8.ofNat (n / 64 ^ count + mark) :: rest := by
  induction count generalizing n with
  | zero => exact ⟨[], by simp [spell]⟩
  | succ count ih =>
    obtain ⟨rest, hr⟩ := ih (n / 64)
    rw [Nat.div_div_eq_div_mul, ← Nat.pow_succ'] at hr
    exact ⟨_, by rw [spell, hr, List.cons_append]⟩

theorem compare_cons_ofNat (hlt : m < n) (fits : n < 256) (xs ys : List UInt8) :
    compare (UInt8.ofNat m :: xs) (UInt8.ofNat n :: ys) = .lt := by
  have first : compare (UInt8.ofNat m) (UInt8.ofNat n) = .lt :=
    Std.compare_eq_lt.2 ((UInt8.ofNat_lt_iff_lt (Nat.lt_trans hlt fits) fits).2 hlt)
  rw [List.compare_cons_cons, first]
  rfl

theorem compare_spell (hlt : m < n) (fits : n / 64 ^ count + mark < 256) (xs ys : List UInt8) :
    compare (spell mark count m ++ xs) (spell mark count n ++ ys) = .lt := by
  induction count generalizing m n xs ys with
  | zero =>
    have fits : n + mark < 256 := by simpa using fits
    exact compare_cons_ofNat (Nat.add_lt_add_right hlt mark) fits xs ys
  | succ count ih =>
    rw [spell, spell, List.append_assoc, List.append_assoc]
    rcases Nat.lt_or_ge (m / 64) (n / 64) with higher | same
    · refine ih higher ?_ _ _
      rwa [Nat.div_div_eq_div_mul, ← Nat.pow_succ']
    · have hm : m / 64 = n / 64 := Nat.le_antisymm (Nat.div_le_div_right (Nat.le_of_lt hlt)) same
      rw [hm, compare_append_left]
      exact compare_cons_ofNat (by omega) (by omega) xs ys

theorem Form.first_lt (h : Form mark count n) : n / 64 ^ count + mark < 256 := by
  cases h <;> omega

theorem Form.same_or_lt (h : Form mark count m) (h' : Form mark' count' n) (hlt : m < n) :
    (mark = mark' ∧ count = count') ∨ m / 64 ^ count + mark < n / 64 ^ count' + mark' := by
  cases h <;> cases h' <;> omega

theorem compare_char {c d : Char} (h : c < d) (xs ys : List UInt8) :
    compare (String.utf8EncodeChar c ++ xs) (String.utf8EncodeChar d ++ ys) = .lt := by
  obtain ⟨mark, count, hc, ec⟩ := exists_form c
  obtain ⟨mark', count', hd, ed⟩ := exists_form d
  have hlt : c.toNat < d.toNat := h
  rw [ec, ed]
  rcases hc.same_or_lt hd hlt with ⟨rfl, rfl⟩ | first
  · exact compare_spell hlt hd.first_lt xs ys
  · obtain ⟨more, em⟩ := exists_spell_eq mark count c.toNat
    obtain ⟨more', em'⟩ := exists_spell_eq mark' count' d.toNat
    rw [em, em']
    exact compare_cons_ofNat first hd.first_lt _ _

theorem exists_utf8EncodeChar_eq_cons (c : Char) : ∃ first rest, String.utf8EncodeChar c = first :: rest := by
  obtain ⟨mark, count, -, ec⟩ := exists_form c
  obtain ⟨rest, er⟩ := exists_spell_eq mark count c.toNat
  exact ⟨_, rest, ec.trans er⟩

theorem compare_flatMap (cs ds : List Char) :
    compare (cs.flatMap String.utf8EncodeChar) (ds.flatMap String.utf8EncodeChar) = compare cs ds := by
  induction cs generalizing ds with
  | nil =>
    cases ds with
    | nil => rfl
    | cons d ds =>
      obtain ⟨first, rest, ed⟩ := exists_utf8EncodeChar_eq_cons d
      rw [List.flatMap_cons, ed]
      rfl
  | cons c cs ih =>
    cases ds with
    | nil =>
      obtain ⟨first, rest, ec⟩ := exists_utf8EncodeChar_eq_cons c
      rw [List.flatMap_cons, ec]
      rfl
    | cons d ds =>
      rw [List.compare_cons_cons, List.flatMap_cons, List.flatMap_cons]
      cases order : compare c d with
      | lt => exact compare_char (compareOfLessAndEq_eq_lt.1 order) _ _
      | eq =>
        rw [Std.LawfulEqOrd.eq_of_compare order, compare_append_left, ih]
        rfl
      | gt =>
        have order := Std.OrientedCmp.gt_iff_lt.1 order
        exact Std.OrientedCmp.gt_iff_lt.2 (compare_char (compareOfLessAndEq_eq_lt.1 order) _ _)

end Utf8

theorem compare_utf8 (s t : String) : compare (utf8 s) (utf8 t) = compare s.toList t.toList := by
  rw [utf8, utf8, utf8_eq, utf8_eq, Utf8.compare_flatMap]

theorem compare_eq_lt_iff (cs ds : List Char) : compare cs ds = .lt ↔ cs < ds := by
  induction cs generalizing ds with
  | nil => cases ds <;> simp [List.compare_nil_cons]
  | cons c cs ih =>
    cases ds with
    | nil => simp [List.compare_cons_nil]
    | cons d ds =>
      rw [List.compare_cons_cons, Ordering.then_eq_lt, List.cons_lt_cons_iff, ih,
        Std.compare_eq_eq_iff_eq]
      exact or_congr_left compareOfLessAndEq_eq_lt

theorem compare_toList (s t : String) : compare s.toList t.toList = compare s t := by
  have lt_iff : ∀ s t : String, compare s.toList t.toList = .lt ↔ compare s t = .lt := by
    intro s t
    rw [compare_eq_lt_iff, ← String.lt_iff]
    exact compareOfLessAndEq_eq_lt.symm
  cases order : compare s t with
  | lt => exact (lt_iff s t).2 order
  | eq => rw [Std.LawfulEqOrd.eq_of_compare order, Std.ReflOrd.compare_self]
  | gt => exact Std.OrientedCmp.gt_iff_lt.2 ((lt_iff t s).2 (Std.OrientedCmp.gt_iff_lt.1 order))

end PhaseTree
