import Mathlib.Data.Multiset.Fold
import PhaseTree.Span

set_option autoImplicit false

/-!
Spans under merging are a semilattice with the marker at its bottom. Whether the ends of a span are in
order plays no part: the marker starts at the last offset and stops at the first one, so that the hull of
both ends ignores it of its own accord. A merge of many spans is therefore a matter of their set.
-/

namespace PhaseTree.Span

def IsForward (span : Span) : Prop := span.start ≤ span.stop

def Covers (outer inner : Span) : Prop := outer.start ≤ inner.start ∧ inner.stop ≤ outer.stop

def hull (a b : Span) : Span := ⟨min a.start b.start, max a.stop b.stop⟩

theorem eq_of_toNat_eq {a b : Span} (hstart : a.start.toNat = b.start.toNat)
    (hstop : a.stop.toNat = b.stop.toNat) : a = b := by
  cases a
  cases b
  exact congr (congrArg Span.mk (UInt32.toNat_inj.1 hstart)) (UInt32.toNat_inj.1 hstop)

theorem toNat_start_hull (a b : Span) :
    (a.hull b).start.toNat = min a.start.toNat b.start.toNat :=
  UInt32.toNat_min a.start b.start

theorem toNat_stop_hull (a b : Span) : (a.hull b).stop.toNat = max a.stop.toNat b.stop.toNat :=
  UInt32.toNat_max a.stop b.stop

theorem hull_comm (a b : Span) : a.hull b = b.hull a := by
  refine eq_of_toNat_eq ?_ ?_
  · rw [toNat_start_hull, toNat_start_hull, Nat.min_comm]
  · rw [toNat_stop_hull, toNat_stop_hull, Nat.max_comm]

theorem hull_assoc (a b c : Span) : (a.hull b).hull c = a.hull (b.hull c) := by
  refine eq_of_toNat_eq ?_ ?_
  · simp only [toNat_start_hull, Nat.min_assoc]
  · simp only [toNat_stop_hull, Nat.max_assoc]

theorem hull_self (a : Span) : a.hull a = a := by
  refine eq_of_toNat_eq ?_ ?_
  · rw [toNat_start_hull, Nat.min_self]
  · rw [toNat_stop_hull, Nat.max_self]

theorem synthetic_hull (a : Span) : synthetic.hull a = a := by
  refine eq_of_toNat_eq ?_ ?_
  · have last := Nat.le_of_lt_succ a.start.toNat_lt
    rw [toNat_start_hull]
    exact Nat.min_eq_right last
  · rw [toNat_stop_hull]
    exact Nat.max_eq_right (Nat.zero_le _)

/-- The cases of the marker are no exception to the hull. -/
theorem merge_eq_hull (a b : Span) : a.merge b = a.hull b := by
  rw [merge]
  split
  · rename_i ha
    rw [(isSynthetic_iff a).1 ha, synthetic_hull]
  · split
    · rename_i hb
      rw [(isSynthetic_iff b).1 hb, hull_comm, synthetic_hull]
    · rfl

theorem synthetic_merge (a : Span) : synthetic.merge a = a := by rw [merge_eq_hull, synthetic_hull]

theorem merge_synthetic (a : Span) : a.merge synthetic = a := by
  rw [merge_eq_hull, hull_comm, synthetic_hull]

instance : Std.Commutative merge where
  comm a b := by rw [merge_eq_hull, merge_eq_hull, hull_comm]

instance : Std.Associative merge where
  assoc a b c := by simp only [merge_eq_hull, hull_assoc]

instance : Std.IdempotentOp merge where
  idempotent a := by rw [merge_eq_hull, hull_self]

instance : Std.LawfulIdentity merge synthetic where
  left_id := synthetic_merge
  right_id := merge_synthetic

theorem covers_merge_iff (a b c : Span) : c.Covers (a.merge b) ↔ c.Covers a ∧ c.Covers b := by
  simp only [Covers, UInt32.le_iff_toNat_le, merge_eq_hull, toNat_start_hull, toNat_stop_hull]
  omega

theorem covers_self (a : Span) : a.Covers a := ⟨UInt32.le_refl _, UInt32.le_refl _⟩

theorem covers_synthetic_iff (a : Span) : synthetic.Covers a ↔ a.isSynthetic = true := by
  have last := a.start.toNat_lt
  rw [isSynthetic_iff]
  constructor
  · rintro ⟨hstart, hstop⟩
    rw [UInt32.le_iff_toNat_le] at hstart hstop
    exact eq_of_toNat_eq (Nat.le_antisymm (Nat.le_of_lt_succ last) hstart) (Nat.le_zero.1 hstop)
  · rintro rfl
    exact covers_self _

theorem isSynthetic_merge (a b : Span) :
    (a.merge b).isSynthetic = true ↔ a.isSynthetic = true ∧ b.isSynthetic = true := by
  rw [← covers_synthetic_iff, covers_merge_iff, covers_synthetic_iff, covers_synthetic_iff]

theorem IsForward.merge {a b : Span} (ha : a.IsForward) (hb : b.IsForward) :
    (a.merge b).IsForward := by
  simp only [IsForward, UInt32.le_iff_toNat_le, merge_eq_hull, toNat_start_hull,
    toNat_stop_hull] at ha hb ⊢
  omega

/-- A merge of any number of spans, with the order and the grouping in which they are merged. -/
inductive Merging where
  | nothing
  | one (span : Span)
  | both (first second : Merging)

namespace Merging

def result : Merging → Span
  | nothing => synthetic
  | one span => span
  | both first second => first.result.merge second.result

def spans : Merging → List Span
  | nothing => []
  | one span => [span]
  | both first second => first.spans ++ second.spans

theorem result_eq_fold (m : Merging) :
    m.result = (m.spans : Multiset Span).fold merge synthetic := by
  induction m with
  | nothing => rfl
  | one span => exact (merge_synthetic span).symm
  | both first second ih ih' =>
    have joined := Multiset.fold_add merge synthetic synthetic (first.spans : Multiset Span) second.spans
    rw [synthetic_merge, Multiset.coe_add] at joined
    rw [result, ih, ih']
    exact joined.symm

/-- Which spans take part decides the result, and neither their order, nor their grouping, nor how often
each of them does. -/
theorem result_congr {m m' : Merging} (h : ∀ span, span ∈ m.spans ↔ span ∈ m'.spans) :
    m.result = m'.result := by
  have same : (m.spans : Multiset Span).dedup = (m'.spans : Multiset Span).dedup :=
    Multiset.dedup_ext.2 h
  rw [result_eq_fold, result_eq_fold, ← Multiset.fold_dedup_idem, same, Multiset.fold_dedup_idem]

end Merging

theorem merge_semilattice :
    (Std.Commutative merge ∧ Std.Associative merge ∧ Std.IdempotentOp merge ∧
      Std.LawfulIdentity merge synthetic) ∧
    (∀ a b : Span, a.merge b = ⟨min a.start b.start, max a.stop b.stop⟩ ∧
      ((a.merge b).isSynthetic = true ↔ a.isSynthetic = true ∧ b.isSynthetic = true)) ∧
    (∀ m m' : Merging, (∀ span, span ∈ m.spans ↔ span ∈ m'.spans) → m.result = m'.result) ∧
    ∀ a b : Span, (a.IsForward → b.IsForward → (a.merge b).IsForward) ∧
      (a.merge b).Covers a ∧ (a.merge b).Covers b ∧
        ∀ c : Span, c.Covers a → c.Covers b → c.Covers (a.merge b) := by
  refine ⟨⟨inferInstance, inferInstance, inferInstance, inferInstance⟩, fun a b => ?_,
    fun _ _ => Merging.result_congr, fun a b => ?_⟩
  · exact ⟨merge_eq_hull a b, isSynthetic_merge a b⟩
  · obtain ⟨ha, hb⟩ := (covers_merge_iff a b _).1 (covers_self _)
    exact ⟨.merge, ha, hb, fun c ha hb => (covers_merge_iff a b c).2 ⟨ha, hb⟩⟩

theorem merge_semilattice_reordered :
    let a : Span := ⟨3, 7⟩
    let b : Span := ⟨5, 9⟩
    let reversed : Span := ⟨8, 2⟩
    let m : Merging := .both (.both (.one a) (.one b)) (.one reversed)
    let m' : Merging := .both (.one reversed) (.both (.one b) (.both (.one a) (.one b)))
    (∀ span, span ∈ m.spans ↔ span ∈ m'.spans) ∧ m.result = m'.result ∧ m.result = ⟨3, 9⟩ ∧
      a.IsForward ∧ b.IsForward ∧ (a.merge b).IsForward := by
  intro a b reversed m m'
  have members : ∀ span, span ∈ m.spans ↔ span ∈ m'.spans := by
    intro span
    simp only [m, m', Merging.spans, List.cons_append, List.nil_append, List.mem_cons,
      List.not_mem_nil, or_false]
    tauto
  have ha : a.IsForward := UInt32.le_iff_toNat_le.2 (by decide)
  have hb : b.IsForward := UInt32.le_iff_toNat_le.2 (by decide)
  obtain ⟨-, -, regroup, bounds⟩ := merge_semilattice
  exact ⟨members, regroup m m' members, by decide, ha, hb, (bounds a b).1 ha hb⟩

end PhaseTree.Span
