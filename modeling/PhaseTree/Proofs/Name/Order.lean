import Mathlib.Tactic.Tauto
import PhaseTree.Name.Order
import PhaseTree.Proofs.Name.Bytes

set_option autoImplicit false

namespace PhaseTree

instance : Std.TransOrd ModulePath := inferInstanceAs (Std.TransCmp (compareOn ModulePath.segments))

instance : Std.LawfulEqOrd ModulePath where
  eq_of_compare {a b} h := by
    cases a
    cases b
    exact congrArg ModulePath.mk (Std.LawfulEqOrd.eq_of_compare h)

namespace Origin

theorem compare_eq (a b : Origin) :
    compare a b = (compare a.rank b.rank).then (compare a.path b.path) := rfl

/-- The rank tells the origins apart that have no path. -/
theorem eq_of_rank_eq {a b : Origin} (hrank : a.rank = b.rank) (hpath : a.path = b.path) : a = b := by
  cases a <;> cases b <;> simp_all [rank, path]

instance : Std.TransOrd Origin :=
  inferInstanceAs (Std.TransCmp (compareLex (compareOn Origin.rank) (compareOn Origin.path)))

instance : Std.LawfulEqOrd Origin where
  eq_of_compare {a b} h := by
    rw [compare_eq, Ordering.then_eq_eq] at h
    obtain ⟨hrank, hpath⟩ := h
    exact eq_of_rank_eq (Std.LawfulEqOrd.eq_of_compare hrank) (Std.LawfulEqOrd.eq_of_compare hpath)

end Origin

namespace QualifiedName

theorem compare_eq (a b : QualifiedName) :
    compare a b = (compare a.origin b.origin).then (compare a.name b.name) := rfl

instance : Std.TransOrd QualifiedName :=
  inferInstanceAs
    (Std.TransCmp (compareLex (compareOn QualifiedName.origin) (compareOn QualifiedName.name)))

instance : Std.LawfulEqOrd QualifiedName where
  eq_of_compare {a b} h := by
    rw [compare_eq, Ordering.then_eq_eq] at h
    obtain ⟨horigin, hname⟩ := h
    cases a
    cases b
    exact congr (congrArg QualifiedName.mk (Std.LawfulEqOrd.eq_of_compare horigin))
      (Std.LawfulEqOrd.eq_of_compare hname)

theorem compare_eq_bytes (a b : QualifiedName) :
    compare a b = (compare a.origin.rank b.origin.rank).then
      ((compare (a.origin.path.segments.map utf8) (b.origin.path.segments.map utf8)).then
        (compare (utf8 a.name) (utf8 b.name))) := by
  have bytes : ∀ s t : String, compare (utf8 s) (utf8 t) = compare s t := fun s t =>
    (compare_utf8 s t).trans (compare_toList s t)
  rw [compare_map bytes, bytes, ← Ordering.then_assoc]
  rfl

end QualifiedName

def Increasing (names : List QualifiedName) : Prop := names.Pairwise (compare · · = .lt)

theorem mem_insertName {name other : QualifiedName} {names : List QualifiedName} :
    other ∈ insertName name names ↔ other = name ∨ other ∈ names := by
  induction names with
  | nil => simp [insertName]
  | cons first rest ih =>
    rw [insertName]
    cases order : compare name first with
    | lt => exact List.mem_cons
    | eq =>
      rw [Std.LawfulEqOrd.eq_of_compare order, List.mem_cons, or_self_left]
    | gt =>
      rw [List.mem_cons, List.mem_cons, ih, or_left_comm]

theorem Increasing.insertName {name : QualifiedName} {names : List QualifiedName}
    (h : Increasing names) : Increasing (insertName name names) := by
  induction names with
  | nil => exact List.pairwise_singleton _ name
  | cons first rest ih =>
    obtain ⟨above, hrest⟩ := List.pairwise_cons.1 h
    rw [PhaseTree.insertName]
    cases order : compare name first with
    | lt =>
      refine List.pairwise_cons.2 ⟨fun other hm => ?_, h⟩
      rcases List.mem_cons.1 hm with rfl | hm
      · exact order
      · exact Std.TransCmp.lt_trans order (above other hm)
    | eq => exact h
    | gt =>
      refine List.pairwise_cons.2 ⟨fun other hm => ?_, ih hrest⟩
      rcases mem_insertName.1 hm with rfl | hm
      · exact Std.OrientedCmp.lt_of_gt order
      · exact above other hm

theorem increasing_nameSet (names : List QualifiedName) : Increasing (nameSet names) := by
  induction names with
  | nil => exact .nil
  | cons name names ih => exact ih.insertName

theorem mem_nameSet {name : QualifiedName} {names : List QualifiedName} :
    name ∈ nameSet names ↔ name ∈ names := by
  induction names with
  | nil => exact Iff.rfl
  | cons first names ih =>
    change name ∈ insertName first (nameSet names) ↔ _
    rw [mem_insertName, ih, List.mem_cons]

theorem Increasing.nodup {names : List QualifiedName} (h : Increasing names) : names.Nodup := by
  refine List.Pairwise.imp (fun {a b} lt same => ?_) h
  rw [same, Std.ReflOrd.compare_self] at lt
  contradiction

theorem Increasing.eq_of_mem_iff {names names' : List QualifiedName} (h : Increasing names)
    (h' : Increasing names') (same : ∀ name, name ∈ names ↔ name ∈ names') : names = names' := by
  refine List.Perm.eq_of_pairwise (fun a b _ _ lt gt => ?_) h h'
    ((List.perm_ext_iff_of_nodup h.nodup h'.nodup).2 same)
  exact absurd gt (Std.OrientedCmp.not_lt_of_lt lt)

theorem QualifiedName.ordered_with_canonical_sets :
    (∀ a b : QualifiedName, compare a b = (compare a.origin.rank b.origin.rank).then
      ((compare (a.origin.path.segments.map utf8) (b.origin.path.segments.map utf8)).then
        (compare (utf8 a.name) (utf8 b.name)))) ∧
    (∀ s t : String, compare (utf8 s) (utf8 t) = compare s.toList t.toList) ∧
    (∀ a : QualifiedName, (compare a a).isLE = true) ∧
    (∀ a b : QualifiedName, (compare a b).isLE = true → (compare b a).isLE = true → a = b) ∧
    (∀ a b c : QualifiedName, (compare a b).isLE = true → (compare b c).isLE = true →
      (compare a c).isLE = true) ∧
    (∀ a b : QualifiedName, (compare a b).isLE = true ∨ (compare b a).isLE = true) ∧
    (∀ a b : QualifiedName, compare a b = .eq ↔ (a == b) = true) ∧
    ∀ names : List QualifiedName, (nameSet names).Pairwise (compare · · = .lt) ∧
      (∀ name, name ∈ nameSet names ↔ name ∈ names) ∧
      ∀ names', (∀ name, name ∈ names ↔ name ∈ names') → nameSet names = nameSet names' := by
  refine ⟨compare_eq_bytes, compare_utf8, fun a => ?_, fun a b hab hba => ?_, fun a b c => ?_,
    fun a b => ?_, fun a b => ?_, fun names => ⟨increasing_nameSet names, fun _ => mem_nameSet, ?_⟩⟩
  · rw [Std.ReflOrd.compare_self]
    rfl
  · exact Std.LawfulEqOrd.eq_of_compare (Std.OrientedCmp.isLE_antisymm hab hba)
  · exact Std.TransOrd.isLE_trans
  · cases order : compare a b with
    | lt => exact .inl rfl
    | eq => exact .inl rfl
    | gt => exact .inr (by rw [Std.OrientedCmp.lt_of_gt order]; rfl)
  · rw [Std.compare_eq_eq_iff_eq, beq_iff_eq]
  · intro names' same
    refine (increasing_nameSet names).eq_of_mem_iff (increasing_nameSet names') fun name => ?_
    rw [mem_nameSet, mem_nameSet, same]

theorem QualifiedName.ordered_with_canonical_sets_repeated :
    let a : QualifiedName := .builtIn "z"
    let b : QualifiedName := .exported ["A"] "\uff5e"
    let c : QualifiedName := .exported ["A"] "😀"
    let d : QualifiedName := .exported ["A", ""] ""
    let e : QualifiedName := .enclosing "a"
    let names := [e, c, d, a, c, b]
    let names' := [b, a, b, c, d, e]
    (∀ name, name ∈ names ↔ name ∈ names') ∧ nameSet names = nameSet names' ∧
      nameSet names = [a, b, c, d, e] := by
  intro a b c d e names names'
  have members : ∀ name, name ∈ names ↔ name ∈ names' := by
    intro name
    simp only [names, names', List.mem_cons, List.not_mem_nil, or_false]
    tauto
  obtain ⟨-, -, -, -, -, -, -, sets⟩ := QualifiedName.ordered_with_canonical_sets
  exact ⟨members, (sets names).2.2 names' members, by decide +kernel⟩

end PhaseTree
