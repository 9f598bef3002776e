import Mathlib.Data.List.Basic
import PhaseTree.Name.Order

set_option autoImplicit false

namespace PhaseTree

def Origin.IsSilent (origin : Origin) : Prop := ∀ path, origin ≠ .exported path

theorem Origin.eq_or_isSilent {origin origin' : Origin}
    (h : ∀ path, origin = .exported path → path.segments ≠ [])
    (h' : ∀ path, origin' = .exported path → path.segments ≠ [])
    (same : origin.path.segments = origin'.path.segments) :
    origin = origin' ∨ origin.IsSilent ∧ origin'.IsSilent := by
  cases origin with
  | exported path =>
    cases origin' with
    | exported path' =>
      cases path
      cases path'
      exact .inl (congrArg (Origin.exported ⟨·⟩) same)
    | builtIn | enclosing => exact absurd same (h path rfl)
  | builtIn | enclosing =>
    cases origin' with
    | exported path' => exact absurd same.symm (h' path' rfl)
    | builtIn | enclosing => exact .inr ⟨nofun, nofun⟩

namespace QualifiedName

/-- Dots stand between the parts only, and there is a module in front of the name if it has an origin that
is shown. -/
structure IsDotFree (name : QualifiedName) : Prop where
  bare : '.' ∉ name.name.toList
  segments : ∀ path, name.origin = .exported path → ∀ segment ∈ path.segments, '.' ∉ segment.toList
  segments_ne_nil : ∀ path, name.origin = .exported path → path.segments ≠ []

def parts (name : QualifiedName) : List String := name.origin.path.segments ++ [name.name]

theorem display_of_isSilent {name : QualifiedName} (h : name.origin.IsSilent) :
    name.display = name.name := by
  rcases name with ⟨⟨⟩ | path | ⟨⟩, name⟩
  · rfl
  · exact absurd rfl (h path)
  · rfl

theorem display_eq_intercalate {name : QualifiedName} (h : name.IsDotFree) :
    name.display = ".".intercalate name.parts := by
  rcases name with ⟨⟨⟩ | path | ⟨⟩, name⟩
  · exact String.intercalate_singleton.symm
  · have parts := String.intercalate_append_of_ne_nil (s := ".") (h.segments_ne_nil path rfl)
      (List.cons_ne_nil name [])
    rw [String.intercalate_singleton] at parts
    exact parts.symm
  · exact String.intercalate_singleton.symm

theorem IsDotFree.notMem {name : QualifiedName} (h : name.IsDotFree) :
    ∀ part ∈ name.parts, '.' ∉ part.toList := by
  refine List.forall_mem_append.2 ⟨?_, List.forall_mem_singleton.2 h.bare⟩
  rcases name with ⟨⟨⟩ | path | ⟨⟩, name⟩
  · exact fun _ => nofun
  · exact h.segments path rfl
  · exact fun _ => nofun

theorem splitOn_display {name : QualifiedName} (h : name.IsDotFree) :
    name.display.toList.splitOn '.' = name.parts.map String.toList := by
  rw [display_eq_intercalate h, String.toList_intercalate]
  refine List.splitOn_intercalate '.' (List.forall_mem_map.2 h.notMem) ?_
  simp [parts]

theorem parts_eq_of_display_eq {name name' : QualifiedName} (h : name.IsDotFree) (h' : name'.IsDotFree)
    (same : name.display = name'.display) : name.parts = name'.parts := by
  have toList_inj : Function.Injective String.toList := fun _ _ => String.toList_inj.1
  refine toList_inj.list_map ?_
  rw [← splitOn_display h, ← splitOn_display h', same]

theorem display_eq_iff {name name' : QualifiedName} (h : name.IsDotFree) (h' : name'.IsDotFree) :
    name.display = name'.display ↔ name.name = name'.name ∧
      (name.origin = name'.origin ∨ name.origin.IsSilent ∧ name'.origin.IsSilent) := by
  constructor
  · intro same
    obtain ⟨paths, names⟩ := List.append_inj' (parts_eq_of_display_eq h h' same) rfl
    exact ⟨List.head_eq_of_cons_eq names,
      Origin.eq_or_isSilent h.segments_ne_nil h'.segments_ne_nil paths⟩
  · rintro ⟨names, origins | ⟨silent, silent'⟩⟩
    · cases name
      cases name'
      cases names
      cases origins
      rfl
    · rw [display_of_isSilent silent, display_of_isSilent silent', names]

theorem display_eq_iff_empty_segment :
    let a : QualifiedName := .exported ["Json", ""] "x"
    let b : QualifiedName := .exported ["Json"] ""
    let c : QualifiedName := .enclosing "x"
    let d : QualifiedName := .builtIn "x"
    a.IsDotFree ∧ b.IsDotFree ∧ c.IsDotFree ∧ d.IsDotFree ∧ a.display ≠ b.display ∧
      a.display ≠ c.display ∧ c.display = d.display := by
  intro a b c d
  have ha : a.IsDotFree := ⟨by decide, by rintro _ ⟨⟩; decide, by rintro _ ⟨⟩; decide⟩
  have hb : b.IsDotFree := ⟨by decide, by rintro _ ⟨⟩; decide, by rintro _ ⟨⟩; decide⟩
  have hc : c.IsDotFree := ⟨by decide, nofun, nofun⟩
  have hd : d.IsDotFree := ⟨by decide, nofun, nofun⟩
  refine ⟨ha, hb, hc, hd, fun same => ?_, fun same => ?_, (display_eq_iff hc hd).2 ⟨rfl, .inr ⟨nofun, nofun⟩⟩⟩
  · exact absurd ((display_eq_iff ha hb).1 same).1 (by decide)
  · rcases ((display_eq_iff ha hc).1 same).2 with origins | silent
    · exact absurd origins (by decide)
    · exact silent.1 _ rfl

-- What the assumption leaves out: a dot inside a segment, and a module without a path.
example : (exported ["Json.Encode"] "x").display = (exported ["Json", "Encode"] "x").display ∧
    (exported [] "x").display = (exported [""] "x").display := by decide

end QualifiedName

end PhaseTree
