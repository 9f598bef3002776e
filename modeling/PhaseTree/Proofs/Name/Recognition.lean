import Mathlib.Data.List.Nodup
import PhaseTree.Name.WellKnown
import PhaseTree.Proofs.Name.Tuples

set_option autoImplicit false

namespace PhaseTree

namespace Reserved

theorem isTupleName_iff_append (name : String) : isTupleName name = true ↔
    ∃ digits : String, digits ≠ "" ∧ digits.toList.all Char.isDigit = true ∧
      name = tupleStem ++ digits := by
  rw [isTupleName_iff]
  simp only [isNumeral_iff, ← List.all_eq_true]
  constructor
  · rintro ⟨digits, spelled, ne, all⟩
    refine ⟨String.ofList digits, ?_, ?_, String.toList_inj.1 ?_⟩
    · rwa [Ne, String.ofList_eq_empty_iff]
    · rwa [String.toList_ofList]
    · rw [spelled, String.toList_append, String.toList_ofList]
  · rintro ⟨digits, ne, all, rfl⟩
    exact ⟨digits.toList, String.toList_append, mt String.toList_eq_nil_iff.1 ne, all⟩

end Reserved

namespace QualifiedName

def libraryTypes : List QualifiedName :=
  [exported ["Maybe"] "Maybe", exported ["Array"] "Array", exported ["Task"] "Task",
    exported ["Signal"] "Signal", exported ["Json", "Encode"] "Value", exported ["List"] "List"]

theorem nodup_libraryTypes : libraryTypes.Nodup := by decide

theorem origin_ne_of_mem_libraryTypes : ∀ known ∈ libraryTypes, known.origin ≠ .builtIn := by decide

theorem isFrom_eq_beq (path : List String) (name : String) (found : QualifiedName) :
    found.isFrom path name = (exported path name == found) := by
  rw [Bool.eq_iff_iff, isFrom_iff, beq_iff_eq, eq_comm]

theorem count_libraryTypes (found : QualifiedName) :
    [found.isMaybe, found.isArray, found.isTask, found.isSignal, found.isJson,
      found.isList].count true = libraryTypes.count found := by
  have answers : [found.isMaybe, found.isArray, found.isTask, found.isSignal, found.isJson,
      found.isList] = libraryTypes.map (· == found) := by
    simp only [isMaybe, isArray, isTask, isSignal, isJson, isList, isFrom_eq_beq]
    rfl
  rw [answers, List.count, List.countP_map, List.count]
  refine List.countP_congr fun known _ => ?_
  simp

theorem builtIn_and_iff (accepts : String → Bool) (found : QualifiedName) :
    (found.origin == .builtIn && accepts found.name) = true ↔
      ∃ name, accepts name = true ∧ found = builtIn name := by
  rw [Bool.and_eq_true, beq_iff_eq]
  constructor
  · rintro ⟨origin, accepted⟩
    exact ⟨found.name, accepted, congrArg (QualifiedName.mk · found.name) origin⟩
  · rintro ⟨name, accepted, rfl⟩
    exact ⟨rfl, accepted⟩

theorem isPrimitive_iff (found : QualifiedName) :
    found.isPrimitive = true ↔ ∃ name ∈ primitives, found = builtIn name := by
  rw [isPrimitive, builtIn_and_iff]
  simp only [List.contains_iff_mem]

theorem isTuple_iff (found : QualifiedName) :
    found.isTuple = true ↔ ∃ digits : String, digits ≠ "" ∧ digits.toList.all Char.isDigit = true ∧
      found = builtIn (Reserved.tupleStem ++ digits) := by
  rw [isTuple, builtIn_and_iff]
  constructor
  · rintro ⟨name, tuple, same⟩
    obtain ⟨digits, ne, all, rfl⟩ := (Reserved.isTupleName_iff_append name).1 tuple
    exact ⟨digits, ne, all, same⟩
  · rintro ⟨digits, ne, all, same⟩
    exact ⟨_, (Reserved.isTupleName_iff_append _).2 ⟨digits, ne, all, rfl⟩, same⟩

theorem isTupleName_of_mem_primitives :
    ∀ name ∈ primitives, Reserved.isTupleName name = false := by decide

theorem isTuple_of_isPrimitive {found : QualifiedName} (h : found.isPrimitive = true) :
    found.isTuple = false := by
  obtain ⟨name, known, rfl⟩ := (isPrimitive_iff found).1 h
  exact isTupleName_of_mem_primitives name known

theorem count_compilerTypes (found : QualifiedName) :
    [found.isPrimitive, found.isTuple].count true ≤ 1 := by
  cases primitive : found.isPrimitive with
  | false =>
    rw [List.count_cons_of_ne (by decide)]
    exact List.count_le_length
  | true =>
    rw [isTuple_of_isPrimitive primitive]
    decide

theorem count_compilerTypes_of_origin_ne {found : QualifiedName} (h : found.origin ≠ .builtIn) :
    [found.isPrimitive, found.isTuple].count true = 0 := by
  have elsewhere : (found.origin == .builtIn) = false := beq_eq_false_iff_ne.2 h
  rw [isPrimitive, isTuple, elsewhere]
  rfl

/-- The origin decides which of the two groups can apply. -/
theorem count_wellKnown (found : QualifiedName) :
    [found.isMaybe, found.isArray, found.isTask, found.isSignal, found.isJson, found.isList,
      found.isPrimitive, found.isTuple].count true ≤ 1 := by
  change ([found.isMaybe, found.isArray, found.isTask, found.isSignal, found.isJson, found.isList] ++
    [found.isPrimitive, found.isTuple]).count true ≤ 1
  rw [List.count_append, count_libraryTypes]
  by_cases origin : found.origin = .builtIn
  · have unlisted : libraryTypes.count found = 0 :=
      List.count_eq_zero.2 fun listed => origin_ne_of_mem_libraryTypes found listed origin
    rw [unlisted, Nat.zero_add]
    exact count_compilerTypes found
  · rw [count_compilerTypes_of_origin_ne origin]
    exact List.nodup_iff_count_le_one.1 nodup_libraryTypes found

theorem wellKnown_exact_and_exclusive (found : QualifiedName) :
    (found.isMaybe = true ↔ found = exported ["Maybe"] "Maybe") ∧
    (found.isArray = true ↔ found = exported ["Array"] "Array") ∧
    (found.isTask = true ↔ found = exported ["Task"] "Task") ∧
    (found.isSignal = true ↔ found = exported ["Signal"] "Signal") ∧
    (found.isJson = true ↔ found = exported ["Json", "Encode"] "Value") ∧
    (found.isList = true ↔ found = exported ["List"] "List") ∧
    (found.isPrimitive = true ↔
      ∃ name ∈ ["Int", "Float", "String", "Bool", "Char"], found = builtIn name) ∧
    (found.isTuple = true ↔ ∃ digits : String, digits ≠ "" ∧
      digits.toList.all Char.isDigit = true ∧ found = builtIn ("_Tuple" ++ digits)) ∧
    [found.isMaybe, found.isArray, found.isTask, found.isSignal, found.isJson, found.isList,
      found.isPrimitive, found.isTuple].count true ≤ 1 ∧
    ∀ (path : ModulePath) (segments : List String),
      path.isAt segments = true ↔ path.segments = segments :=
  ⟨isFrom_iff _ _ found, isFrom_iff _ _ found, isFrom_iff _ _ found, isFrom_iff _ _ found,
    isFrom_iff _ _ found, isFrom_iff _ _ found, isPrimitive_iff found, isTuple_iff found,
    count_wellKnown found, ModulePath.isAt_iff⟩

-- A path that goes on, names of modules that look like the compiler's own, and a numeral that no tuple is
-- named with.
example : (exported ["Maybe", "Extra"] "Maybe").isMaybe = false ∧
    (exported ["Basics"] "Int").isPrimitive = false ∧ (exported ["Basics"] "_Tuple2").isTuple = false ∧
    (builtIn "_Tuple").isTuple = false ∧ (builtIn "_Tuple02").isTuple = true := by decide

end QualifiedName

end PhaseTree
