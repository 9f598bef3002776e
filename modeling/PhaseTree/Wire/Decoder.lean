import PhaseTree.Wire.Failure

set_option autoImplicit false

namespace PhaseTree.Wire

abbrev Bytes := List UInt8

abbrev Decoder (α : Type) := StateT Bytes (Except Failure) α

namespace Decoder

variable {α β : Type}

def byte : Decoder UInt8 := fun input =>
  match input with
  | [] => .error .unexpectedEnd
  | first :: rest => .ok (first, rest)

def block (count : Nat) : Decoder Bytes := fun input =>
  let taken := input.take count
  if taken.length = count then .ok (taken, input.drop count) else .error .unexpectedEnd

/-- Appends `count` items to those already decoded, which stand in reverse. The first item that fails
decides the failure. -/
def collect (item : Decoder α) : Nat → List α → Decoder (List α)
  | 0, done, input => .ok (done.reverse, input)
  | count + 1, done, input =>
    match item input with
    | .error failure => .error failure
    | .ok (value, rest) => collect item count (value :: done) rest

def repeated (item : Decoder α) (count : Nat) : Decoder (List α) := collect item count []

def complete (item : Decoder α) (input : Bytes) : Except Failure α :=
  match item input with
  | .error failure => .error failure
  | .ok (value, []) => .ok value
  | .ok (_, _ :: _) => .error (.malformed .trailing)

theorem block_append (taken rest : Bytes) :
    block taken.length (taken ++ rest) = .ok (taken, rest) := by
  simp [block]

theorem bind_ok_iff (first : Decoder α) (next : α → Decoder β) (input : Bytes) (value : β)
    (rest : Bytes) : (first >>= next) input = .ok (value, rest) ↔
      ∃ a middle, first input = .ok (a, middle) ∧ next a middle = .ok (value, rest) := by
  change (first input >>= fun read => next read.1 read.2) = _ ↔ _
  cases first input with
  | error failure => simp [bind, Except.bind]
  | ok read =>
    constructor
    · exact fun h => ⟨read.1, read.2, rfl, h⟩
    · rintro ⟨a, middle, h, h'⟩
      cases h
      exact h'

theorem bind_error_iff (first : Decoder α) (next : α → Decoder β) (input : Bytes)
    (failure : Failure) : (first >>= next) input = .error failure ↔
      first input = .error failure ∨
        ∃ a middle, first input = .ok (a, middle) ∧ next a middle = .error failure := by
  change (first input >>= fun read => next read.1 read.2) = _ ↔ _
  cases first input with
  | error cause => simp [bind, Except.bind]
  | ok read =>
    constructor
    · exact fun h => .inr ⟨read.1, read.2, rfl, h⟩
    · rintro (h | ⟨a, middle, h, h'⟩)
      · cases h
      · cases h
        exact h'

theorem pure_ok_iff (a : α) (input : Bytes) (value : α) (rest : Bytes) :
    (pure a : Decoder α) input = .ok (value, rest) ↔ a = value ∧ input = rest := by
  change Except.ok (a, input) = _ ↔ _
  rw [Except.ok.injEq, Prod.mk.injEq]

theorem block_ok_iff (count : Nat) (input taken rest : Bytes) :
    block count input = .ok (taken, rest) ↔ taken.length = count ∧ taken ++ rest = input := by
  constructor
  · intro h
    simp only [block] at h
    split at h
    · rename_i hl
      cases h
      exact ⟨hl, List.take_append_drop count input⟩
    · cases h
  · rintro ⟨rfl, rfl⟩
    exact block_append taken rest

theorem collect_eq (item : Decoder α) (count : Nat) (done : List α) :
    collect item count done = (done.reverse ++ ·) <$> collect item count [] := by
  induction count generalizing done with
  | zero =>
    funext input
    change Except.ok (done.reverse, input) = Except.ok (done.reverse ++ [], input)
    rw [List.append_nil]
  | succ count ih =>
    funext input
    change collect item (count + 1) done input =
      (collect item (count + 1) [] input >>= fun read => pure (done.reverse ++ read.1, read.2))
    rw [collect, collect]
    cases item input with
    | error failure => rfl
    | ok read =>
      change collect item count (read.1 :: done) read.2 =
        ((done.reverse ++ ·) <$> collect item count [read.1]) read.2
      rw [ih (read.1 :: done), ih [read.1], Functor.map_map]
      simp

theorem repeated_zero (item : Decoder α) : repeated item 0 = pure [] := rfl

/-- Without the accumulator: the first item, then the others. -/
theorem repeated_succ (item : Decoder α) (count : Nat) :
    repeated item (count + 1) = do
      let value ← item
      let values ← repeated item count
      return value :: values := by
  funext input
  change collect item (count + 1) [] input = (item input >>= fun read =>
    ((read.1 :: ·) <$> collect item count []) read.2)
  rw [collect]
  cases item input with
  | error failure => rfl
  | ok read => exact congrFun (collect_eq item count [read.1]) read.2

theorem complete_ok_iff (item : Decoder α) (input : Bytes) (value : α) :
    item.complete input = .ok value ↔ item input = .ok (value, []) := by
  unfold complete
  split <;> simp_all

/-- A decoder that succeeds too early fails as a whole. -/
theorem complete_error_iff (item : Decoder α) (input : Bytes) (failure : Failure) :
    item.complete input = .error failure ↔ item input = .error failure ∨
      (failure = .malformed .trailing ∧
        ∃ value rest, rest ≠ [] ∧ item input = .ok (value, rest)) := by
  unfold complete
  split <;> simp_all [eq_comm]

end Decoder

end PhaseTree.Wire
