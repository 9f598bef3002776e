import Mathlib.Tactic.ByContra
import Mathlib.Tactic.SplitIfs
import PhaseTree.Wire.Entry

set_option autoImplicit false

namespace PhaseTree.Wire

variable {α β : Type}

namespace Decoder

/-- What was decided before the end of the input stays decided when more input follows. -/
structure Stable (decoder : Decoder α) : Prop where
  ok {input : Bytes} {value : α} {rest : Bytes} (more : Bytes)
    (h : decoder input = .ok (value, rest)) : decoder (input ++ more) = .ok (value, rest ++ more)
  error {input : Bytes} {failure : Failure} (more : Bytes) (h : decoder input = .error failure)
    (cause : failure ≠ .unexpectedEnd) : decoder (input ++ more) = .error failure

theorem stable_pure (a : α) : (pure a : Decoder α).Stable where
  ok more h := by
    obtain ⟨rfl, rfl⟩ := (pure_ok_iff _ _ _ _).1 h
    rfl
  error more h _ := by cases h

theorem stable_throw (failure : Failure) : (throw failure : Decoder α).Stable where
  ok more h := by cases h
  error more h _ := by
    cases h
    rfl

theorem Stable.bind {first : Decoder α} {next : α → Decoder β} (stable : first.Stable)
    (stable' : ∀ a, (next a).Stable) : (first >>= next).Stable where
  ok more h := by
    obtain ⟨a, middle, ha, h'⟩ := (bind_ok_iff _ _ _ _ _).1 h
    exact (bind_ok_iff _ _ _ _ _).2 ⟨a, middle ++ more, stable.ok more ha, (stable' a).ok more h'⟩
  error more h cause := by
    rw [bind_error_iff] at h ⊢
    rcases h with h | ⟨a, middle, ha, h'⟩
    · exact .inl (stable.error more h cause)
    · exact .inr ⟨a, middle ++ more, stable.ok more ha, (stable' a).error more h' cause⟩

theorem stable_byte : byte.Stable where
  ok {input} _ _ more h := by
    cases input with
    | nil => cases h
    | cons first tail =>
      cases h
      rfl
  error {input} _ more h cause := by
    cases input with
    | nil =>
      cases h
      exact absurd rfl cause
    | cons first tail => cases h

theorem block_error {count : Nat} {input : Bytes} {failure : Failure}
    (h : block count input = .error failure) : failure = .unexpectedEnd := by
  simp only [block] at h
  split at h
  · cases h
  · cases h
    rfl

theorem stable_block (count : Nat) : (block count).Stable where
  ok more h := by
    obtain ⟨hl, rfl⟩ := (block_ok_iff _ _ _ _).1 h
    rw [List.append_assoc]
    exact (block_ok_iff _ _ _ _).2 ⟨hl, rfl⟩
  -- A block fails only for want of input.
  error more h cause := absurd (block_error h) cause

theorem Stable.repeated {item : Decoder α} (stable : item.Stable) (count : Nat) :
    (repeated item count).Stable := by
  induction count with
  | zero => exact stable_pure []
  | succ count ih =>
    rw [repeated_succ]
    exact stable.bind fun value => ih.bind fun values => stable_pure (value :: values)

theorem Stable.complete_ok {item : Decoder α} (stable : item.Stable) {entry : Bytes} {value : α}
    (h : item.complete entry = .ok value) {more : Bytes} (nonempty : more ≠ []) :
    item.complete (entry ++ more) = .error (.malformed .trailing) := by
  have hi := stable.ok more ((complete_ok_iff _ _ _).1 h)
  exact (complete_error_iff _ _ _).2 (.inr ⟨rfl, value, more, nonempty, hi⟩)

theorem Stable.complete_error {item : Decoder α} (stable : item.Stable) {entry : Bytes}
    {failure : Failure} (h : item.complete entry = .error failure)
    (cause : failure ≠ .unexpectedEnd) (more : Bytes) :
    item.complete (entry ++ more) = .error failure := by
  rw [complete_error_iff] at h ⊢
  rcases h with h | ⟨ht, value, rest, nonempty, h⟩
  · exact .inl (stable.error more h cause)
  · have hr : rest ++ more ≠ [] := fun he => nonempty (List.append_eq_nil_iff.1 he).1
    exact .inr ⟨ht, value, rest ++ more, hr, stable.ok more h⟩

end Decoder

open Decoder

namespace Varint

theorem stable_fixed (width : Nat) : (fixed width).Stable :=
  (stable_block width).bind fun _ => stable_pure _

theorem stable_decode : decode.Stable := by
  refine stable_byte.bind fun first => ?_
  split_ifs
  · exact stable_pure _
  · exact stable_fixed 2
  · exact stable_fixed 4
  · exact stable_fixed 8
  · exact stable_throw _
  · exact stable_throw _

theorem stable_decode32 : decode32.Stable := by
  refine stable_decode.bind fun n => ?_
  split_ifs
  · exact stable_pure n
  · exact stable_throw _

end Varint

theorem stable_decodeText : decodeText.Stable := by
  refine Varint.stable_decode.bind fun count => (stable_block count).bind fun bytes => ?_
  cases String.fromUTF8? ⟨bytes.toArray⟩ with
  | none => exact stable_throw _
  | some text => exact stable_pure text

theorem stable_decodeFlag : decodeFlag.Stable := by
  refine stable_byte.bind fun first => ?_
  split
  · exact stable_pure false
  · exact stable_pure true
  · exact stable_throw _

theorem stable_decodeSequence {item : Decoder α} (stable : item.Stable) :
    (decodeSequence item).Stable :=
  Varint.stable_decode.bind stable.repeated

theorem stable_decodeListing {item : Decoder α} (stable : item.Stable) :
    (decodeListing item).Stable :=
  (stable_decodeSequence stable).bind fun _ => stable_decodeFlag.bind fun _ => stable_pure _

theorem stable_decodeSpan : decodeSpan.Stable :=
  Varint.stable_decode32.bind fun _ => Varint.stable_decode32.bind fun _ => stable_pure _

theorem stable_decodePath : decodePath.Stable :=
  (stable_decodeSequence stable_decodeText).bind fun _ => stable_pure _

theorem stable_decodeOrigin : decodeOrigin.Stable := by
  refine Varint.stable_decode32.bind fun tag => ?_
  split
  · exact stable_pure _
  · exact stable_decodePath.bind fun _ => stable_pure _
  · exact stable_pure _
  · exact stable_throw _

theorem stable_decodeName : decodeName.Stable :=
  stable_decodeOrigin.bind fun _ => stable_decodeText.bind fun _ => stable_pure _

theorem stable_decodeExport : decodeExport.Stable := by
  refine Varint.stable_decode32.bind fun tag => ?_
  split
  · exact stable_decodeText.bind fun _ => stable_pure _
  · exact stable_decodeText.bind fun _ => stable_pure _
  · exact stable_decodeText.bind fun _ =>
      (stable_decodeListing stable_decodeText).bind fun _ => stable_pure _
  · exact stable_throw _

namespace EntryKind

theorem stable_decode (kind : EntryKind) : kind.decode.Stable := by
  induction kind with
  | text => exact stable_decodeText
  | flag => exact stable_decodeFlag
  | word => exact Varint.stable_decode.bind fun _ => stable_pure _
  | span => exact stable_decodeSpan
  | rawName => exact stable_decodeText.bind fun _ => stable_pure _
  | path => exact stable_decodePath
  | origin => exact stable_decodeOrigin
  | name => exact stable_decodeName
  | symbol => exact stable_decodeExport
  | listing item ih => exact stable_decodeListing ih
  | sequence item ih => exact stable_decodeSequence ih

def Accepts (kind : EntryKind) (entry : Bytes) : Prop := ∃ value, kind.read entry = .ok value

theorem read_prefix (kind : EntryKind) {entry front : Bytes} (accepted : kind.Accepts entry)
    (h : front <+: entry) (proper : front ≠ entry) : kind.read front = .error .unexpectedEnd := by
  obtain ⟨value, hv⟩ := accepted
  obtain ⟨more, rfl⟩ := h
  cases hf : kind.read front with
  | ok value' =>
    have nonempty : more ≠ [] := fun he => proper (by rw [he, List.append_nil])
    have ht := kind.stable_decode.complete_ok hf nonempty
    change kind.read (front ++ more) = _ at ht
    rw [hv] at ht
    cases ht
  | error failure =>
    by_contra cause
    have ht := kind.stable_decode.complete_error hf (fun he => cause (congrArg _ he)) more
    change kind.read (front ++ more) = _ at ht
    rw [hv] at ht
    cases ht

/-- Bytes behind an accepted entry spoil it, bytes behind a rejected entry change nothing unless the
entry was cut short, and no accepted entry begins another one. -/
theorem read_extension (kind : EntryKind) :
    (∀ entry value more, more ≠ [] → kind.read entry = .ok value →
      kind.read (entry ++ more) = .error (.malformed .trailing)) ∧
    (∀ entry failure more, failure ≠ .unexpectedEnd → kind.read entry = .error failure →
      kind.read (entry ++ more) = .error failure) ∧
    (∀ entry front, kind.Accepts entry → front <+: entry → front ≠ entry →
      kind.read front = .error .unexpectedEnd) ∧
    (∀ entry front, kind.Accepts entry → kind.Accepts front → front <+: entry → front = entry) := by
  refine ⟨fun _ _ _ nonempty h => kind.stable_decode.complete_ok h nonempty,
    fun _ _ more cause h => kind.stable_decode.complete_error h cause more,
    fun _ _ => kind.read_prefix, ?_⟩
  intro entry front accepted ⟨value, hv⟩ h
  by_contra proper
  rw [kind.read_prefix accepted h proper] at hv
  cases hv

theorem read_extension_name :
    name.read [2, 251, 1, 0, 120] = .ok (.enclosing "x") ∧
      name.read ([2, 251, 1, 0, 120] ++ [0]) = .error (.malformed .trailing) ∧
      name.read ([3] ++ [1, 120]) = .error (.malformed (.unknownTag 3)) ∧
      name.read [2, 251, 1] = .error .unexpectedEnd := by
  have accepted : name.read [2, 251, 1, 0, 120] = .ok (.enclosing "x") := rfl
  obtain ⟨spoilt, decided, unfinished, _⟩ := name.read_extension
  refine ⟨accepted, spoilt _ _ [0] (by decide) accepted, decided [3] _ [1, 120] (by decide) rfl, ?_⟩
  exact unfinished _ _ ⟨_, accepted⟩ (by decide) (by decide)

end EntryKind

end PhaseTree.Wire
