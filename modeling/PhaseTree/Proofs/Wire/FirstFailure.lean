import PhaseTree.Proofs.Wire.Acceptance
import PhaseTree.Proofs.Wire.Extension

set_option autoImplicit false

namespace PhaseTree.Wire

variable {α : Type}

namespace Decoder

theorem repeated_error_iff (item : Decoder α) (count : Nat) (input : Bytes) (failure : Failure) :
    repeated item count input = .error failure ↔ ∃ values last, values.length < count ∧
      repeated item values.length input = .ok (values, last) ∧ item last = .error failure := by
  induction count generalizing input with
  | zero =>
    constructor
    · intro h
      cases h
    · rintro ⟨_, _, fewer, _⟩
      contradiction
  | succ count ih =>
    rw [repeated_succ, bind_error_iff]
    constructor
    · rintro (h | ⟨value, middle, hv, h⟩)
      · exact ⟨[], input, Nat.succ_pos count, rfl, h⟩
      · obtain h | ⟨_, _, _, h⟩ := (bind_error_iff _ _ _ _).1 h
        · obtain ⟨values, last, fewer, hvs, hl⟩ := (ih middle).1 h
          refine ⟨value :: values, last, Nat.succ_lt_succ fewer, ?_, hl⟩
          rw [List.length_cons, repeated_succ, bind_ok_iff]
          refine ⟨value, middle, hv, (bind_ok_iff _ _ _ _ _).2 ⟨values, last, hvs, ?_⟩⟩
          exact (pure_ok_iff _ _ _ _).2 ⟨rfl, rfl⟩
        · cases h
    · rintro ⟨values, last, fewer, hvs, hl⟩
      cases values with
      | nil =>
        obtain ⟨-, rfl⟩ := (pure_ok_iff _ _ _ _).1 hvs
        exact .inl hl
      | cons value values =>
        rw [List.length_cons, repeated_succ, bind_ok_iff] at hvs
        obtain ⟨first, middle, hv, h⟩ := hvs
        obtain ⟨others, _, ho, h⟩ := (bind_ok_iff _ _ _ _ _).1 h
        obtain ⟨he, rfl⟩ := (pure_ok_iff _ _ _ _).1 h
        obtain ⟨rfl, rfl⟩ := List.cons.inj he
        refine .inr ⟨first, middle, hv, (bind_error_iff _ _ _ _).2 (.inl ?_)⟩
        exact (ih middle).2 ⟨others, _, Nat.lt_of_succ_lt_succ fewer, ho, hl⟩

end Decoder

namespace EntryKind

theorem flatten_mem_prod (item : EntryKind) {entries : List Bytes}
    (accepted : ∀ entry ∈ entries, item.Accepts entry) :
    ∃ values : List item.Carrier, values.length = entries.length ∧
      entries.flatten ∈ (values.map item.spellings).prod := by
  induction entries with
  | nil => exact ⟨[], rfl, Language.nil_mem_one⟩
  | cons entry entries ih =>
    obtain ⟨⟨value, hv⟩, others⟩ := List.forall_mem_cons.1 accepted
    obtain ⟨values, hl, hm⟩ := ih others
    refine ⟨value :: values, congrArg Nat.succ hl, ?_⟩
    rw [List.map_cons, List.prod_cons, List.flatten_cons]
    exact Language.append_mem_mul ((item.read_ok_iff entry value).1 hv) hm

theorem exists_entries_of_mem_prod (item : EntryKind) {values : List item.Carrier} {front : Bytes}
    (h : front ∈ (values.map item.spellings).prod) : ∃ entries : List Bytes,
      entries.length = values.length ∧ (∀ entry ∈ entries, item.Accepts entry) ∧
        entries.flatten = front := by
  induction values generalizing front with
  | nil =>
    obtain rfl := (Language.mem_one front).1 h
    exact ⟨[], rfl, by simp, rfl⟩
  | cons value values ih =>
    rw [List.map_cons, List.prod_cons] at h
    obtain ⟨entry, he, others, ho, rfl⟩ := h
    obtain ⟨entries, hl, accepted, rfl⟩ := ih ho
    refine ⟨entry :: entries, congrArg Nat.succ hl, ?_, rfl⟩
    exact List.forall_mem_cons.2 ⟨⟨value, (item.read_ok_iff entry value).2 he⟩, accepted⟩

/-- A sequence fails by its count, or by an item behind accepted ones of which the count announces more. -/
theorem decode_sequence_error_iff (item : EntryKind) (input : Bytes) (failure : Failure) :
    (sequence item).decode input = .error failure ↔ Varint.decode input = .error failure ∨
      ∃ n, ∃ count ∈ Varint.spellings n, ∃ (entries : List Bytes) (last : Bytes), entries.length < n ∧
        (∀ entry ∈ entries, item.Accepts entry) ∧ count ++ (entries.flatten ++ last) = input ∧
        item.decode last = .error failure := by
  change (Varint.decode >>= Decoder.repeated item.decode) input = .error failure ↔ _
  rw [Decoder.bind_error_iff]
  refine or_congr_right ?_
  constructor
  · rintro ⟨n, middle, hn, h⟩
    obtain ⟨count, hc, rfl⟩ := (Varint.decode_reads _ _ _).1 hn
    obtain ⟨values, last, fewer, hvs, hl⟩ := (Decoder.repeated_error_iff _ _ _ _).1 h
    obtain ⟨-, front, hf, rfl⟩ := (item.decode_reads.repeated_iff _ _ _ _).1 hvs
    obtain ⟨entries, hlength, accepted, rfl⟩ := item.exists_entries_of_mem_prod hf
    exact ⟨n, count, hc, entries, last, hlength ▸ fewer, accepted, rfl, hl⟩
  · rintro ⟨n, count, hc, entries, last, fewer, accepted, rfl, hl⟩
    obtain ⟨values, hlength, hm⟩ := item.flatten_mem_prod accepted
    refine ⟨n, entries.flatten ++ last, (Varint.decode_reads _ _ _).2 ⟨count, hc, rfl⟩, ?_⟩
    refine (Decoder.repeated_error_iff _ _ _ _).2 ⟨values, last, hlength ▸ fewer, ?_, hl⟩
    exact (item.decode_reads.repeated_iff _ _ _ _).2 ⟨rfl, entries.flatten, hm, rfl⟩

/-- Behind any count of more items and any accepted items, a failing item makes the whole sequence fail
as it does itself, and unless it was merely cut short it does so whatever stands behind it. -/
theorem first_failure_decides (item : EntryKind) {n : Nat} {count : Bytes} {entries : List Bytes}
    {last : Bytes} {failure : Failure} (counted : count ∈ Varint.spellings n)
    (more : entries.length < n) (accepted : ∀ entry ∈ entries, item.Accepts entry)
    (fails : item.decode last = .error failure) :
    (sequence item).read (count ++ (entries.flatten ++ last)) = .error failure ∧
      (failure ≠ .unexpectedEnd → ∀ behind,
        (sequence item).read (count ++ (entries.flatten ++ last) ++ behind) = .error failure) := by
  have hd : (sequence item).decode (count ++ (entries.flatten ++ last)) = .error failure :=
    (item.decode_sequence_error_iff _ _).2
      (.inr ⟨n, count, counted, entries, last, more, accepted, rfl, fails⟩)
  have hr : (sequence item).read (count ++ (entries.flatten ++ last)) = .error failure :=
    (Decoder.complete_error_iff _ _ _).2 (.inl hd)
  exact ⟨hr, fun cause behind => (sequence item).stable_decode.complete_error hr cause behind⟩

theorem first_failure_decides_name :
    [251, 3, 0] ∈ Varint.spellings 3 ∧ (∀ entry ∈ [[2, 251, 1, 0, 120]], name.Accepts entry) ∧
      name.decode [3] = .error (.malformed (.unknownTag 3)) ∧
      (sequence name).read ([251, 3, 0] ++ ([[2, 251, 1, 0, 120]].flatten ++ [3])) =
        .error (.malformed (.unknownTag 3)) ∧
      (sequence name).read ([251, 3, 0] ++ ([[2, 251, 1, 0, 120]].flatten ++ [3]) ++ [0, 255]) =
        .error (.malformed (.unknownTag 3)) := by
  have counted : [251, 3, 0] ∈ Varint.spellings 3 :=
    (Varint.spells_wide_iff 3 251 [3, 0] (by decide)).2 rfl
  have accepted : ∀ entry ∈ [[2, 251, 1, 0, 120]], name.Accepts entry :=
    List.forall_mem_singleton.2 ⟨.enclosing "x", rfl⟩
  have fails : name.decode [3] = .error (.malformed (.unknownTag 3)) := rfl
  obtain ⟨decided, unmoved⟩ := name.first_failure_decides counted (by decide) accepted fails
  exact ⟨counted, accepted, fails, decided, unmoved (by decide) [0, 255]⟩

end EntryKind

end PhaseTree.Wire
