import Mathlib.Algebra.BigOperators.Group.List.Basic
import PhaseTree.Proofs.Wire.Acceptance

set_option autoImplicit false

namespace PhaseTree.Wire

variable {α : Type}

def Costs (size : Nat) (spellings : Language UInt8) : Prop := ∀ entry ∈ spellings, size ≤ entry.length

namespace Costs

variable {m n : Nat} {first second : Language UInt8}

theorem mono (h : Costs n first) (less : m ≤ n) : Costs m first :=
  fun entry he => less.trans (h entry he)

theorem singleton (entry : Bytes) : Costs entry.length {entry} := by
  rintro other rfl
  exact le_refl _

theorem mul (h : Costs m first) (h' : Costs n second) : Costs (m + n) (first * second) := by
  intro entry he
  obtain ⟨front, hf, back, hb, rfl⟩ := Language.mem_mul.1 he
  have hfront := h front hf
  have hback := h' back hb
  rw [List.length_append]
  omega

theorem prod {size : α → Nat} {spellings : α → Language UInt8}
    (h : ∀ a, Costs (size a) (spellings a)) (items : List α) :
    Costs (items.map size).sum (items.map spellings).prod := by
  induction items with
  | nil => exact singleton []
  | cons a items ih =>
    rw [List.map_cons, List.sum_cons, List.map_cons, List.prod_cons]
    exact (h a).mul ih

end Costs

def sequenceLoad (load : α → Nat) (items : List α) : Nat := items.length + (items.map load).sum

def pathLoad (path : ModulePath) : Nat := sequenceLoad String.utf8ByteSize path.segments

def originLoad : Origin → Nat
  | .builtIn => 0
  | .exported path => pathLoad path
  | .enclosing => 0

def exportLoad : Export → Nat
  | .value name => name.utf8ByteSize
  | .typeAlias name => name.utf8ByteSize
  | .union name constructors =>
    name.utf8ByteSize + sequenceLoad String.utf8ByteSize constructors.items

/-- The items of all sequences in a value, at any depth, and the UTF-8 bytes of all strings in it. -/
def EntryKind.load : (kind : EntryKind) → kind.Carrier → Nat
  | text => String.utf8ByteSize
  | flag => fun _ => 0
  | word => fun _ => 0
  | span => fun _ => 0
  | rawName => fun name => name.text.utf8ByteSize
  | path => pathLoad
  | origin => originLoad
  | name => fun name => originLoad name.origin + name.name.utf8ByteSize
  | symbol => exportLoad
  | listing item => fun listing => sequenceLoad item.load listing.items
  | sequence item => sequenceLoad item.load

theorem length_utf8 (text : String) :
    (text.toList.flatMap String.utf8EncodeChar).length = text.utf8ByteSize := by
  rw [← utf8_eq]
  rfl

theorem costs_varint (n : Nat) : Costs 1 (Varint.spellings n) := by
  intro entry he
  cases he with
  | short _ => exact le_refl _
  | wide _ _ => exact Nat.succ_le_succ (Nat.zero_le _)

theorem costs_text (text : String) : Costs (text.utf8ByteSize + 1) (textSpellings text) := by
  rw [← length_utf8, Nat.add_comm]
  exact (costs_varint _).mul (.singleton _)

theorem costs_items {load : α → Nat} {spellings : α → Language UInt8}
    (h : ∀ a, Costs (load a + 1) (spellings a)) (items : List α) :
    Costs (sequenceLoad load items) (items.map spellings).prod := by
  have total : (items.map fun a => load a + 1).sum = sequenceLoad load items := by
    rw [List.sum_map_add, sequenceLoad]
    simp [Nat.add_comm]
  rw [← total]
  exact .prod h items

theorem costs_sequence {load : α → Nat} {spellings : α → Language UInt8}
    (h : ∀ a, Costs (load a + 1) (spellings a)) (items : List α) :
    Costs (sequenceLoad load items + 1) (sequenceSpellings spellings items) := by
  rw [Nat.add_comm]
  exact (costs_varint _).mul (costs_items h items)

theorem costs_listing {load : α → Nat} {spellings : α → Language UInt8}
    (h : ∀ a, Costs (load a + 1) (spellings a)) (listing : Listing α) :
    Costs (sequenceLoad load listing.items + 1) (listingSpellings spellings listing) :=
  ((costs_sequence h listing.items).mul (.singleton _)).mono (Nat.le_add_right _ _)

theorem costs_origin (origin : Origin) : Costs (originLoad origin + 1) (originSpellings origin) := by
  cases origin with
  | builtIn => exact costs_varint 0
  | exported path =>
    have h := (costs_varint 1).mul (costs_sequence costs_text path.segments)
    exact h.mono (Nat.le_add_left _ _)
  | enclosing => exact costs_varint 2

theorem costs_export (symbol : Export) : Costs (exportLoad symbol + 1) (exportSpellings symbol) := by
  cases symbol with
  | value name => exact ((costs_varint 0).mul (costs_text name)).mono (Nat.le_add_left _ _)
  | typeAlias name => exact ((costs_varint 1).mul (costs_text name)).mono (Nat.le_add_left _ _)
  | union name constructors =>
    have front := (costs_varint 2).mul (costs_text name)
    refine (front.mul (costs_listing costs_text constructors)).mono ?_
    rw [exportLoad]
    omega

theorem EntryKind.costs (kind : EntryKind) (value : kind.Carrier) :
    Costs (kind.load value + 1) (kind.spellings value) := by
  induction kind with
  | text => exact costs_text value
  | flag => exact .singleton _
  | word => exact costs_varint _
  | span => exact ((costs_varint _).mul (costs_varint _)).mono (Nat.le_add_left _ _)
  | rawName => exact costs_text _
  | path => exact costs_sequence costs_text value.segments
  | origin => exact costs_origin value
  | name =>
    have h := (costs_origin value.origin).mul (costs_text value.name)
    refine h.mono ?_
    change originLoad value.origin + value.name.utf8ByteSize + 1 ≤ _
    omega
  | symbol => exact costs_export value
  | listing item ih => exact costs_listing ih value
  | sequence item ih => exact costs_sequence ih value

/-- A spelling begins with a count, and at least as many bytes follow it. -/
def Covered (spellings : Language UInt8) : Prop :=
  ∀ entry ∈ spellings, ∃ n, ∃ count ∈ Varint.spellings n, ∃ tail, count ++ tail = entry ∧ n ≤ tail.length

theorem covered_of_costs {n : Nat} {spellings : Language UInt8} (h : Costs n spellings) :
    Covered (Varint.spellings n * spellings) := by
  intro entry he
  obtain ⟨count, hc, tail, ht, rfl⟩ := Language.mem_mul.1 he
  exact ⟨n, count, hc, tail, rfl, h tail ht⟩

theorem Covered.mul {first : Language UInt8} (h : Covered first) (second : Language UInt8) :
    Covered (first * second) := by
  intro entry he
  obtain ⟨front, hf, back, _, rfl⟩ := Language.mem_mul.1 he
  obtain ⟨n, count, hc, tail, rfl, enough⟩ := h front hf
  refine ⟨n, count, hc, tail ++ back, (List.append_assoc _ _ _).symm, ?_⟩
  rw [List.length_append]
  omega

theorem covered_text (text : String) : Covered (textSpellings text) := covered_of_costs (.singleton _)

theorem covered_sequence {load : α → Nat} {spellings : α → Language UInt8}
    (h : ∀ a, Costs (load a + 1) (spellings a)) (items : List α) :
    Covered (sequenceSpellings spellings items) :=
  covered_of_costs ((costs_items h items).mono (Nat.le_add_right _ _))

theorem Varint.spellings_append_inj {m n : Nat} {count count' tail tail' : Bytes}
    (h : count ∈ spellings m) (h' : count' ∈ spellings n) (same : count ++ tail = count' ++ tail') :
    m = n ∧ tail = tail' := by
  have hd := (decode_reads _ _ _).2 ⟨count, h, same⟩
  have hd' := (decode_reads _ _ tail').2 ⟨count', h', rfl⟩
  rw [hd, Except.ok.injEq, Prod.mk.injEq] at hd'
  exact hd'

namespace EntryKind

def startsWithLength : EntryKind → Bool
  | text => true
  | rawName => true
  | path => true
  | listing _ => true
  | sequence _ => true
  | _ => false

theorem covered {kind : EntryKind} (h : kind.startsWithLength = true) (value : kind.Carrier) :
    Covered (kind.spellings value) := by
  cases kind with
  | text => exact covered_text value
  | rawName => exact covered_text _
  | path => exact covered_sequence costs_text value.segments
  | listing item => exact (covered_sequence item.costs value.items).mul _
  | sequence item => exact covered_sequence item.costs value
  | _ => contradiction

theorem rest_shorter (kind : EntryKind) {input rest : Bytes} {value : kind.Carrier}
    (h : kind.decode input = .ok (value, rest)) : rest.length < input.length := by
  obtain ⟨front, hf, rfl⟩ := (kind.decode_reads _ _ _).1 h
  have used := kind.costs value front hf
  rw [List.length_append]
  omega

theorem rejects_uncovered {kind : EntryKind} (h : kind.startsWithLength = true) {n : Nat}
    {count rest : Bytes} (announced : count ∈ Varint.spellings n) (missing : rest.length < n) :
    ∃ failure, kind.read (count ++ rest) = .error failure := by
  cases hr : kind.read (count ++ rest) with
  | error failure => exact ⟨failure, rfl⟩
  | ok value =>
    obtain ⟨m, count', hc, tail, same, enough⟩ := kind.covered h value _ ((kind.read_ok_iff _ _).1 hr)
    obtain ⟨rfl, rfl⟩ := Varint.spellings_append_inj hc announced same
    exact absurd enough (Nat.not_le_of_lt missing)

/-- Every value takes at least a byte, an entry that announces more than the bytes it has left is rejected,
and what an accepted entry holds is less than its length. -/
theorem entry_covers_load :
    (∀ (kind : EntryKind) (input rest : Bytes) (value : kind.Carrier),
      kind.decode input = .ok (value, rest) → rest.length < input.length) ∧
    (∀ (kind : EntryKind) (n : Nat) (count rest : Bytes), kind.startsWithLength = true →
      count ∈ Varint.spellings n → rest.length < n →
        ∃ failure, kind.read (count ++ rest) = .error failure) ∧
    ∀ (kind : EntryKind) (entry : Bytes) (value : kind.Carrier),
      kind.read entry = .ok value → kind.load value < entry.length := by
  refine ⟨fun kind _ _ _ h => kind.rest_shorter h, fun _ _ _ _ h => rejects_uncovered h, ?_⟩
  intro kind entry value h
  exact kind.costs value entry ((kind.read_ok_iff entry value).1 h)

theorem entry_covers_load_union :
    let most : Bytes := 253 :: List.replicate 8 255
    let entry : Bytes := [2, 0, 251, 1, 0, 120, 2, 1, 65, 2, 1, 66, 0, 1]
    let value : List Export := [.value "x", .union "A" ⟨["B", ""], true⟩]
    most ∈ Varint.spellings (2 ^ 64 - 1) ∧ (sequence symbol).read entry = .ok value ∧
      (∃ failure, (sequence symbol).read (most ++ entry) = .error failure) ∧
      (sequence symbol).load value = 7 ∧ (sequence symbol).load value < entry.length := by
  intro most entry value
  have announced : most ∈ Varint.spellings (2 ^ 64 - 1) :=
    (Varint.spells_wide_iff _ 253 _ (by decide)).2 (by decide)
  have accepted : (sequence symbol).read entry = .ok value := rfl
  obtain ⟨-, rejected, bounded⟩ := entry_covers_load
  exact ⟨announced, accepted, rejected (sequence symbol) _ most entry rfl announced (by decide), rfl,
    bounded (sequence symbol) entry value accepted⟩

end EntryKind

end PhaseTree.Wire
