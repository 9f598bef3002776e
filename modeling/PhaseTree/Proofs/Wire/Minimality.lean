import PhaseTree.Proofs.Wire.RoundTrip

set_option autoImplicit false

namespace PhaseTree.Wire

variable {α : Type}

/-- If there are spellings at all, then `entry` is one and every other one is longer. -/
def Shortest (entry : Bytes) (spellings : Language UInt8) : Prop :=
  ∀ other ∈ spellings, entry ∈ spellings ∧ entry.length ≤ other.length ∧
    (other.length = entry.length → other = entry)

namespace Shortest

theorem singleton (entry : Bytes) : Shortest entry {entry} := by
  rintro other rfl
  exact ⟨rfl, le_refl _, fun _ => rfl⟩

/-- Each part is shortest by itself, so a tie of the wholes is a tie of the parts. -/
theorem mul {front back : Bytes} {first second : Language UInt8} (h : Shortest front first)
    (h' : Shortest back second) : Shortest (front ++ back) (first * second) := by
  intro other ho
  obtain ⟨a, ha, b, hb, rfl⟩ := Language.mem_mul.1 ho
  obtain ⟨hf, hl, hu⟩ := h a ha
  obtain ⟨hf', hl', hu'⟩ := h' b hb
  rw [List.length_append, List.length_append]
  refine ⟨Language.append_mem_mul hf hf', by omega, ?_⟩
  intro tie
  rw [hu (by omega), hu' (by omega)]

theorem prod {item : α → Bytes} {spellings : α → Language UInt8}
    (h : ∀ a, Shortest (item a) (spellings a)) (items : List α) :
    Shortest (items.flatMap item) (items.map spellings).prod := by
  induction items with
  | nil => exact singleton []
  | cons a items ih =>
    rw [List.flatMap_cons, List.map_cons, List.prod_cons]
    exact (h a).mul ih

end Shortest

namespace Varint

theorem encode_le_wide {first : UInt8} {width n : Nat} (form : (first, width) ∈ wideForms)
    (h : n < 256 ^ width) : (encode n).length ≤ width + 1 ∧
      (width + 1 = (encode n).length → first :: littleEndian width n = encode n) := by
  have hl := length_littleEndian
  unfold encode
  -- Three widths against four ranges of `n`: equal where they meet, longer or impossible elsewhere.
  rcases mem_wideForms.1 form with ⟨rfl, rfl⟩ | ⟨rfl, rfl⟩ | ⟨rfl, rfl⟩ <;> split_ifs <;>
    simp [hl] <;> omega

theorem encode_shortest (n : Nat) : Shortest (encode n) (spellings n) := by
  intro other ho
  refine ⟨encode_mem (spells_lt ho), ?_⟩
  cases ho with
  | short small =>
    have he : encode n = [UInt8.ofNat n] := if_pos small
    rw [he]
    exact ⟨le_refl _, fun _ => rfl⟩
  | @wide first digits form value =>
    rw [← ofLittleEndian_eq] at value
    have hd := ofLittleEndian_lt digits
    have hu := littleEndian_ofLittleEndian digits
    rw [value] at hd hu
    have tie := encode_le_wide form hd
    rwa [hu] at tie

end Varint

theorem encodeText_shortest (text : String) : Shortest (encodeText text) (textSpellings text) := by
  unfold encodeText textSpellings
  rw [utf8_eq]
  exact (Varint.encode_shortest _).mul (.singleton _)

theorem encodeSequence_shortest {item : α → Bytes} {spellings : α → Language UInt8}
    (h : ∀ a, Shortest (item a) (spellings a)) (items : List α) :
    Shortest (encodeSequence item items) (sequenceSpellings spellings items) :=
  (Varint.encode_shortest _).mul (.prod h items)

theorem encodeListing_shortest {item : α → Bytes} {spellings : α → Language UInt8}
    (h : ∀ a, Shortest (item a) (spellings a)) (listing : Listing α) :
    Shortest (encodeListing item listing) (listingSpellings spellings listing) :=
  (encodeSequence_shortest h listing.items).mul (.singleton _)

theorem encodePath_shortest (path : ModulePath) :
    Shortest (encodePath path) (pathSpellings path) :=
  encodeSequence_shortest encodeText_shortest path.segments

theorem encodeOrigin_shortest (origin : Origin) :
    Shortest (encodeOrigin origin) (originSpellings origin) := by
  cases origin with
  | builtIn => exact Varint.encode_shortest 0
  | exported path => exact (Varint.encode_shortest 1).mul (encodePath_shortest path)
  | enclosing => exact Varint.encode_shortest 2

theorem encodeExport_shortest (symbol : Export) :
    Shortest (encodeExport symbol) (exportSpellings symbol) := by
  cases symbol with
  | value name => exact (Varint.encode_shortest 0).mul (encodeText_shortest name)
  | typeAlias name => exact (Varint.encode_shortest 1).mul (encodeText_shortest name)
  | union name constructors =>
    have front := (Varint.encode_shortest 2).mul (encodeText_shortest name)
    exact front.mul (encodeListing_shortest encodeText_shortest constructors)

namespace EntryKind

theorem encode_shortest (kind : EntryKind) (value : kind.Carrier) :
    Shortest (kind.encode value) (kind.spellings value) := by
  induction kind with
  | text => exact encodeText_shortest value
  | flag => exact .singleton _
  | word => exact Varint.encode_shortest _
  | span => exact (Varint.encode_shortest _).mul (Varint.encode_shortest _)
  | rawName => exact encodeText_shortest _
  | path => exact encodePath_shortest value
  | origin => exact encodeOrigin_shortest value
  | name => exact (encodeOrigin_shortest _).mul (encodeText_shortest _)
  | symbol => exact encodeExport_shortest value
  | listing item ih => exact encodeListing_shortest ih value
  | sequence item ih => exact encodeSequence_shortest ih value

/-- Writing again what was read gives the one shortest entry that is accepted for the value. -/
theorem encode_read_shortest (kind : EntryKind) (entry : Bytes) (value : kind.Carrier)
    (accepted : kind.read entry = .ok value) :
    kind.read (kind.encode value) = .ok value ∧ (kind.encode value).length ≤ entry.length ∧
      (entry.length = (kind.encode value).length → entry = kind.encode value) := by
  rw [kind.read_ok_iff] at accepted ⊢
  exact kind.encode_shortest value entry accepted

theorem encode_read_shortest_overlong :
    name.read [251, 2, 0, 251, 1, 0, 120] = .ok (.enclosing "x") ∧
      name.read (name.encode (.enclosing "x")) = .ok (.enclosing "x") ∧
      (name.encode (.enclosing "x")).length ≤ 7 := by
  have accepted : name.read [251, 2, 0, 251, 1, 0, 120] = .ok (.enclosing "x") := rfl
  obtain ⟨own, shorter, _⟩ := name.encode_read_shortest _ _ accepted
  exact ⟨accepted, own, shorter⟩

end EntryKind

end PhaseTree.Wire
