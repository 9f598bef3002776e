import PhaseTree.Proofs.Wire.Spelling

set_option autoImplicit false

namespace PhaseTree.Wire

variable {α β γ : Type}

namespace Decoder

/-- What is read is a spelling of the value, and every spelling is read whatever follows it. -/
def Reads (decoder : Decoder α) (spellings : α → Language UInt8) : Prop :=
  ∀ input value rest,
    decoder input = .ok (value, rest) ↔ ∃ front ∈ spellings value, front ++ rest = input

theorem Reads.bind_iff {first : Decoder α} {spellings : α → Language UInt8}
    (reads : first.Reads spellings) (next : α → Decoder β) (input : Bytes) (value : β)
    (rest : Bytes) : (first >>= next) input = .ok (value, rest) ↔
      ∃ a, ∃ front ∈ spellings a, ∃ middle, front ++ middle = input ∧
        next a middle = .ok (value, rest) := by
  rw [bind_ok_iff]
  constructor
  · rintro ⟨a, middle, ha, h⟩
    obtain ⟨front, hf, rfl⟩ := (reads _ _ _).1 ha
    exact ⟨a, front, hf, middle, rfl, h⟩
  · rintro ⟨a, front, hf, middle, rfl, h⟩
    exact ⟨a, middle, (reads _ _ _).2 ⟨front, hf, rfl⟩, h⟩

theorem Reads.map {decoder : Decoder α} {spellings : α → Language UInt8}
    (reads : decoder.Reads spellings) (build : α → β) (part : β → α)
    (build_part : ∀ b, build (part b) = b)
    (part_build : ∀ a, ∀ entry ∈ spellings a, part (build a) = a) :
    Reads (do return build (← decoder)) fun b => spellings (part b) := by
  intro input value rest
  rw [reads.bind_iff]
  constructor
  · rintro ⟨a, front, hf, middle, rfl, h⟩
    obtain ⟨rfl, rfl⟩ := (pure_ok_iff _ _ _ _).1 h
    refine ⟨front, ?_, rfl⟩
    change front ∈ spellings (part (build a))
    rwa [part_build a front hf]
  · rintro ⟨front, hf, rfl⟩
    exact ⟨_, front, hf, rest, rfl, (pure_ok_iff _ _ _ _).2 ⟨build_part _, rfl⟩⟩

theorem Reads.pair {first : Decoder α} {second : Decoder β}
    {firstSpellings : α → Language UInt8} {secondSpellings : β → Language UInt8}
    (reads : first.Reads firstSpellings) (reads' : second.Reads secondSpellings)
    (build : α → β → γ) (left : γ → α) (right : γ → β)
    (build_parts : ∀ c, build (left c) (right c) = c)
    (parts_build : ∀ a b, ∀ front ∈ firstSpellings a, ∀ back ∈ secondSpellings b,
      left (build a b) = a ∧ right (build a b) = b) :
    Reads (do let a ← first; let b ← second; return build a b)
      fun c => firstSpellings (left c) * secondSpellings (right c) := by
  intro input value rest
  rw [reads.bind_iff]
  constructor
  · rintro ⟨a, front, hf, _, rfl, h⟩
    obtain ⟨b, back, hb, _, rfl, h'⟩ := (reads'.bind_iff _ _ _ _).1 h
    obtain ⟨rfl, rfl⟩ := (pure_ok_iff _ _ _ _).1 h'
    refine ⟨front ++ back, ?_, List.append_assoc _ _ _⟩
    change _ ∈ firstSpellings (left (build a b)) * secondSpellings (right (build a b))
    obtain ⟨hl, hr⟩ := parts_build a b front hf back hb
    rw [hl, hr]
    exact Language.append_mem_mul hf hb
  · rintro ⟨_, ⟨front, hf, back, hb, rfl⟩, rfl⟩
    refine ⟨_, front, hf, back ++ rest, (List.append_assoc _ _ _).symm, ?_⟩
    refine (reads'.bind_iff _ _ _ _).2 ⟨_, back, hb, rest, rfl, ?_⟩
    exact (pure_ok_iff _ _ _ _).2 ⟨build_parts _, rfl⟩

theorem Reads.repeated_iff {item : Decoder α} {spellings : α → Language UInt8}
    (reads : item.Reads spellings) (count : Nat) (values : List α) (input rest : Bytes) :
    repeated item count input = .ok (values, rest) ↔
      values.length = count ∧ ∃ front ∈ (values.map spellings).prod, front ++ rest = input := by
  induction count generalizing values input rest with
  | zero =>
    rw [repeated_zero, pure_ok_iff, List.length_eq_zero_iff]
    constructor
    · rintro ⟨rfl, rfl⟩
      exact ⟨rfl, [], Language.nil_mem_one, rfl⟩
    · rintro ⟨rfl, front, hf, rfl⟩
      obtain rfl := (Language.mem_one front).1 hf
      exact ⟨rfl, rfl⟩
  | succ count ih =>
    rw [repeated_succ, reads.bind_iff]
    constructor
    · rintro ⟨a, front, hf, middle, rfl, h⟩
      obtain ⟨others, _, ho, h⟩ := (bind_ok_iff _ _ _ _ _).1 h
      obtain ⟨rfl, rfl⟩ := (pure_ok_iff _ _ _ _).1 h
      obtain ⟨hl, back, hb, rfl⟩ := (ih _ _ _).1 ho
      refine ⟨congrArg (· + 1) hl, front ++ back, ?_, List.append_assoc _ _ _⟩
      rw [List.map_cons, List.prod_cons]
      exact Language.append_mem_mul hf hb
    · rintro ⟨hl, _, hm, rfl⟩
      obtain ⟨a, others, rfl⟩ := List.exists_cons_of_length_eq_add_one hl
      rw [List.map_cons, List.prod_cons] at hm
      obtain ⟨front, hf, back, hb, rfl⟩ := hm
      have ho := (ih others (back ++ rest) rest).2 ⟨Nat.succ.inj hl, back, hb, rfl⟩
      refine ⟨a, front, hf, back ++ rest, (List.append_assoc _ _ _).symm, ?_⟩
      exact (bind_ok_iff _ _ _ _ _).2 ⟨others, rest, ho, (pure_ok_iff _ _ _ _).2 ⟨rfl, rfl⟩⟩

end Decoder

namespace Varint

theorem fixed_ok_iff (width : Nat) (input : Bytes) (n : Nat) (rest : Bytes) :
    fixed width input = .ok (n, rest) ↔
      ∃ digits, digits.length = width ∧ ofLittleEndian digits = n ∧ digits ++ rest = input := by
  unfold fixed
  rw [Decoder.bind_ok_iff]
  constructor
  · rintro ⟨digits, middle, hd, h⟩
    obtain ⟨hl, rfl⟩ := (Decoder.block_ok_iff _ _ _ _).1 hd
    obtain ⟨hn, rfl⟩ := (Decoder.pure_ok_iff _ _ _ _).1 h
    exact ⟨digits, hl, hn, rfl⟩
  · rintro ⟨digits, hl, hn, rfl⟩
    exact ⟨digits, rest, (Decoder.block_ok_iff _ _ _ _).2 ⟨hl, rfl⟩,
      (Decoder.pure_ok_iff _ _ _ _).2 ⟨hn, rfl⟩⟩

theorem decode_cons (first : UInt8) (rest : Bytes) : decode (first :: rest) =
    (if first ≤ 250 then pure first.toNat
      else if first = 251 then fixed 2
      else if first = 252 then fixed 4
      else if first = 253 then fixed 8
      else if first = 254 then throw (.malformed .wideInteger)
      else throw (.malformed .reservedByte) : Decoder Nat) rest := rfl

theorem decode_wide {first : UInt8} {width : Nat} (form : (first, width) ∈ wideForms)
    (rest : Bytes) : decode (first :: rest) = fixed width rest := by
  rcases mem_wideForms.1 form with ⟨rfl, rfl⟩ | ⟨rfl, rfl⟩ | ⟨rfl, rfl⟩ <;> rfl

theorem decode_short {first : UInt8} (small : first ≤ 250) (rest : Bytes) :
    decode (first :: rest) = .ok (first.toNat, rest) := by
  rw [decode_cons, if_pos small]
  rfl

theorem decode_cases (first : UInt8) (rest : Bytes) :
    first ≤ 250 ∨ (∃ width, (first, width) ∈ wideForms) ∨
      ∃ defect, decode (first :: rest) = .error (.malformed defect) := by
  rw [decode_cons]
  split_ifs with small two four eight
  · exact .inl small
  · exact .inr (.inl ⟨2, mem_wideForms.2 (.inl ⟨two, rfl⟩)⟩)
  · exact .inr (.inl ⟨4, mem_wideForms.2 (.inr (.inl ⟨four, rfl⟩))⟩)
  · exact .inr (.inl ⟨8, mem_wideForms.2 (.inr (.inr ⟨eight, rfl⟩))⟩)
  · exact .inr (.inr ⟨_, rfl⟩)
  · exact .inr (.inr ⟨_, rfl⟩)

theorem decode_reads : decode.Reads spellings := by
  intro input n rest
  constructor
  · intro h
    cases input with
    | nil => cases h
    | cons first tail =>
      rcases decode_cases first tail with small | ⟨width, form⟩ | ⟨defect, bad⟩
      · rw [decode_short small] at h
        cases h
        refine ⟨[first], ?_, rfl⟩
        have hs := Spells.short (n := first.toNat) (UInt8.le_iff_toNat_le.1 small)
        rwa [UInt8.ofNat_toNat] at hs
      · rw [decode_wide form, fixed_ok_iff] at h
        obtain ⟨digits, rfl, hn, rfl⟩ := h
        exact ⟨first :: digits, (spells_wide_iff n first digits form).2 hn, rfl⟩
      · rw [bad] at h
        cases h
  · rintro ⟨front, hf, rfl⟩
    cases hf with
    | short small =>
      have hn : (UInt8.ofNat n).toNat = n := by
        rw [UInt8.toNat_ofNat']
        omega
      have hs : UInt8.ofNat n ≤ 250 := by
        rw [UInt8.le_iff_toNat_le, hn]
        exact small
      change decode (UInt8.ofNat n :: rest) = _
      rw [decode_short hs, hn]
    | wide form value =>
      change decode (_ :: (_ ++ rest)) = _
      rw [decode_wide form, fixed_ok_iff]
      rw [← ofLittleEndian_eq] at value
      exact ⟨_, rfl, value, rfl⟩

theorem spells_lt {n : Nat} {entry : Bytes} (h : Spells n entry) : n < 2 ^ 64 := by
  cases h with
  | short small => omega
  | @wide first digits form value =>
    have hd := ofLittleEndian_lt digits
    have hl : digits.length ≤ 8 := by
      have hw := mem_wideForms.1 form
      omega
    have hp : 256 ^ digits.length ≤ 256 ^ 8 := Nat.pow_le_pow_right (by decide) hl
    rw [ofLittleEndian_eq, value] at hd
    omega

theorem decode32_reads : decode32.Reads fun n => {entry ∈ spellings n | n < 2 ^ 32} := by
  intro input n rest
  unfold decode32
  rw [decode_reads.bind_iff]
  constructor
  · rintro ⟨m, front, hf, middle, rfl, h⟩
    split at h
    · rename_i hm
      obtain ⟨rfl, rfl⟩ := (Decoder.pure_ok_iff _ _ _ _).1 h
      exact ⟨front, ⟨hf, hm⟩, rfl⟩
    · cases h
  · rintro ⟨front, ⟨hf, hn⟩, rfl⟩
    refine ⟨n, front, hf, rest, rfl, ?_⟩
    change (if n < 2 ^ 32 then pure n else _ : Decoder Nat) rest = _
    rw [if_pos hn]
    rfl

theorem word_reads :
    Decoder.Reads (do return (← decode).toUInt64) fun word => spellings word.toNat :=
  decode_reads.map Nat.toUInt64 UInt64.toNat (fun _ => UInt64.ofNat_toNat)
    fun _ _ h => UInt64.toNat_ofNat_of_lt' (spells_lt h)

end Varint

theorem fromUTF8?_iff (bytes : Bytes) (text : String) :
    String.fromUTF8? ⟨bytes.toArray⟩ = some text ↔
      text.toList.flatMap String.utf8EncodeChar = bytes := by
  rw [← utf8_eq, String.toUTF8_eq_toByteArray]
  unfold String.fromUTF8?
  constructor
  · intro h
    split at h
    · cases h
      rfl
    · cases h
  · rintro rfl
    exact dif_pos text.isValidUTF8

theorem decodeText_reads : decodeText.Reads textSpellings := by
  intro input text rest
  unfold decodeText
  rw [Varint.decode_reads.bind_iff]
  constructor
  · rintro ⟨count, front, hf, middle, rfl, h⟩
    obtain ⟨bytes, _, hb, h'⟩ := (Decoder.bind_ok_iff _ _ _ _ _).1 h
    obtain ⟨rfl, rfl⟩ := (Decoder.block_ok_iff _ _ _ _).1 hb
    cases ht : String.fromUTF8? ⟨bytes.toArray⟩ with
    | none =>
      rw [ht] at h'
      cases h'
    | some found =>
      rw [ht] at h'
      obtain ⟨rfl, rfl⟩ := (Decoder.pure_ok_iff _ _ _ _).1 h'
      obtain rfl := (fromUTF8?_iff _ _).1 ht
      exact ⟨_, Language.append_mem_mul hf rfl, List.append_assoc _ _ _⟩
  · rintro ⟨_, ⟨front, hf, bytes, hb, rfl⟩, rfl⟩
    cases hb
    refine ⟨_, front, hf, _ ++ rest, (List.append_assoc _ _ _).symm, ?_⟩
    refine (Decoder.bind_ok_iff _ _ _ _ _).2 ⟨_, rest, Decoder.block_append _ _, ?_⟩
    rw [(fromUTF8?_iff _ text).2 rfl]
    rfl

theorem decodeFlag_reads : decodeFlag.Reads flagSpellings := by
  intro input flag rest
  unfold decodeFlag
  rw [Decoder.bind_ok_iff]
  constructor
  · rintro ⟨first, middle, hf, h⟩
    cases input with
    | nil => cases hf
    | cons _ _ =>
      cases hf
      split at h
      · cases h
        exact ⟨[0], rfl, rfl⟩
      · cases h
        exact ⟨[1], rfl, rfl⟩
      · cases h
  · rintro ⟨_, rfl, rfl⟩
    refine ⟨if flag then 1 else 0, rest, rfl, ?_⟩
    cases flag <;> rfl

theorem decodeSequence_reads {item : Decoder α} {spellings : α → Language UInt8}
    (reads : item.Reads spellings) : (decodeSequence item).Reads (sequenceSpellings spellings) := by
  intro input items rest
  unfold decodeSequence
  rw [Varint.decode_reads.bind_iff]
  constructor
  · rintro ⟨count, front, hf, middle, rfl, h⟩
    obtain ⟨rfl, back, hb, rfl⟩ := (reads.repeated_iff _ _ _ _).1 h
    exact ⟨front ++ back, Language.append_mem_mul hf hb, List.append_assoc _ _ _⟩
  · rintro ⟨_, ⟨front, hf, back, hb, rfl⟩, rfl⟩
    refine ⟨_, front, hf, back ++ rest, (List.append_assoc _ _ _).symm, ?_⟩
    exact (reads.repeated_iff _ _ _ _).2 ⟨rfl, back, hb, rfl⟩

theorem decodeListing_reads {item : Decoder α} {spellings : α → Language UInt8}
    (reads : item.Reads spellings) : (decodeListing item).Reads (listingSpellings spellings) :=
  (decodeSequence_reads reads).pair decodeFlag_reads Listing.mk Listing.items Listing.isOpen
    (fun _ => rfl) fun _ _ _ _ _ _ => ⟨rfl, rfl⟩

theorem decodePath_reads : decodePath.Reads pathSpellings :=
  (decodeSequence_reads decodeText_reads).map ModulePath.mk ModulePath.segments (fun _ => rfl)
    fun _ _ _ => rfl

theorem spellings_word32 (word : UInt32) :
    {entry ∈ Varint.spellings word.toNat | word.toNat < 2 ^ 32} = Varint.spellings word.toNat :=
  Set.sep_eq_self_iff_mem_true.2 fun _ _ => word.toNat_lt

theorem decodeSpan_reads : decodeSpan.Reads spanSpellings := by
  have pair := Varint.decode32_reads.pair Varint.decode32_reads
    (fun start stop => Span.mk start.toUInt32 stop.toUInt32) (·.start.toNat) (·.stop.toNat)
    (fun _ => congrArg₂ Span.mk UInt32.ofNat_toNat UInt32.ofNat_toNat)
    (fun _ _ _ hf _ hb => ⟨UInt32.toNat_ofNat_of_lt' hf.2, UInt32.toNat_ofNat_of_lt' hb.2⟩)
  simp only [spellings_word32] at pair
  exact pair

theorem decodeOrigin_reads : decodeOrigin.Reads originSpellings := by
  intro input origin rest
  unfold decodeOrigin
  rw [Varint.decode32_reads.bind_iff]
  constructor
  · rintro ⟨tag, front, ⟨hf, _⟩, middle, rfl, h⟩
    split at h
    · cases h
      exact ⟨front, hf, rfl⟩
    · obtain ⟨path, back, hb, _, rfl, h'⟩ := (decodePath_reads.bind_iff _ _ _ _).1 h
      cases h'
      exact ⟨front ++ back, Language.append_mem_mul hf hb, List.append_assoc _ _ _⟩
    · cases h
      exact ⟨front, hf, rfl⟩
    · cases h
  · rintro ⟨entry, he, rfl⟩
    cases origin with
    | builtIn => exact ⟨0, entry, ⟨he, by decide⟩, rest, rfl, rfl⟩
    | exported path =>
      obtain ⟨front, hf, back, hb, rfl⟩ := he
      refine ⟨1, front, ⟨hf, by decide⟩, back ++ rest, (List.append_assoc _ _ _).symm, ?_⟩
      exact (decodePath_reads.bind_iff _ _ _ _).2 ⟨path, back, hb, rest, rfl, rfl⟩
    | enclosing => exact ⟨2, entry, ⟨he, by decide⟩, rest, rfl, rfl⟩

theorem decodeName_reads : decodeName.Reads nameSpellings :=
  decodeOrigin_reads.pair decodeText_reads QualifiedName.mk QualifiedName.origin QualifiedName.name
    (fun _ => rfl) fun _ _ _ _ _ _ => ⟨rfl, rfl⟩

theorem decodeExport_reads : decodeExport.Reads exportSpellings := by
  intro input symbol rest
  have listing := decodeListing_reads decodeText_reads
  unfold decodeExport
  rw [Varint.decode32_reads.bind_iff]
  constructor
  · rintro ⟨tag, front, ⟨hf, _⟩, middle, rfl, h⟩
    split at h
    · obtain ⟨name, back, hb, _, rfl, h'⟩ := (decodeText_reads.bind_iff _ _ _ _).1 h
      cases h'
      exact ⟨front ++ back, Language.append_mem_mul hf hb, List.append_assoc _ _ _⟩
    · obtain ⟨name, back, hb, _, rfl, h'⟩ := (decodeText_reads.bind_iff _ _ _ _).1 h
      cases h'
      exact ⟨front ++ back, Language.append_mem_mul hf hb, List.append_assoc _ _ _⟩
    · obtain ⟨name, back, hb, _, rfl, h'⟩ := (decodeText_reads.bind_iff _ _ _ _).1 h
      obtain ⟨constructors, last, hl, _, rfl, h''⟩ := (listing.bind_iff _ _ _ _).1 h'
      cases h''
      refine ⟨front ++ back ++ last, ?_, ?_⟩
      · exact Language.append_mem_mul (Language.append_mem_mul hf hb) hl
      · rw [List.append_assoc, List.append_assoc]
    · cases h
  · rintro ⟨_, he, rfl⟩
    cases symbol with
    | value name | typeAlias name =>
      obtain ⟨front, hf, back, hb, rfl⟩ := he
      refine ⟨_, front, ⟨hf, by decide⟩, back ++ rest, (List.append_assoc _ _ _).symm, ?_⟩
      exact (decodeText_reads.bind_iff _ _ _ _).2 ⟨name, back, hb, rest, rfl, rfl⟩
    | union name constructors =>
      obtain ⟨_, ⟨front, hf, back, hb, rfl⟩, last, hl, rfl⟩ := he
      refine ⟨2, front, ⟨hf, by decide⟩, back ++ (last ++ rest), ?_, ?_⟩
      · change front ++ (back ++ (last ++ rest)) = ((front ++ back) ++ last) ++ rest
        rw [List.append_assoc, List.append_assoc]
      · refine (decodeText_reads.bind_iff _ _ _ _).2 ⟨name, back, hb, last ++ rest, rfl, ?_⟩
        exact (listing.bind_iff _ _ _ _).2 ⟨constructors, last, hl, rest, rfl, rfl⟩

theorem EntryKind.decode_reads (kind : EntryKind) : kind.decode.Reads kind.spellings := by
  induction kind with
  | text => exact decodeText_reads
  | flag => exact decodeFlag_reads
  | word => exact Varint.word_reads
  | span => exact decodeSpan_reads
  | rawName => exact decodeText_reads.map RawName.mk RawName.text (fun _ => rfl) fun _ _ _ => rfl
  | path => exact decodePath_reads
  | origin => exact decodeOrigin_reads
  | name => exact decodeName_reads
  | symbol => exact decodeExport_reads
  | listing item ih => exact decodeListing_reads ih
  | sequence item ih => exact decodeSequence_reads ih

theorem EntryKind.read_ok_iff (kind : EntryKind) (entry : Bytes) (value : kind.Carrier) :
    kind.read entry = .ok value ↔ entry ∈ kind.spellings value := by
  unfold EntryKind.read
  rw [Decoder.complete_ok_iff, kind.decode_reads entry value []]
  constructor
  · rintro ⟨front, hf, rfl⟩
    rwa [List.append_nil]
  · exact fun h => ⟨entry, h, List.append_nil entry⟩

/-- The accepted entries are the spellings; what spells no value is a failure. -/
theorem EntryKind.read_accepts_exactly (kind : EntryKind) (entry : Bytes) :
    (∀ value, kind.read entry = .ok value ↔ entry ∈ kind.spellings value) ∧
      ((∃ failure, kind.read entry = .error failure) ↔ ∀ value, entry ∉ kind.spellings value) := by
  refine ⟨kind.read_ok_iff entry, ?_⟩
  constructor
  · rintro ⟨failure, hf⟩ value hv
    rw [(kind.read_ok_iff entry value).2 hv] at hf
    cases hf
  · intro h
    cases hr : kind.read entry with
    | error failure => exact ⟨failure, rfl⟩
    | ok value => exact absurd ((kind.read_ok_iff entry value).1 hr) (h value)

example : EntryKind.text.read [251, 1, 0, 120] = .ok "x" := rfl

end PhaseTree.Wire
