import PhaseTree.Proofs.Wire.Acceptance

set_option autoImplicit false

namespace PhaseTree.Wire

variable {α : Type}

def TextFits (text : String) : Prop := text.utf8ByteSize < 2 ^ 64

def SequenceFits (item : α → Prop) (items : List α) : Prop :=
  items.length < 2 ^ 64 ∧ ∀ a ∈ items, item a

def OriginFits : Origin → Prop
  | .builtIn => True
  | .exported path => SequenceFits TextFits path.segments
  | .enclosing => True

def ExportFits : Export → Prop
  | .value name => TextFits name
  | .typeAlias name => TextFits name
  | .union name constructors => TextFits name ∧ SequenceFits TextFits constructors.items

/-- The lengths in the value can be written. -/
def EntryKind.Fits : (kind : EntryKind) → kind.Carrier → Prop
  | text => TextFits
  | flag => fun _ => True
  | word => fun _ => True
  | span => fun _ => True
  | rawName => fun name => TextFits name.text
  | path => fun path => SequenceFits TextFits path.segments
  | origin => OriginFits
  | name => fun name => OriginFits name.origin ∧ TextFits name.name
  | symbol => ExportFits
  | listing item => fun listing => SequenceFits item.Fits listing.items
  | sequence item => SequenceFits item.Fits

theorem Varint.encode_mem {n : Nat} (h : n < 2 ^ 64) : Varint.encode n ∈ Varint.spellings n := by
  have wide (first : UInt8) (width : Nat) (form : (first, width) ∈ wideForms)
      (hn : n < 256 ^ width) : Spells n (first :: littleEndian width n) := by
    rw [spells_wide_iff n first _ (by rwa [length_littleEndian])]
    exact ofLittleEndian_littleEndian width n hn
  unfold Varint.encode
  split_ifs with h1 h2 h3
  · exact .short h1
  · exact wide 251 2 (by decide) (by omega)
  · exact wide 252 4 (by decide) (by omega)
  · exact wide 253 8 (by decide) (by omega)

theorem encodeText_mem {text : String} (fits : TextFits text) :
    encodeText text ∈ textSpellings text := by
  have hl : text.utf8ByteSize = (text.toList.flatMap String.utf8EncodeChar).length := by
    rw [← utf8_eq]
    rfl
  unfold encodeText textSpellings
  rw [utf8_eq]
  exact Language.append_mem_mul (Varint.encode_mem (hl ▸ fits)) rfl

theorem flatMap_mem_prod {item : α → Bytes} {spellings : α → Language UInt8} {items : List α}
    (h : ∀ a ∈ items, item a ∈ spellings a) : items.flatMap item ∈ (items.map spellings).prod := by
  induction items with
  | nil => exact Language.nil_mem_one
  | cons a items ih =>
    rw [List.flatMap_cons, List.map_cons, List.prod_cons]
    exact Language.append_mem_mul (h a List.mem_cons_self)
      (ih fun b hb => h b (List.mem_cons_of_mem a hb))

theorem encodeSequence_mem {item : α → Bytes} {spellings : α → Language UInt8} {Fits : α → Prop}
    (h : ∀ {a}, Fits a → item a ∈ spellings a) {items : List α} (fits : SequenceFits Fits items) :
    encodeSequence item items ∈ sequenceSpellings spellings items :=
  Language.append_mem_mul (Varint.encode_mem fits.1) (flatMap_mem_prod fun a ha => h (fits.2 a ha))

theorem encodeListing_mem {item : α → Bytes} {spellings : α → Language UInt8} {Fits : α → Prop}
    (h : ∀ {a}, Fits a → item a ∈ spellings a) {listing : Listing α}
    (fits : SequenceFits Fits listing.items) :
    encodeListing item listing ∈ listingSpellings spellings listing :=
  Language.append_mem_mul (encodeSequence_mem h fits) rfl

theorem encodeSpan_mem (span : Span) : encodeSpan span ∈ spanSpellings span := by
  have hs := span.start.toNat_lt
  have ht := span.stop.toNat_lt
  exact Language.append_mem_mul (Varint.encode_mem (by omega)) (Varint.encode_mem (by omega))

theorem encodeOrigin_mem {origin : Origin} (fits : OriginFits origin) :
    encodeOrigin origin ∈ originSpellings origin := by
  cases origin with
  | builtIn => exact Varint.encode_mem (by decide)
  | exported path =>
    have path := encodeSequence_mem encodeText_mem fits
    exact Language.append_mem_mul (Varint.encode_mem (by decide)) path
  | enclosing => exact Varint.encode_mem (by decide)

theorem encodeExport_mem {symbol : Export} (fits : ExportFits symbol) :
    encodeExport symbol ∈ exportSpellings symbol := by
  cases symbol with
  | value name | typeAlias name =>
    exact Language.append_mem_mul (Varint.encode_mem (by decide)) (encodeText_mem fits)
  | union name constructors =>
    have front := Language.append_mem_mul (Varint.encode_mem (n := 2) (by decide))
      (encodeText_mem fits.1)
    exact Language.append_mem_mul front (encodeListing_mem encodeText_mem fits.2)

namespace EntryKind

theorem encode_mem (kind : EntryKind) {value : kind.Carrier} (fits : kind.Fits value) :
    kind.encode value ∈ kind.spellings value := by
  induction kind with
  | text => exact encodeText_mem fits
  | flag => exact rfl
  | word => exact Varint.encode_mem value.toNat_lt
  | span => exact encodeSpan_mem value
  | rawName => exact encodeText_mem fits
  | path => exact encodeSequence_mem encodeText_mem fits
  | origin => exact encodeOrigin_mem fits
  | name => exact Language.append_mem_mul (encodeOrigin_mem fits.1) (encodeText_mem fits.2)
  | symbol => exact encodeExport_mem fits
  | listing item ih => exact encodeListing_mem ih fits
  | sequence item ih => exact encodeSequence_mem ih fits

/-- The encoding marks its own end, is accepted as an entry and determines the value. -/
theorem decode_encode_append (kind : EntryKind) (value : kind.Carrier) (fits : kind.Fits value) :
    (∀ rest, kind.decode (kind.encode value ++ rest) = .ok (value, rest)) ∧
      kind.read (kind.encode value) = .ok value ∧
      ∀ other, kind.Fits other → kind.encode other = kind.encode value → other = value := by
  have own := (kind.read_ok_iff _ value).2 (kind.encode_mem fits)
  refine ⟨fun rest => ?_, own, fun other fits' same => ?_⟩
  · exact (kind.decode_reads _ value rest).2 ⟨_, kind.encode_mem fits, rfl⟩
  · have its := (kind.read_ok_iff _ other).2 (kind.encode_mem fits')
    rw [same, own] at its
    exact (Except.ok.inj its).symm

theorem decode_encode_append_union :
    symbol.Fits (.union "Maybe" ⟨["Just", "Nothing"], true⟩) ∧
      symbol.decode (symbol.encode (.union "Maybe" ⟨["Just", "Nothing"], true⟩) ++ [253]) =
        .ok (.union "Maybe" ⟨["Just", "Nothing"], true⟩, [253]) := by
  have fits : symbol.Fits (.union "Maybe" ⟨["Just", "Nothing"], true⟩) := by
    refine ⟨show "Maybe".utf8ByteSize < 2 ^ 64 by decide, show 2 < 2 ^ 64 by decide, ?_⟩
    intro a ha
    rcases List.mem_cons.1 ha with rfl | ha
    · exact show "Just".utf8ByteSize < 2 ^ 64 by decide
    · rw [List.mem_singleton.1 ha]
      exact show "Nothing".utf8ByteSize < 2 ^ 64 by decide
  exact ⟨fits, (symbol.decode_encode_append _ fits).1 [253]⟩

end EntryKind

end PhaseTree.Wire
