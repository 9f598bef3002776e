import PhaseTree.Wire.Fields

set_option autoImplicit false

namespace PhaseTree.Wire

inductive EntryKind where
  | text
  | flag
  | word
  | span
  | rawName
  | path
  | origin
  | name
  | symbol
  | listing (item : EntryKind)
  | sequence (item : EntryKind)
  deriving DecidableEq

namespace EntryKind

/-- The values of a kind. -/
abbrev Carrier : EntryKind → Type
  | text => String
  | flag => Bool
  | word => UInt64
  | span => Span
  | rawName => RawName
  | path => ModulePath
  | origin => Origin
  | name => QualifiedName
  | symbol => Export
  | listing item => Listing item.Carrier
  | sequence item => List item.Carrier

def encode : (kind : EntryKind) → kind.Carrier → Bytes
  | text => encodeText
  | flag => encodeFlag
  | word => fun word => Varint.encode word.toNat
  | span => encodeSpan
  | rawName => fun name => encodeText name.text
  | path => encodePath
  | origin => encodeOrigin
  | name => encodeName
  | symbol => encodeExport
  | listing item => encodeListing item.encode
  | sequence item => encodeSequence item.encode

def decode : (kind : EntryKind) → Decoder kind.Carrier
  | text => decodeText
  | flag => decodeFlag
  | word => do return (← Varint.decode).toUInt64
  | span => decodeSpan
  | rawName => do return ⟨← decodeText⟩
  | path => decodePath
  | origin => decodeOrigin
  | name => decodeName
  | symbol => decodeExport
  | listing item => decodeListing item.decode
  | sequence item => decodeSequence item.decode

/-- Reads a whole entry. -/
def read (kind : EntryKind) (entry : Bytes) : Except Failure kind.Carrier :=
  kind.decode.complete entry

end EntryKind

end PhaseTree.Wire
