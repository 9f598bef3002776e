import PhaseTree.Export
import PhaseTree.Name.Basic
import PhaseTree.Span
import PhaseTree.Wire.Varint

set_option autoImplicit false

namespace PhaseTree.Wire

variable {α : Type}

def encodeText (text : String) : Bytes :=
  let bytes := text.toUTF8.data.toList
  Varint.encode bytes.length ++ bytes

/-- The length is checked before the bytes are. -/
def decodeText : Decoder String := do
  let bytes ← Decoder.block (← Varint.decode)
  match String.fromUTF8? ⟨bytes.toArray⟩ with
  | some text => return text
  | none => throw .invalidText

def encodeFlag (flag : Bool) : Bytes := [if flag then 1 else 0]

def decodeFlag : Decoder Bool := do
  match ← Decoder.byte with
  | 0 => return false
  | 1 => return true
  | other => throw (.invalidFlag other)

def encodeSequence (item : α → Bytes) (items : List α) : Bytes :=
  Varint.encode items.length ++ items.flatMap item

def decodeSequence (item : Decoder α) : Decoder (List α) := do
  Decoder.repeated item (← Varint.decode)

def encodeListing (item : α → Bytes) (listing : Listing α) : Bytes :=
  encodeSequence item listing.items ++ encodeFlag listing.isOpen

def decodeListing (item : Decoder α) : Decoder (Listing α) := do
  let items ← decodeSequence item
  let isOpen ← decodeFlag
  return ⟨items, isOpen⟩

def encodeSpan (span : Span) : Bytes :=
  Varint.encode span.start.toNat ++ Varint.encode span.stop.toNat

def decodeSpan : Decoder Span := do
  let start ← Varint.decode32
  let stop ← Varint.decode32
  return ⟨start.toUInt32, stop.toUInt32⟩

def encodePath (path : ModulePath) : Bytes := encodeSequence encodeText path.segments

def decodePath : Decoder ModulePath := do return ⟨← decodeSequence decodeText⟩

def encodeOrigin : Origin → Bytes
  | .builtIn => Varint.encode 0
  | .exported path => Varint.encode 1 ++ encodePath path
  | .enclosing => Varint.encode 2

def decodeOrigin : Decoder Origin := do
  match ← Varint.decode32 with
  | 0 => return .builtIn
  | 1 => return .exported (← decodePath)
  | 2 => return .enclosing
  | tag => throw (.malformed (.unknownTag tag))

def encodeName (name : QualifiedName) : Bytes := encodeOrigin name.origin ++ encodeText name.name

def decodeName : Decoder QualifiedName := do
  let origin ← decodeOrigin
  let name ← decodeText
  return ⟨origin, name⟩

def encodeExport : Export → Bytes
  | .value name => Varint.encode 0 ++ encodeText name
  | .typeAlias name => Varint.encode 1 ++ encodeText name
  | .union name constructors =>
    Varint.encode 2 ++ encodeText name ++ encodeListing encodeText constructors

def decodeExport : Decoder Export := do
  match ← Varint.decode32 with
  | 0 => return .value (← decodeText)
  | 1 => return .typeAlias (← decodeText)
  | 2 =>
    let name ← decodeText
    let constructors ← decodeListing decodeText
    return .union name constructors
  | tag => throw (.malformed (.unknownTag tag))

end PhaseTree.Wire
