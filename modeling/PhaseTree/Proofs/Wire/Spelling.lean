import Mathlib.Computability.Language
import Mathlib.Data.Nat.Digits.Defs
import PhaseTree.Proofs.Name.Bytes
import PhaseTree.Wire.Entry

set_option autoImplicit false

/-!
The format as a grammar: for each value the language of the byte strings that spell it. Neither the
encoder nor the decoder is mentioned. A value has several spellings, because each of its integers
may be written wider than it has to be; the parts of a value stand next to each other, so the
language of the whole is the product of theirs.
-/

namespace PhaseTree.Wire

variable {α : Type}

namespace Varint

/-- First bytes that announce a wide form, each with the number of bytes that follow it. -/
def wideForms : List (UInt8 × Nat) := [(251, 2), (252, 4), (253, 8)]

/-- The number is a byte of its own, or is written in base 256, least significant digit first. -/
inductive Spells (n : Nat) : Bytes → Prop where
  | short (small : n ≤ 250) : Spells n [UInt8.ofNat n]
  | wide {first : UInt8} {digits : Bytes} (form : (first, digits.length) ∈ wideForms)
      (value : Nat.ofDigits 256 (digits.map UInt8.toNat) = n) : Spells n (first :: digits)

def spellings (n : Nat) : Language UInt8 := {entry | Spells n entry}

end Varint

/-- The length is that of the characters in UTF-8. -/
def textSpellings (text : String) : Language UInt8 :=
  let bytes := text.toList.flatMap String.utf8EncodeChar
  Varint.spellings bytes.length * {bytes}

def flagSpellings (flag : Bool) : Language UInt8 := {[if flag then 1 else 0]}

def sequenceSpellings (item : α → Language UInt8) (items : List α) : Language UInt8 :=
  Varint.spellings items.length * (items.map item).prod

def listingSpellings (item : α → Language UInt8) (listing : Listing α) : Language UInt8 :=
  sequenceSpellings item listing.items * flagSpellings listing.isOpen

def spanSpellings (span : Span) : Language UInt8 :=
  Varint.spellings span.start.toNat * Varint.spellings span.stop.toNat

def pathSpellings (path : ModulePath) : Language UInt8 :=
  sequenceSpellings textSpellings path.segments

def originSpellings : Origin → Language UInt8
  | .builtIn => Varint.spellings 0
  | .exported path => Varint.spellings 1 * pathSpellings path
  | .enclosing => Varint.spellings 2

def nameSpellings (name : QualifiedName) : Language UInt8 :=
  originSpellings name.origin * textSpellings name.name

def exportSpellings : Export → Language UInt8
  | .value name => Varint.spellings 0 * textSpellings name
  | .typeAlias name => Varint.spellings 1 * textSpellings name
  | .union name constructors =>
    Varint.spellings 2 * textSpellings name * listingSpellings textSpellings constructors

def EntryKind.spellings : (kind : EntryKind) → kind.Carrier → Language UInt8
  | text => textSpellings
  | flag => flagSpellings
  | word => fun word => Varint.spellings word.toNat
  | span => spanSpellings
  | rawName => fun name => textSpellings name.text
  | path => pathSpellings
  | origin => originSpellings
  | name => nameSpellings
  | symbol => exportSpellings
  | listing item => listingSpellings item.spellings
  | sequence item => sequenceSpellings item.spellings

namespace Varint

theorem ofLittleEndian_eq (digits : Bytes) :
    ofLittleEndian digits = Nat.ofDigits 256 (digits.map UInt8.toNat) := by
  induction digits with
  | nil => rfl
  | cons first rest ih => rw [ofLittleEndian_cons, ih, List.map_cons, Nat.ofDigits_cons]

theorem ofLittleEndian_lt (digits : Bytes) : ofLittleEndian digits < 256 ^ digits.length := by
  induction digits with
  | nil => exact Nat.one_pos
  | cons first rest ih =>
    have hb := first.toNat_lt
    rw [ofLittleEndian_cons, List.length_cons, Nat.pow_succ]
    omega

theorem littleEndian_ofLittleEndian (digits : Bytes) :
    littleEndian digits.length (ofLittleEndian digits) = digits := by
  induction digits with
  | nil => rfl
  | cons first rest ih =>
    have hb := first.toNat_lt
    have hd : (first.toNat + 256 * ofLittleEndian rest) / 256 = ofLittleEndian rest := by omega
    have hm : UInt8.ofNat (first.toNat + 256 * ofLittleEndian rest) = first := by
      apply UInt8.toNat_inj.1
      rw [UInt8.toNat_ofNat']
      omega
    rw [List.length_cons, ofLittleEndian_cons, littleEndian, hd, ih, hm]

theorem ofLittleEndian_littleEndian (width n : Nat) (h : n < 256 ^ width) :
    ofLittleEndian (littleEndian width n) = n := by
  induction width generalizing n with
  | zero => rw [littleEndian, ofLittleEndian]; omega
  | succ width ih =>
    rw [Nat.pow_succ] at h
    rw [littleEndian, ofLittleEndian_cons, ih (n / 256) (by omega), UInt8.toNat_ofNat']
    omega

theorem mem_wideForms {first : UInt8} {width : Nat} : (first, width) ∈ wideForms ↔
    first = 251 ∧ width = 2 ∨ first = 252 ∧ width = 4 ∨ first = 253 ∧ width = 8 := by
  simp [wideForms]

theorem spells_wide_iff (n : Nat) (first : UInt8) (digits : Bytes)
    (form : (first, digits.length) ∈ wideForms) :
    Spells n (first :: digits) ↔ ofLittleEndian digits = n := by
  rw [ofLittleEndian_eq]
  constructor
  · intro h
    cases h with
    | short => simp [wideForms] at form
    | wide _ value => exact value
  · exact Spells.wide form

end Varint

end PhaseTree.Wire
