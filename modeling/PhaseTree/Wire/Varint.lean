import PhaseTree.Wire.Decoder

set_option autoImplicit false

/-!
Variable-width integers. A first byte up to 250 is the number itself; 251, 252 and 253 announce two,
four and eight bytes, least significant first. The encoder takes the shortest form, the decoder takes
any of them.
-/

namespace PhaseTree.Wire.Varint

def littleEndian : Nat → Nat → Bytes
  | 0, _ => []
  | width + 1, n => UInt8.ofNat n :: littleEndian width (n / 256)

def ofLittleEndian : Bytes → Nat
  | [] => 0
  | first :: rest => first.toNat + 256 * ofLittleEndian rest

/-- Numbers below `2 ^ 64`. -/
def encode (n : Nat) : Bytes :=
  if n ≤ 250 then [UInt8.ofNat n]
  else if n < 0x10000 then 251 :: littleEndian 2 n
  else if n < 0x100000000 then 252 :: littleEndian 4 n
  else 253 :: littleEndian 8 n

def fixed (width : Nat) : Decoder Nat := do return ofLittleEndian (← Decoder.block width)

def decode : Decoder Nat := do
  let first ← Decoder.byte
  if first ≤ 250 then return first.toNat
  else if first = 251 then fixed 2
  else if first = 252 then fixed 4
  else if first = 253 then fixed 8
  else if first = 254 then throw (.malformed .wideInteger)
  else throw (.malformed .reservedByte)

/-- For numbers that have to fit into four bytes. -/
def decode32 : Decoder Nat := do
  let n ← decode
  if n < 0x100000000 then return n else throw (.malformed (.overflow n))

theorem length_littleEndian (width n : Nat) : (littleEndian width n).length = width := by
  induction width generalizing n with
  | zero => rfl
  | succ width ih => rw [littleEndian, List.length_cons, ih]

theorem ofLittleEndian_cons (first : UInt8) (rest : Bytes) :
    ofLittleEndian (first :: rest) = first.toNat + 256 * ofLittleEndian rest := rfl

end PhaseTree.Wire.Varint
