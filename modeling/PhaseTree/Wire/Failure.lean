set_option autoImplicit false

namespace PhaseTree.Wire

inductive Defect where
  | wideInteger
  /-- A first byte that announces no width at all. -/
  | reservedByte
  /-- An integer that does not fit into four bytes although it has to. -/
  | overflow (value : Nat)
  | unknownTag (tag : Nat)
  | trailing
  deriving DecidableEq

namespace Defect

def message : Defect → String
  | wideInteger =>
    "Invalid value (u128 range): you may have a version or configuration disagreement?"
  | reservedByte =>
    "\nByte 255 is treated as an extension point; it should not be encoding anything.\n" ++
      "Do you have a mismatched bincode version or configuration?\n"
  | overflow value => "Invalid u32 " ++ value.repr ++ ": you may have a version disagreement?"
  | unknownTag tag =>
    "invalid value: integer `" ++ tag.repr ++ "`, expected variant index 0 <= i < 3"
  | trailing => "Slice had bytes remaining after deserialization"

end Defect

inductive Failure where
  | unexpectedEnd
  | invalidText
  | invalidFlag (byte : UInt8)
  | malformed (defect : Defect)
  deriving DecidableEq

namespace Failure

def hexByte (byte : UInt8) : String :=
  String.ofList [Nat.digitChar (byte.toNat / 16), Nat.digitChar (byte.toNat % 16)]

def message : Failure → String
  | unexpectedEnd => "unexpected end of input"
  | invalidText => "string is not valid UTF-8"
  | invalidFlag byte => "invalid bool byte 0x" ++ hexByte byte
  | malformed defect => "malformed cache entry: " ++ defect.message

end Failure

end PhaseTree.Wire
