set_option autoImplicit false

namespace PhaseTree

structure Binary64 where
  bits : UInt64
  deriving DecidableEq

namespace Binary64

def fractionSize : Nat := 0x10000000000000

def exponentSize : Nat := 0x800

def fraction (x : Binary64) : Nat := x.bits.toNat % fractionSize

def exponentField (x : Binary64) : Nat := x.bits.toNat / fractionSize % exponentSize

def isNegative (x : Binary64) : Bool := x.bits.toNat / fractionSize / exponentSize == 1

def isFinite (x : Binary64) : Bool := x.exponentField != exponentSize - 1

def isNaN (x : Binary64) : Bool := x.exponentField == exponentSize - 1 && x.fraction != 0

def isInfinite (x : Binary64) : Bool := x.exponentField == exponentSize - 1 && x.fraction == 0

def isZero (x : Binary64) : Bool := x.exponentField == 0 && x.fraction == 0

/-- A finite number has the magnitude `significand * 2 ^ exponent`. -/
def significand (x : Binary64) : Nat :=
  if x.exponentField = 0 then x.fraction else fractionSize + x.fraction

def exponent (x : Binary64) : Int := (max x.exponentField 1 : Nat) - 1075

def same (x y : Binary64) : Bool :=
  !x.isNaN && !y.isNaN && (x.bits == y.bits || (x.isZero && y.isZero))

theorem same_self (x : Binary64) : x.same x = !x.isNaN := by
  simp [same]

theorem same_comm (x y : Binary64) : x.same y = y.same x := by
  simp only [same, Bool.and_comm (!x.isNaN), Bool.and_comm x.isZero, BEq.comm (a := x.bits)]

end Binary64

end PhaseTree
