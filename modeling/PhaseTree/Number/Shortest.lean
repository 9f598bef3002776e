import PhaseTree.Number.Binary64

set_option autoImplicit false

/-!
The shortest decimal that reads back as a given binary64 number. The numbers that round to it form an
interval. On the grid of decimals with one digit, then two, and so on, the two grid points around the
number are tested against that interval in exact arithmetic; the first grid with a hit wins.
-/

namespace PhaseTree

/-- The number `digits[0].digits[1]… * 10 ^ exponent`. -/
structure Decimal where
  digits : List Char
  exponent : Int
  deriving DecidableEq

structure RoundingInterval where
  low : Nat
  value : Nat
  high : Nat
  denominator : Nat
  closed : Bool
  deriving DecidableEq

namespace Binary64

/-- The ends lie halfway to the two neighbours, and the lower neighbour is nearer than the upper one
at a power of two. Halfway cases round to even, so the ends count iff the significand is even. -/
def roundingInterval (x : Binary64) : RoundingInterval :=
  let unit := Nat.pow 2 x.exponent.toNat
  let below := if x.fraction = 0 ∧ 1 < x.exponentField then 1 else 2
  { low := (4 * x.significand - below) * unit
    value := 4 * x.significand * unit
    high := (4 * x.significand + 2) * unit
    denominator := 4 * Nat.pow 2 (-x.exponent).toNat
    closed := x.significand % 2 == 0 }

end Binary64

namespace RoundingInterval

def decimalLength (n : Nat) : Nat := (Nat.toDigits 10 n).length

def leading (r : RoundingInterval) : Int :=
  if r.denominator ≤ r.value then (decimalLength (r.value / r.denominator) : Int) - 1
  else -(decimalLength ((r.denominator - 1) / r.value) : Int)

def admits (r : RoundingInterval) (scale : Int) (multiple : Nat) : Bool :=
  let point := multiple * r.denominator * Nat.pow 10 (-scale).toNat
  let low := r.low * Nat.pow 10 scale.toNat
  let high := r.high * Nat.pow 10 scale.toNat
  if r.closed then low ≤ point && point ≤ high else low < point && point < high

/-- The nearer of the two grid points around the number if both are admitted, and the larger one if
they are equally near. -/
def onGrid (r : RoundingInterval) (scale : Int) : Option Nat :=
  let value := r.value * Nat.pow 10 scale.toNat
  let unit := r.denominator * Nat.pow 10 (-scale).toNat
  let floor := value / unit
  match r.admits scale floor, r.admits scale (floor + 1) with
  | true, true => some (if unit ≤ 2 * (value % unit) then floor + 1 else floor)
  | true, false => some floor
  | false, true => some (floor + 1)
  | false, false => none

def digitLimit : Nat := 17

def search (r : RoundingInterval) : Option (Nat × Nat) :=
  (List.range digitLimit).findSome? fun before =>
    (r.onGrid ((before : Nat) - r.leading)).map fun multiple => (before + 1, multiple)

def shortest (r : RoundingInterval) : Decimal :=
  match r.search with
  | some (count, multiple) =>
    let digits := Nat.toDigits 10 multiple
    { digits := (digits.reverse.dropWhile (· == '0')).reverse
      exponent := r.leading + digits.length - count }
  | none => ⟨['0'], 0⟩

end RoundingInterval

def Binary64.shortest (x : Binary64) : Decimal :=
  if x.isZero then ⟨['0'], 0⟩ else x.roundingInterval.shortest

end PhaseTree
