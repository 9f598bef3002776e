import PhaseTree.Number.Shortest

set_option autoImplicit false

namespace PhaseTree

/-- Positional text is used for exponents from `least` to `greatest`. -/
structure DecimalStyle where
  least : Int
  greatest : Int

namespace Decimal

def zeros (count : Nat) : List Char := List.replicate count '0'

def positional (d : Decimal) : List Char :=
  if d.exponent < 0 then '0' :: '.' :: zeros (-d.exponent - 1).toNat ++ d.digits
  else
    let whole := d.exponent.toNat + 1
    if d.digits.length ≤ whole then d.digits ++ zeros (whole - d.digits.length) ++ ['.', '0']
    else d.digits.take whole ++ '.' :: d.digits.drop whole

def scientific (d : Decimal) : List Char :=
  let significand :=
    match d.digits with
    | first :: second :: rest => first :: '.' :: second :: rest
    | digits => digits
  significand ++ 'e' :: d.exponent.repr.toList

def write (style : DecimalStyle) (d : Decimal) : List Char :=
  if style.least ≤ d.exponent ∧ d.exponent ≤ style.greatest then d.positional else d.scientific

end Decimal

def Binary64.write (style : DecimalStyle) (x : Binary64) : String :=
  String.ofList ((if x.isNegative then ['-'] else []) ++ x.shortest.write style)

end PhaseTree
