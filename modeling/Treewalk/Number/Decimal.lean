/-!
# Decimals in positional notation

A `Decimal` is a natural number of units of a power of ten. `positional` writes it without an
exponent: zeros fill the places up to the point, and a point stands only before a fraction.
-/

set_option autoImplicit false
set_option relaxedAutoImplicit false

namespace Treewalk

/-- The number `digits * 10 ^ exponent`. -/
structure Decimal where
  digits : Nat
  exponent : Int
  deriving DecidableEq

namespace Decimal

/-- `n` zeros. -/
def zeros (n : Nat) : List Char :=
  List.replicate n '0'

/-- The digits of a decimal with all its places written out. The point stands `point` places
after the first digit, or before a row of `-point` zeros. -/
def positional (decimal : Decimal) : String :=
  let digits := Nat.toDigits 10 decimal.digits
  let point := digits.length + decimal.exponent
  String.ofList <|
    if 0 ≤ decimal.exponent then
      digits ++ zeros decimal.exponent.toNat
    else if 0 < point then
      digits.take point.toNat ++ '.' :: digits.drop point.toNat
    else
      '0' :: '.' :: zeros (-point).toNat ++ digits

end Decimal

end Treewalk
