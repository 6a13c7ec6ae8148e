import Treewalk.Number.Basic

/-!
# Arithmetic on doubles beyond the four operations

`ofInt64` is the double nearest to a 64-bit integer. `truncatedRemainder` is the exact remainder
of the division rounded toward zero, computed on the integer mantissas of the two doubles and so
never rounded itself: it is smaller than the divisor and a multiple of a unit that both operands
are multiples of. `flooredRemainder` moves it to the side of the divisor by adding the divisor
once, in rounded arithmetic. `power` is the power of doubles with the rule for signaling NaNs.
-/

set_option autoImplicit false
set_option relaxedAutoImplicit false

namespace Treewalk.Number

/-- The double nearest to an integer, the even mantissa at a tie. -/
def ofInt64 (n : Int64) : Number :=
  float (.ofModel (.ofInt64 n))

/-- The remainder with the sign of the dividend, a zero remainder included. An infinite divisor
leaves a finite dividend as it is. Without a remainder (an infinite dividend, a zero divisor, a
NaN on either side) the answer is NaN. -/
def truncatedRemainder (dividend divisor : Float) : Float :=
  match dividend.toModel.unpack, divisor.toModel.unpack with
  | .finite sign mantissa exponent _, .finite _ mantissa' exponent' _ =>
    let unit := min exponent exponent'
    let remainder := (mantissa <<< (exponent - unit).toNat) %
      (mantissa' <<< (exponent' - unit).toNat)
    .ofModel (.pack (.round .binary64 sign remainder unit))
  | .zero _, .finite .. | .zero _, .infinity _ | .finite .., .infinity _ => dividend
  | _, _ => nan

/-- The truncated remainder, with the divisor added when the remainder is not zero and lies on the
other side of zero than the divisor. -/
def flooredRemainder (dividend divisor : Float) : Float :=
  let remainder := truncatedRemainder dividend divisor
  if remainder != 0 && decide (remainder < 0) != decide (divisor < 0) then
    remainder + divisor
  else
    remainder

/-- A power. The zeroth power of a quiet NaN is one, and so is one to the power of a quiet NaN; a
signaling NaN on either side always makes the power NaN. -/
def power : Number → Number → Float
  | float x, float y => x.pow y
  | _, _ => nan

end Treewalk.Number
