import Treewalk.Number.Basic
import Treewalk.Number.Decimal

/-!
# The fewest digits that read back

A finite double other than zero is the nearest double to a whole interval of reals, its `Basin`.
`Basin.shortest` is the decimal in that interval on the coarsest grid of powers of ten that has
one, hence the decimal of fewest digits that reads back as the double; of two such decimals it is
the nearer, and of two equally near the larger. Everything is exact arithmetic on natural
numbers. `Number.text` writes that decimal positionally, so no text of a number has an exponent.
-/

set_option autoImplicit false
set_option relaxedAutoImplicit false

namespace Treewalk

/-- The reals that round to one positive double: from `lower` to `upper` around the double itself
at `centre`, in units of `2 ^ exponent`. The two ends round to it when `closed`. -/
structure Basin where
  lower : Nat
  centre : Nat
  upper : Nat
  exponent : Int
  closed : Bool

namespace Basin

/-- The reals that round to `mantissa * 2 ^ exponent`, in quarters of the double's last place. Just
above a power of two the doubles below lie twice as close as those above, unless they are
subnormal, and the ends go to the even mantissa. -/
def ofFinite (mantissa : Nat) (exponent : Int) : Basin where
  lower :=
    if mantissa = 0x10000000000000 ∧ -1074 < exponent then 4 * mantissa - 1 else 4 * mantissa - 2
  centre := 4 * mantissa
  upper := 4 * mantissa + 2
  exponent := exponent - 2
  closed := mantissa % 2 = 0

/-- The multiple of `10 ^ power` in the basin nearest to its centre, given as the factor. Of two
multiples equally near the larger one is taken. -/
def nearest? (basin : Basin) (power : Int) : Option Nat :=
  let scale := Nat.pow 2 basin.exponent.toNat * Nat.pow 10 (-power).toNat
  let grid := Nat.pow 10 power.toNat * Nat.pow 2 (-basin.exponent).toNat
  let inside (factor : Nat) : Bool :=
    if basin.closed then
      basin.lower * scale ≤ factor * grid ∧ factor * grid ≤ basin.upper * scale
    else
      basin.lower * scale < factor * grid ∧ factor * grid < basin.upper * scale
  let below := basin.centre * scale / grid
  let distance := basin.centre * scale % grid
  if inside below && (2 * distance < grid || !inside (below + 1)) then
    some below
  else if inside (below + 1) then
    some (below + 1)
  else
    none

/-- A power of ten that no point of the basin reaches. The factor is a little more than the
decimal logarithm of two, and the added one covers what it loses below one. -/
def topPower (basin : Basin) : Int :=
  (basin.centre.log2 + 1 + basin.exponent) * 30103 / 100000 + 1

/-- The first hit on the grids of `10 ^ power` and at most `refinements` finer ones. -/
def coarsest (basin : Basin) : Nat → Int → Decimal
  | 0, power => ⟨(basin.nearest? power).getD 0, power⟩
  | refinements + 1, power =>
    match basin.nearest? power with
    | some factor => ⟨factor, power⟩
    | none => basin.coarsest refinements (power - 1)

/-- The shortest decimal in the basin. Seventeen digits always read back, and the first of them
stands at most two places below the top power, so nineteen grids are enough. -/
def shortest (basin : Basin) : Decimal :=
  basin.coarsest 18 basin.topPower

end Basin

namespace Number

/-- A minus sign before negative numbers, negative zero included. -/
def signed (sign : Float.Model.UnpackedFloat.Sign) (magnitude : String) : String :=
  match sign with
  | .positive => magnitude
  | .negative => "-" ++ magnitude

/-- The text of a number: the fewest digits that read back, in positional notation. -/
def text (x : Number) : String :=
  match x.toFloat.toModel.unpack with
  | .notANumber => "NaN"
  | .infinity sign => signed sign "inf"
  | .zero sign => signed sign "0"
  | .finite sign mantissa exponent _ =>
    signed sign (Basin.ofFinite mantissa exponent).shortest.positional

end Number

end Treewalk
