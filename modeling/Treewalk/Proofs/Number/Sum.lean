import Treewalk.Proofs.Number.Rounding

/-!
# Sums of doubles

The sum of two doubles is the double nearest to the sum of their numbers (`exists_sum`), in whatever
units it is made (`ofUnits_congr`). Packing keeps it, or makes an infinity of the same sign of it
(`Represents.unpack_pack_or`).
-/

set_option autoImplicit false
set_option relaxedAutoImplicit false

namespace Treewalk.Number

open Float.Model (UnpackedFloat Format)
open Float.Model.UnpackedFloat

/-! ### Packing -/

/-- Packing keeps what rounding comes to, unless its exponent is too large. -/
theorem Represents.unpack_pack_or {u : UnpackedFloat} {sign : Sign} {magnitude : ℚ}
    (h : Represents u sign magnitude) :
    unpack .binary64 (pack .binary64 u) = u ∨
      unpack .binary64 (pack .binary64 u) = .infinity sign ∧ 2 ^ 1024 ≤ magnitude := by
  obtain ⟨m, e, hpos, rfl, hrounded, hvalue⟩ := h
  by_cases hle : e ≤ 971
  · exact .inl (unpack_pack ⟨hrounded, hle⟩)
  refine .inr ⟨?_, ?_⟩
  · have hinfinity : pack .binary64 (.finite sign m e hpos) = packedInfinity .binary64 sign := by
      have hbias : (Format.exponentBias .binary64 : ℤ) = 1023 := rfl
      unfold pack
      dsimp only
      rw [hbias, if_pos (by push_cast; omega)]
    rw [hinfinity]
    cases sign <;> rfl
  · have hfull : (2 : ℚ) ^ 52 ≤ m := mod_cast hrounded.full.resolve_right (by omega)
    calc (2 : ℚ) ^ 1024
      _ = 2 ^ 52 * 2 ^ (972 : ℤ) := by
        rw [show (972 : ℤ) = (972 : ℕ) by rfl, zpow_natCast, ← pow_add]
      _ ≤ m * 2 ^ e := by
        gcongr
        · exact one_le_two
        · omega
      _ = magnitude := hvalue

theorem Represents.unpack_pack {u : UnpackedFloat} {sign : Sign} {magnitude : ℚ}
    (h : Represents u sign magnitude) (hlt : magnitude < 2 ^ 1024) :
    unpack .binary64 (pack .binary64 u) = u :=
  h.unpack_pack_or.resolve_right fun hlarge ↦ hlt.not_ge hlarge.2

theorem InFormat.scaled_lt {mantissa : ℕ} {exponent : ℤ} (h : InFormat mantissa exponent) :
    scaled mantissa exponent < 2 ^ 1024 := by
  have hmantissa : (mantissa : ℚ) < 2 ^ 53 := mod_cast h.mantissa_lt
  have hexponent : (2 : ℚ) ^ exponent ≤ 2 ^ (971 : ℤ) :=
    zpow_le_zpow_right₀ one_le_two h.exponent_le
  calc (mantissa : ℚ) * 2 ^ exponent
    _ < 2 ^ 53 * 2 ^ exponent := by gcongr
    _ ≤ 2 ^ 53 * 2 ^ (971 : ℤ) := by gcongr
    _ = 2 ^ 1024 := by rw [show (971 : ℤ) = (971 : ℕ) by rfl, zpow_natCast, ← pow_add]

theorem Represents.unpackedPoint? {u : UnpackedFloat} {sign : Sign} {magnitude : ℚ}
    (h : Represents u sign magnitude) :
    unpackedPoint? u = some (.ofRat (withSign sign magnitude)) := by
  obtain ⟨m, e, hpos, rfl, -, hvalue⟩ := h
  rw [Number.unpackedPoint?, scaled_apply, hvalue]

/-! ### Doubles of units -/

/-- The double nearest to a number of units. -/
def ofUnits (units exponent : ℤ) : Float :=
  .ofModel (.pack (UnpackedFloat.normalize .binary64 units exponent .positive))

theorem ofUnits_congr {units units' exponent exponent' : ℤ}
    (h : scaled units exponent = scaled units' exponent') (hexponent : -1074 ≤ exponent)
    (hexponent' : -1074 ≤ exponent') : ofUnits units exponent = ofUnits units' exponent' := by
  rw [ofUnits, ofUnits, normalize_congr h hexponent hexponent']

theorem point?_ofUnits {units exponent : ℤ} (hne : units ≠ 0) (hexponent : -1074 ≤ exponent)
    (hlt : rounded units.natAbs exponent < 2 ^ 1024) :
    point? (ofUnits units exponent) =
      some (.ofRat (withSign (signOf units) (rounded units.natAbs exponent))) := by
  have hrepresents := represents_normalize hne hexponent .positive
  show Number.unpackedPoint? (unpack .binary64 (pack .binary64 _)) = _
  rw [hrepresents.unpack_pack hlt, hrepresents.unpackedPoint?]

/-! ### Sums -/

theorem exists_finite {x : Float} {p : ℚ} (h : point? x = some (.ofRat p)) (hne : p ≠ 0) :
    ∃ sign mantissa exponent hpos, x.toModel.unpack = .finite sign mantissa exponent hpos ∧
      InFormat mantissa exponent ∧ scaled (sign.apply mantissa) exponent = p := by
  obtain ⟨sign, mantissa, exponent, hpos, hfinite, hvalue⟩ :=
    (zero_or_finite h).resolve_left fun hzero ↦ hne hzero.2
  have hcanonical : IsCanonical x.toModel.unpack := isCanonical_unpack _
  rw [hfinite] at hcanonical
  exact ⟨sign, mantissa, exponent, hpos, hfinite, hcanonical, hvalue⟩

/-- A mantissa in the units of a smaller exponent. -/
theorem scaled_shiftLeft (sign : Sign) (mantissa : ℕ) {exponent unit : ℤ} (h : unit ≤ exponent) :
    scaled (sign.apply (mantissa <<< (exponent - unit).toNat : ℕ)) unit =
      scaled (sign.apply mantissa) exponent := by
  rw [Nat.shiftLeft_eq, scaled_apply, scaled_apply]
  push_cast
  rw [scaled_mul_two_pow]
  congr 2
  omega

/-- The sum of two doubles is the double nearest to the sum of their numbers. -/
theorem exists_sum {x y : Float} {p q : ℚ} (hx : point? x = some (.ofRat p))
    (hy : point? y = some (.ofRat q)) (hp : p ≠ 0) (hq : q ≠ 0) :
    ∃ units exponent, -1074 ≤ exponent ∧ scaled units exponent = p + q ∧
      x + y = ofUnits units exponent := by
  obtain ⟨s, m, e, hpos, hunpack, hformat, rfl⟩ := exists_finite hx hp
  obtain ⟨s', m', e', hpos', hunpack', hformat', rfl⟩ := exists_finite hy hq
  have hle := hformat.le_exponent
  have hle' := hformat'.le_exponent
  have hadd : x + y = .ofModel (.pack (.add .binary64 x.toModel.unpack y.toModel.unpack)) := rfl
  rw [hunpack, hunpack'] at hadd
  refine ⟨_, min e e', by omega, ?_, hadd⟩
  rw [scaled_add, scaled_shiftLeft s m (min_le_left e e'),
    scaled_shiftLeft s' m' (min_le_right e e')]

end Treewalk.Number
