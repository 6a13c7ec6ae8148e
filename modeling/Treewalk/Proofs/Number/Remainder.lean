import Treewalk.Proofs.Number.Sum
import Treewalk.Operation

/-!
# The sign of a remainder

The remainder of two finite doubles is zero if the dividend is a multiple of the divisor, and then
it has the sign of the dividend; any other remainder has the sign of the divisor (`remainder_sign`).
For the remainder toward zero is exact, so it vanishes for multiples alone, and where it lies on the
other side of zero than the divisor, the sum with the divisor cannot vanish.
-/

set_option autoImplicit false
set_option relaxedAutoImplicit false

namespace Treewalk

namespace Number

open Float.Model (UnpackedFloat Format)
open Float.Model.UnpackedFloat

/-! ### Sign bits -/

/-- Whether the leading bit of a double is set. -/
def signBit (x : Float) : Bool :=
  x.toBits.toBitVec.msb

def isNegative : Sign → Bool
  | .negative => true
  | .positive => false

theorem isNegative_injective : Function.Injective isNegative := by
  intro sign sign' h
  cases sign <;> cases sign' <;> first | rfl | cases h

def sign? : UnpackedFloat → Option Sign
  | .infinity sign | .zero sign | .finite sign _ _ _ => some sign
  | .notANumber => none

theorem unpackSign_eq (bits : BitVec (Format.numBits .binary64)) :
    unpackSign bits = BitVec.ofBool bits.msb := by
  ext i hi
  obtain rfl : i = 0 := by omega
  simp [unpackSign, BitVec.msb_eq_getLsbD_last]

theorem sign_of_unpack {bits : BitVec (Format.numBits .binary64)} {sign : Sign}
    (h : sign? (unpack .binary64 bits) = some sign) : sign = Sign.ofBitVec (unpackSign bits) := by
  unfold unpack at h
  dsimp only at h
  split_ifs at h <;> simp_all [sign?]

theorem signBit_of_sign? {x : Float} {sign : Sign} (h : sign? x.toModel.unpack = some sign) :
    signBit x = isNegative sign := by
  rw [sign_of_unpack h, unpackSign_eq]
  show _ = isNegative (Sign.ofBitVec (BitVec.ofBool (signBit x)))
  cases signBit x <;> rfl

/-! ### Zeros -/

theorem beq_zero_iff {x : Float} : x == 0 ↔ ∃ sign, x.toModel.unpack = .zero sign := by
  show (x.toModel.unpack.compare (.zero .positive) == some .eq) = true ↔ _
  rcases x.toModel.unpack with sign | _ | sign | ⟨sign, m, e, hpos⟩
  · cases sign <;> simp [UnpackedFloat.compare]
  · simp [UnpackedFloat.compare]
  · simp [UnpackedFloat.compare]
  · cases sign <;> simp [UnpackedFloat.compare]

theorem lt_zero_iff {x : Float} {sign : Sign} {m : ℕ} {e : ℤ} {hpos : 0 < m}
    (h : x.toModel.unpack = .finite sign m e hpos) : x < 0 ↔ isNegative sign := by
  have hzero : (0 : Float).toModel.unpack = .zero .positive := rfl
  rw [lt_iff, h, hzero]
  cases sign <;> simp [UnpackedFloat.compare, isNegative]

/-! ### Remainders of finite doubles -/

section Finite

variable {x y : Float} {s s' : Sign} {m m' : ℕ} {e e' : ℤ} {hpos : 0 < m} {hpos' : 0 < m'}

/-- The remainder of two mantissas, each in units of the smaller exponent. -/
def unitRemainder (m : ℕ) (e : ℤ) (m' : ℕ) (e' : ℤ) : ℕ :=
  (m <<< (e - min e e').toNat) % (m' <<< (e' - min e e').toNat)

theorem truncatedRemainder_eq (hx : x.toModel.unpack = .finite s m e hpos)
    (hy : y.toModel.unpack = .finite s' m' e' hpos') :
    truncatedRemainder x y =
      .ofModel (.pack (.round .binary64 s (unitRemainder m e m' e') (min e e'))) := by
  rw [truncatedRemainder, hx, hy]
  rfl

theorem shiftLeft_pos (hpos : 0 < m) (bits : ℕ) : 0 < m <<< bits := by
  rw [Nat.shiftLeft_eq]
  exact Nat.mul_pos hpos (Nat.two_pow_pos bits)

/-- A remainder has no more bits than one of the two mantissas. -/
theorem unitRemainder_lt (hm : m < 2 ^ 53) (hm' : m' < 2 ^ 53) (hpos' : 0 < m') :
    unitRemainder m e m' e' < 2 ^ 53 := by
  have hmod := Nat.mod_lt (m <<< (e - min e e').toNat)
    (shiftLeft_pos hpos' (e' - min e e').toNat)
  have hle := Nat.mod_le (m <<< (e - min e e').toNat) (m' <<< (e' - min e e').toNat)
  unfold unitRemainder
  rcases le_total e e' with h | h
  · rw [min_eq_left h, sub_self, Int.toNat_zero, Nat.shiftLeft_zero] at *
    omega
  · rw [min_eq_right h, sub_self, Int.toNat_zero, Nat.shiftLeft_zero] at *
    omega

/-- The remainder of rational numbers vanishes for multiples of the divisor. -/
theorem unitRemainder_eq_zero_iff :
    unitRemainder m e m' e' = 0 ↔
      ∃ k : ℤ, scaled (s.apply m) e = k * scaled (s'.apply m') e' := by
  have hdvd : ∀ {dividend divisor : ℕ}, dividend % divisor = 0 ↔
      ∃ k : ℤ, s.apply dividend = k * s'.apply divisor := by
    intro dividend divisor
    rw [← Nat.dvd_iff_mod_eq_zero, ← Int.natCast_dvd_natCast]
    have happly : ∀ (sign : Sign) (n : ℤ), sign.apply n ∣ n ∧ n ∣ sign.apply n := by
      intro sign n
      cases sign with
      | negative => exact ⟨neg_dvd.mpr dvd_rfl, dvd_neg.mpr dvd_rfl⟩
      | positive => exact ⟨dvd_rfl, dvd_rfl⟩
    constructor
    · intro h
      obtain ⟨k, hk⟩ := ((happly s' divisor).1.trans h).trans (happly s dividend).2
      exact ⟨k, by rw [hk, mul_comm]⟩
    · rintro ⟨k, hk⟩
      exact ((happly s' divisor).2.trans ⟨k, by rw [hk, mul_comm]⟩).trans (happly s dividend).1
  rw [unitRemainder, hdvd, ← scaled_shiftLeft s m (min_le_left e e'),
    ← scaled_shiftLeft s' m' (min_le_right e e')]
  refine exists_congr fun k ↦ ?_
  unfold scaled
  rw [← mul_assoc, mul_left_inj' (by positivity)]
  norm_cast

theorem scaled_unitRemainder_lt (hpos' : 0 < m') :
    scaled (unitRemainder m e m' e') (min e e') < scaled m' e' := by
  have hshifted := scaled_shiftLeft .positive m' (min_le_right e e')
  rw [Sign.apply, Sign.apply] at hshifted
  rw [← hshifted]
  unfold scaled
  gcongr
  exact Nat.mod_lt _ (shiftLeft_pos hpos' _)

theorem withSign_ne_zero {magnitude : ℚ} (h : magnitude ≠ 0) : withSign s magnitude ≠ 0 := by
  cases s with
  | negative => exact neg_ne_zero.mpr h
  | positive => exact h

/-- A smaller magnitude does not change the side of a number. -/
theorem signOf_of_scaled {units exponent : ℤ} {magnitude magnitude' : ℚ}
    (hlt : magnitude < magnitude')
    (hsum : scaled units exponent = withSign s magnitude + withSign s' magnitude') (hne : s ≠ s') :
    units ≠ 0 ∧ signOf units = s' := by
  cases s <;> cases s'
  · exact absurd rfl hne
  · have hpositive : 0 < scaled units exponent := by rw [hsum, withSign, withSign]; linarith
    have hunits : ¬ units < 0 := mt (scaled_lt_zero_iff units exponent).mpr hpositive.not_gt
    exact ⟨mt (scaled_eq_zero_iff units exponent).mpr hpositive.ne', if_neg hunits⟩
  · have hnegative : scaled units exponent < 0 := by rw [hsum, withSign, withSign]; linarith
    exact ⟨mt (scaled_eq_zero_iff units exponent).mpr hnegative.ne,
      if_pos ((scaled_lt_zero_iff units exponent).mp hnegative)⟩
  · exact absurd rfl hne

/-- What a sum with the divisor comes to has the sign of the divisor. -/
theorem sign?_ofUnits {units exponent : ℤ} (hne : units ≠ 0) (hexponent : -1074 ≤ exponent) :
    sign? (ofUnits units exponent).toModel.unpack = some (signOf units) ∧
      ¬ ofUnits units exponent == 0 := by
  have hrepresents := represents_normalize hne hexponent .positive
  have hunpack : (ofUnits units exponent).toModel.unpack =
    unpack .binary64 (pack .binary64 (.normalize .binary64 units exponent .positive)) := rfl
  rw [beq_zero_iff, hunpack]
  rcases hrepresents.unpack_pack_or with hkept | ⟨hinfinity, -⟩
  · rw [hkept]
    obtain ⟨m, e, hpos, hu, -⟩ := hrepresents
    rw [hu]
    exact ⟨rfl, nofun⟩
  · rw [hinfinity]
    exact ⟨rfl, nofun⟩

theorem truncatedRemainder_of_eq_zero (hx : x.toModel.unpack = .finite s m e hpos)
    (hy : y.toModel.unpack = .finite s' m' e' hpos') (hnone : unitRemainder m e m' e' = 0) :
    (truncatedRemainder x y).toModel.unpack = .zero s := by
  rw [truncatedRemainder_eq hx hy, hnone, round_zero]
  cases s <;> rfl

theorem flooredRemainder_of_zero (hx : x.toModel.unpack = .zero s)
    (hy : y.toModel.unpack = .finite s' m' e' hpos') : flooredRemainder x y = x := by
  have hbeq : x == 0 := beq_zero_iff.mpr ⟨s, hx⟩
  simp [flooredRemainder, truncatedRemainder, hx, hy, bne, hbeq]

/-- A remainder that is zero is not corrected. -/
theorem flooredRemainder_of_eq_zero (hx : x.toModel.unpack = .finite s m e hpos)
    (hy : y.toModel.unpack = .finite s' m' e' hpos') (hnone : unitRemainder m e m' e' = 0) :
    flooredRemainder x y = truncatedRemainder x y := by
  have hbeq : truncatedRemainder x y == 0 :=
    beq_zero_iff.mpr ⟨s, truncatedRemainder_of_eq_zero hx hy hnone⟩
  simp [flooredRemainder, bne, hbeq]

/-- The remainder toward zero is exact. -/
theorem represents_truncatedRemainder (hx : x.toModel.unpack = .finite s m e hpos)
    (hy : y.toModel.unpack = .finite s' m' e' hpos') (hformat : InFormat m e)
    (hformat' : InFormat m' e') (hsome : 0 < unitRemainder m e m' e') :
    Represents (truncatedRemainder x y).toModel.unpack s
      (scaled (unitRemainder m e m' e') (min e e')) := by
  have hunit : -1074 ≤ min e e' := le_min hformat.le_exponent hformat'.le_exponent
  have hrepresents := represents_round s hsome hunit
  have hlt : unitRemainder m e m' e' < 2 ^ 53 :=
    unitRemainder_lt hformat.mantissa_lt hformat'.mantissa_lt hpos'
  rw [rounded_of_lt hlt] at hrepresents
  have hkept := hrepresents.unpack_pack ((scaled_unitRemainder_lt hpos').trans hformat'.scaled_lt)
  have hunpack : (truncatedRemainder x y).toModel.unpack = unpack .binary64
      (pack .binary64 (.round .binary64 s (unitRemainder m e m' e') (min e e'))) := by
    rw [truncatedRemainder_eq hx hy]
    rfl
  rwa [hunpack, hkept]

/-- The divisor is added to a remainder on its other side. -/
theorem flooredRemainder_of_represents {magnitude : ℚ}
    (h : Represents (truncatedRemainder x y).toModel.unpack s magnitude)
    (hy : y.toModel.unpack = .finite s' m' e' hpos') :
    flooredRemainder x y =
      if isNegative s = isNegative s' then truncatedRemainder x y
      else truncatedRemainder x y + y := by
  obtain ⟨mr, er, hposr, hr, -⟩ := h
  have hne : (truncatedRemainder x y == 0) = false := by
    rw [← Bool.not_eq_true, beq_zero_iff, hr]
    nofun
  simp only [flooredRemainder, bne, hne, lt_zero_iff hr, lt_zero_iff hy]
  cases s <;> cases s' <;> simp [isNegative]

theorem flooredRemainder_sign (hx : x.toModel.unpack = .finite s m e hpos)
    (hy : y.toModel.unpack = .finite s' m' e' hpos') (hformat : InFormat m e)
    (hformat' : InFormat m' e') :
    (flooredRemainder x y == 0 ↔ unitRemainder m e m' e' = 0) ∧
      signBit (flooredRemainder x y) =
        if flooredRemainder x y == 0 then isNegative s else isNegative s' := by
  rcases Nat.eq_zero_or_pos (unitRemainder m e m' e') with hnone | hsome
  · have hzero := truncatedRemainder_of_eq_zero hx hy hnone
    have hbeq : truncatedRemainder x y == 0 := beq_zero_iff.mpr ⟨s, hzero⟩
    rw [flooredRemainder_of_eq_zero hx hy hnone, if_pos hbeq]
    exact ⟨iff_of_true hbeq hnone, signBit_of_sign? (hzero ▸ rfl)⟩
  -- A remainder that is not zero has the sign of the divisor or gets it from the sum.
  suffices h :
      sign? (flooredRemainder x y).toModel.unpack = some s' ∧ ¬ flooredRemainder x y == 0 by
    rw [if_neg h.2]
    exact ⟨iff_of_false h.2 hsome.ne', signBit_of_sign? h.1⟩
  have hrepresents := represents_truncatedRemainder hx hy hformat hformat' hsome
  rw [flooredRemainder_of_represents hrepresents hy]
  split_ifs with hsame
  · obtain ⟨mr, er, hposr, hr, -⟩ := hrepresents
    obtain rfl := isNegative_injective hsame
    rw [beq_zero_iff, hr]
    exact ⟨rfl, nofun⟩
  · have hne : s ≠ s' := mt (congrArg isNegative) hsame
    have hpoint' : point? y = some (.ofRat (withSign s' (scaled m' e'))) := by
      rw [point?, hy, unpackedPoint?, scaled_apply]
    have hmagnitude := scaled_pos (Int.natCast_pos.mpr hpos') e'
    obtain ⟨units, exponent, hexponent, hsum, hadd⟩ := exists_sum hrepresents.unpackedPoint? hpoint'
      (withSign_ne_zero (scaled_pos (Int.natCast_pos.mpr hsome) _).ne')
      (withSign_ne_zero hmagnitude.ne')
    obtain ⟨hunits, hsign⟩ := signOf_of_scaled (scaled_unitRemainder_lt hpos') hsum hne
    rw [hadd, ← hsign]
    exact sign?_ofUnits hunits hexponent

end Finite

theorem beq_zero_iff_point {x : Float} {p : ℚ} (h : point? x = some (.ofRat p)) :
    x == 0 ↔ p = 0 := by
  rw [beq_iff_point h (show point? 0 = some (.ofRat 0) from rfl)]
  exact Point.ofRat_strictMono.injective.eq_iff

/-- When a remainder is zero, and whose sign it has. -/
theorem signBit_flooredRemainder {x y : Float} {p q : ℚ} (hx : point? x = some (.ofRat p))
    (hy : point? y = some (.ofRat q)) (hq : q ≠ 0) :
    (flooredRemainder x y == 0 ↔ ∃ k : ℤ, p = k * q) ∧
      signBit (flooredRemainder x y) =
        if flooredRemainder x y == 0 then signBit x else signBit y := by
  obtain ⟨s', m', e', hpos', hunpack', hformat', rfl⟩ := exists_finite hy hq
  by_cases hp : p = 0
  · obtain ⟨s, hzero⟩ := beq_zero_iff.mp ((beq_zero_iff_point hx).mpr hp)
    have hbeq : x == 0 := beq_zero_iff.mpr ⟨s, hzero⟩
    rw [flooredRemainder_of_zero hzero hunpack', if_pos hbeq]
    exact ⟨iff_of_true hbeq ⟨0, by rw [hp]; simp⟩, rfl⟩
  · obtain ⟨s, m, e, hpos, hunpack, hformat, rfl⟩ := exists_finite hx hp
    have hsign := flooredRemainder_sign hunpack hunpack' hformat hformat'
    rw [signBit_of_sign? (hunpack ▸ rfl : sign? x.toModel.unpack = some s),
      signBit_of_sign? (hunpack' ▸ rfl : sign? y.toModel.unpack = some s')]
    exact ⟨hsign.1.trans unitRemainder_eq_zero_iff, hsign.2⟩

end Number

open Number

/-- The remainder of finite numbers is zero for the multiples of the divisor, which all keep the
sign of the dividend, and has the sign of the divisor otherwise. -/
theorem remainder_sign {a b : Number} (ha : a.toFloat.isFinite) (hb : b.toFloat.isFinite)
    (hzero : ¬ b.toFloat == 0) :
    ∃ (p q : ℚ) (r : Float), point? a.toFloat = some (.ofRat p) ∧
      point? b.toFloat = some (.ofRat q) ∧
      BinaryOp.modulo.apply (.number a) (.number b) = .ok (.number (.float r)) ∧
      (r == 0 ↔ ∃ k : ℤ, p = k * q) ∧
      signBit r = if r == 0 then signBit a.toFloat else signBit b.toFloat := by
  obtain ⟨p, hp⟩ := isFinite_iff.mp ha
  obtain ⟨q, hq⟩ := isFinite_iff.mp hb
  obtain ⟨hmultiple, hsign⟩ :=
    signBit_flooredRemainder hp hq (mt (beq_zero_iff_point hq).mpr hzero)
  exact ⟨p, q, _, hp, hq, rfl, hmultiple, hsign⟩

/-- A remainder with the sign of the divisor, which is not that of the dividend. -/
theorem remainder_sign_other_side :
    let a := Number.ofInt64 (-7)
    let b := Number.ofInt64 3
    ∃ (p q : ℚ) (r : Float), point? a.toFloat = some (.ofRat p) ∧
      point? b.toFloat = some (.ofRat q) ∧
      BinaryOp.modulo.apply (.number a) (.number b) = .ok (.number (.float r)) ∧
      (r == 0 ↔ ∃ k : ℤ, p = k * q) ∧
      signBit r = if r == 0 then signBit a.toFloat else signBit b.toFloat :=
  remainder_sign (by decide +kernel) (by decide +kernel) (by decide +kernel)

/-- A multiple of a positive divisor whose remainder is negative zero, and so shown. -/
theorem remainder_sign_of_multiple :
    ∃ (a b : Number) (r : Float), a.toFloat.isFinite ∧ b.toFloat.isFinite ∧ ¬ b.toFloat == 0 ∧
      BinaryOp.modulo.apply (.number a) (.number b) = .ok (.number (.float r)) ∧
      signBit r ≠ signBit b.toFloat ∧ Value.text (.number (.float r)) = "-0" := by
  refine ⟨.ofInt64 (-6), .ofInt64 3, _, ?_, ?_, ?_, rfl, ?_, ?_⟩ <;> decide +kernel

end Treewalk
