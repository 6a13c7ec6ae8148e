import Treewalk.Proofs.Number.Line

/-!
# Rounding

A number of units that has too many bits loses its last ones: it goes to the nearest number of the
larger units, and to the even one of two that are equally near (`halfEven`). What comes of it
depends on the rational number alone and not on the units in which it was given (`rounded_congr`,
`normalize_congr`). `represents_round` says what the two shifts of `round` come to.
-/

set_option autoImplicit false
set_option relaxedAutoImplicit false

namespace Treewalk.Number

open Float.Model (UnpackedFloat Format totalExponent)
open Float.Model.UnpackedFloat

/-! ### The nearest number of larger units -/

/-- The nearest whole number of units of a power of two, the even one of two that are equally
near. -/
def halfEven (units bits : ℕ) : ℕ :=
  match compare (2 * (units % 2 ^ bits)) (2 ^ bits) with
  | .lt => units / 2 ^ bits
  | .eq => units / 2 ^ bits + units / 2 ^ bits % 2
  | .gt => units / 2 ^ bits + 1

theorem halfEven_of_compare {units units' bits bits' : ℕ}
    (hquotient : units / 2 ^ bits = units' / 2 ^ bits')
    (hcompare : compare (2 * (units % 2 ^ bits)) (2 ^ bits) =
      compare (2 * (units' % 2 ^ bits')) (2 ^ bits')) :
    halfEven units bits = halfEven units' bits' := by
  rw [halfEven, halfEven, hquotient, hcompare]

theorem halfEven_mul_two_pow (units bits bits' : ℕ) :
    halfEven (units * 2 ^ bits') (bits + bits') = halfEven units bits := by
  have hpos := Nat.two_pow_pos bits'
  apply halfEven_of_compare
  · rw [pow_add, Nat.mul_div_mul_right _ _ hpos]
  · rw [pow_add, Nat.mul_mod_mul_right, ← mul_assoc, ← cmp_eq_compare, ← cmp_eq_compare]
    exact (strictMono_mul_right_of_pos hpos).cmp_map_eq _ _

/-- Units that are whole in the larger ones lose nothing. -/
theorem halfEven_exact (quotient bits : ℕ) : halfEven (quotient * 2 ^ bits) bits = quotient := by
  have hpos := Nat.two_pow_pos bits
  rw [halfEven, Nat.mul_mod_left, mul_zero, Nat.compare_eq_lt.mpr hpos]
  exact Nat.mul_div_cancel _ hpos

theorem halfEven_zero (units : ℕ) : halfEven units 0 = units := by
  simpa using halfEven_exact units 0

theorem halfEven_bounds {units bits low high : ℕ} (hlow : low * 2 ^ bits ≤ units)
    (hhigh : units < high * 2 ^ bits) :
    low ≤ halfEven units bits ∧ halfEven units bits ≤ high := by
  have hquotient := (Nat.le_div_iff_mul_le (Nat.two_pow_pos bits)).mpr hlow
  have hquotient' := (Nat.div_lt_iff_lt_mul (Nat.two_pow_pos bits)).mpr hhigh
  unfold halfEven
  split <;> omega

theorem lt_two_pow_mul (units : ℕ) : units < 2 ^ 53 * 2 ^ (units.log2 - 52) := by
  rw [← pow_add]
  exact Nat.lt_log2_self.trans_le (Nat.pow_le_pow_right two_pos (by omega))

/-- What is left of a number of units in 53 bits. -/
def rounded (units : ℕ) (exponent : ℤ) : ℚ :=
  scaled (halfEven units (units.log2 - 52)) (exponent + (units.log2 - 52 : ℕ))

theorem log2_lt_of_lt {units : ℕ} (h : units < 2 ^ 53) : units.log2 < 53 := by
  by_cases hzero : units = 0
  · rw [hzero]
    decide
  · exact (Nat.log2_lt hzero).mpr h

/-- Nothing is lost in 53 bits. -/
theorem rounded_of_lt {units : ℕ} (h : units < 2 ^ 53) (exponent : ℤ) :
    rounded units exponent = scaled units exponent := by
  rw [rounded, Nat.sub_eq_zero_of_le (Nat.le_of_lt_succ (log2_lt_of_lt h)), halfEven_zero,
    Nat.cast_zero, add_zero]

theorem log2_mul_two_pow {units : ℕ} (h : units ≠ 0) (bits : ℕ) :
    (units * 2 ^ bits).log2 = units.log2 + bits := by
  rw [Nat.log2_eq_iff (Nat.mul_ne_zero h (Nat.two_pow_pos bits).ne'), add_right_comm, pow_add,
    pow_add _ _ bits]
  exact ⟨Nat.mul_le_mul_right _ (Nat.log2_self_le h),
    Nat.mul_lt_mul_of_pos_right Nat.lt_log2_self (Nat.two_pow_pos bits)⟩

theorem rounded_mul_two_pow {units : ℕ} (h : units ≠ 0) (bits : ℕ) (exponent : ℤ) :
    rounded (units * 2 ^ bits) exponent = rounded units (exponent + bits) := by
  unfold rounded
  rw [log2_mul_two_pow h]
  by_cases hlong : 52 ≤ units.log2
  · rw [Nat.sub_add_comm hlong, halfEven_mul_two_pow]
    congr 1
    push_cast
    ring
  -- Here the units fit into 53 bits, and those of the smaller units that are dropped are zero.
  · obtain ⟨kept, hkept⟩ := Nat.exists_eq_add_of_le (show units.log2 + bits - 52 ≤ bits by omega)
    rw [Nat.sub_eq_zero_of_le (by omega : units.log2 ≤ 52), halfEven_zero]
    generalize units.log2 + bits - 52 = dropped at *
    rw [hkept, Nat.add_comm, pow_add, ← mul_assoc, halfEven_exact]
    push_cast
    rw [scaled_mul_two_pow]
    congr 1
    ring

/-- Rounding sees a rational number and not the units in which it is given. -/
theorem rounded_congr {units units' : ℕ} {exponent exponent' : ℤ} (hpos : units ≠ 0)
    (hpos' : units' ≠ 0) (h : scaled units exponent = scaled units' exponent') :
    rounded units exponent = rounded units' exponent' := by
  wlog hle : exponent ≤ exponent' generalizing units units' exponent exponent'
  · exact (this hpos' hpos h.symm (by omega)).symm
  obtain ⟨bits, rfl⟩ := Int.le.dest hle
  rw [← scaled_mul_two_pow] at h
  have hunits : units = units' * 2 ^ bits := by
    have := mul_right_cancel₀ (zpow_ne_zero exponent (two_ne_zero' ℚ)) h
    exact_mod_cast this
  rw [hunits, rounded_mul_two_pow hpos']

/-! ### What rounding comes to -/

/-- The bits kept beside a mantissa say how its rest compares to half a unit. -/
theorem shiftRight_ofMantissa (mantissa bits : ℕ) :
    ExtendedMantissa.ofMantissaAndAccuracy mantissa .exact >>> bits =
      ⟨mantissa / 2 ^ bits, decide (2 ^ bits ≤ 2 * (mantissa % 2 ^ bits)),
        decide (mantissa % 2 ^ bits ≠ 0 ∧ 2 * (mantissa % 2 ^ bits) ≠ 2 ^ bits)⟩ := by
  induction bits with
  | zero =>
    simp [HShiftRight.hShiftRight, Nat.repeat, ExtendedMantissa.ofMantissaAndAccuracy, Nat.mod_one]
  | succ bits ih =>
    have hstep : ExtendedMantissa.ofMantissaAndAccuracy mantissa .exact >>> (bits + 1) =
      (ExtendedMantissa.ofMantissaAndAccuracy mantissa .exact >>> bits).shiftRightOne := rfl
    have hlt := Nat.mod_lt mantissa (Nat.two_pow_pos bits)
    rw [hstep, ih, ExtendedMantissa.shiftRightOne, Nat.mod_pow_succ, pow_succ,
      ← Nat.div_div_eq_div_mul]
    generalize 2 ^ bits = unit at *
    generalize mantissa % unit = rest at *
    rcases Nat.mod_two_eq_zero_or_one (mantissa / unit) with hbit | hbit
    · simp only [hbit, ExtendedMantissa.mk.injEq, true_and]
      constructor
      · simp; omega
      · rw [← Bool.decide_or, decide_eq_decide]; omega
    · simp only [hbit, ExtendedMantissa.mk.injEq, true_and]
      constructor
      · simp; omega
      · rw [← Bool.decide_or, decide_eq_decide]; omega

theorem roundedMantissa_shiftRight (mantissa bits : ℕ) :
    (ExtendedMantissa.ofMantissaAndAccuracy mantissa .exact >>> bits).roundedMantissa =
      halfEven mantissa bits := by
  have hpos := Nat.two_pow_pos bits
  rw [shiftRight_ofMantissa, ExtendedMantissa.roundedMantissa, halfEven]
  generalize 2 ^ bits = unit at *
  generalize mantissa % unit = rest at *
  rcases lt_trichotomy (2 * rest) unit with hlt | heq | hgt
  · rw [Nat.compare_eq_lt.mpr hlt, decide_eq_false (by omega)]
    by_cases hrest : rest = 0
    · rw [decide_eq_false (by omega)]
      rfl
    · rw [decide_eq_true (by omega)]
      rfl
  · rw [Nat.compare_eq_eq.mpr heq, decide_eq_true heq.ge, decide_eq_false (by omega)]
    rfl
  · rw [Nat.compare_eq_gt.mpr hgt, decide_eq_true hgt.le, decide_eq_true (by omega)]
    rfl

theorem targetExponent_eq (mantissa : ℕ) (exponent : ℤ) :
    Format.targetExponent .binary64 (totalExponent mantissa exponent) =
      max (mantissa.log2 + exponent - 52) (-1074) := by
  have h : Format.targetExponent .binary64 (totalExponent mantissa exponent) =
    max (mantissa.log2 + 1 + exponent - 53) (-1074) := rfl
  omega

theorem shiftToTargetExponent_eq {mantissa bits : ℕ} {exponent : ℤ}
    (h : (max (mantissa.log2 + exponent - 52) (-1074) - exponent).toNat = bits) :
    shiftToTargetExponent .binary64 mantissa exponent .exact =
      (ExtendedMantissa.ofMantissaAndAccuracy mantissa .exact >>> bits, exponent + bits) := by
  unfold shiftToTargetExponent shiftToExponent
  dsimp only
  rw [targetExponent_eq, h]

/-- A finite double of the given sign and magnitude, whatever its exponent. -/
def Represents (u : UnpackedFloat) (sign : Sign) (magnitude : ℚ) : Prop :=
  ∃ mantissa exponent hpos, u = .finite sign mantissa exponent hpos ∧
    IsRounded mantissa exponent ∧ scaled mantissa exponent = magnitude

theorem Represents.unique {u v : UnpackedFloat} {sign : Sign} {magnitude : ℚ}
    (hu : Represents u sign magnitude) (hv : Represents v sign magnitude) : u = v := by
  obtain ⟨m, e, hpos, rfl, hm, hvalue⟩ := hu
  obtain ⟨m', e', hpos', rfl, hm', hvalue'⟩ := hv
  obtain ⟨rfl, rfl⟩ := hm.unique hm' (hvalue.trans hvalue'.symm)
  rfl

/-- The second shift of rounding, for a mantissa that may have carried. -/
def settled (sign : Sign) (mantissa : ℕ) (exponent : ℤ) : UnpackedFloat :=
  let shifted := shiftToTargetExponent .binary64 mantissa exponent .exact
  if h : shifted.1.mantissa = 0 then .zero sign
  else .finite sign shifted.1.mantissa shifted.2 (Nat.pos_of_ne_zero h)

theorem settled_of_shift {mantissa bits : ℕ} {exponent : ℤ} (sign : Sign)
    (h : (max (mantissa.log2 + exponent - 52) (-1074) - exponent).toNat = bits)
    (hpos : 0 < mantissa / 2 ^ bits) :
    settled sign mantissa exponent = .finite sign (mantissa / 2 ^ bits) (exponent + bits) hpos := by
  unfold settled
  simp only [shiftToTargetExponent_eq h, shiftRight_ofMantissa, dif_neg hpos.ne']

/-- The carry out of a mantissa is exact. -/
theorem represents_settled {mantissa : ℕ} {exponent : ℤ} (sign : Sign) (hpos : 0 < mantissa)
    (hle : mantissa ≤ 2 ^ 53) (hexponent : -1074 ≤ exponent)
    (hfull : 2 ^ 52 ≤ mantissa ∨ exponent = -1074) :
    Represents (settled sign mantissa exponent) sign (scaled mantissa exponent) := by
  rcases hle.lt_or_eq with hlt | rfl
  · have hshift : (max ((mantissa.log2 : ℤ) + exponent - 52) (-1074) - exponent).toNat = 0 := by
      have := log2_lt_of_lt hlt
      omega
    have hmantissa : mantissa / 2 ^ 0 = mantissa := by rw [pow_zero, Nat.div_one]
    refine ⟨_, _, by rwa [hmantissa], settled_of_shift sign hshift (by rwa [hmantissa]), ?_, ?_⟩
    · rw [hmantissa, Nat.cast_zero, add_zero]
      exact ⟨hlt, hexponent, hfull⟩
    · rw [hmantissa, Nat.cast_zero, add_zero]
  · have hshift : (max (((2 ^ 53 : ℕ).log2 : ℤ) + exponent - 52) (-1074) - exponent).toNat = 1 := by
      rw [Nat.log2_two_pow]
      omega
    refine ⟨_, _, by decide, settled_of_shift sign hshift _, ?_, ?_⟩
    · exact ⟨by decide, by push_cast; omega, .inl (by decide)⟩
    · rw [← scaled_mul_two_pow]
      rfl

theorem roundWithAccuracy_eq (sign : Sign) {mantissa bits : ℕ} {exponent : ℤ}
    (h : (max (mantissa.log2 + exponent - 52) (-1074) - exponent).toNat = bits) :
    roundWithAccuracy .binary64 sign mantissa exponent .exact =
      settled sign (halfEven mantissa bits) (exponent + bits) := by
  unfold roundWithAccuracy
  simp only [shiftToTargetExponent_eq h, roundedMantissa_shiftRight]
  rfl

/-- Rounding units that are not too large to begin with. -/
theorem represents_roundWithAccuracy (sign : Sign) {units : ℕ} {exponent : ℤ} (hpos : 0 < units)
    (hexponent : -1074 ≤ exponent) (hlong : 52 ≤ units.log2 ∨ exponent = -1074) :
    Represents (roundWithAccuracy .binary64 sign units exponent .exact) sign
      (rounded units exponent) := by
  have hbits : (max ((units.log2 : ℤ) + exponent - 52) (-1074) - exponent).toNat =
    units.log2 - 52 := by omega
  have hhigh := lt_two_pow_mul units
  rw [roundWithAccuracy_eq sign hbits]
  by_cases hlog : 52 ≤ units.log2
  · have hlow : 2 ^ 52 * 2 ^ (units.log2 - 52) ≤ units := by
      rw [← pow_add, Nat.add_sub_of_le hlog]
      exact Nat.log2_self_le hpos.ne'
    obtain ⟨hle, hge⟩ := halfEven_bounds hlow hhigh
    exact represents_settled sign (by omega) hge (by omega) (.inl hle)
  · have hexact : halfEven units (units.log2 - 52) = units := by
      rw [Nat.sub_eq_zero_of_le (by omega), halfEven_zero]
    have hge := (halfEven_bounds (Nat.zero_mul _ ▸ Nat.zero_le units) hhigh).2
    refine represents_settled sign (by omega) hge (by omega) (.inr ?_)
    rw [hlong.resolve_left hlog]
    omega

theorem represents_round (sign : Sign) {units : ℕ} {exponent : ℤ} (hpos : 0 < units)
    (hexponent : -1074 ≤ exponent) :
    Represents (UnpackedFloat.round .binary64 sign units exponent) sign
      (rounded units exponent) := by
  unfold UnpackedFloat.round decreaseExponent
  dsimp only
  rw [targetExponent_eq, Nat.shiftLeft_eq]
  have hbits : ∀ bits : ℕ,
      (exponent - max ((units.log2 : ℤ) + exponent - 52) (-1074)).toNat = bits →
      -1074 ≤ exponent - bits ∧ (52 ≤ units.log2 + bits ∨ exponent - bits = -1074) := by omega
  generalize (exponent - max ((units.log2 : ℤ) + exponent - 52) (-1074)).toNat = bits at *
  obtain ⟨hle, hlong⟩ := hbits bits rfl
  have hrounded := rounded_mul_two_pow hpos.ne' bits (exponent - bits)
  rw [sub_add_cancel] at hrounded
  rw [← hrounded]
  refine represents_roundWithAccuracy sign (Nat.mul_pos hpos (Nat.two_pow_pos bits)) hle ?_
  rwa [log2_mul_two_pow hpos.ne']

theorem round_zero (sign : Sign) (exponent : ℤ) :
    UnpackedFloat.round .binary64 sign 0 exponent = .zero sign := by
  have hkept : ∀ bits, halfEven 0 bits = 0 := fun bits ↦ by simpa using halfEven_exact 0 bits
  unfold UnpackedFloat.round decreaseExponent
  dsimp only
  rw [Nat.zero_shiftLeft, roundWithAccuracy_eq sign rfl, hkept]
  unfold settled
  simp only [shiftToTargetExponent_eq rfl, shiftRight_ofMantissa, Nat.zero_div, dite_true]

/-! ### Signed numbers of units -/

def signOf (units : ℤ) : Sign :=
  if units < 0 then .negative else .positive

theorem represents_normalize {units exponent : ℤ} (hne : units ≠ 0) (hexponent : -1074 ≤ exponent)
    (zeroSign : Sign) :
    Represents (normalize .binary64 units exponent zeroSign) (signOf units)
      (rounded units.natAbs exponent) := by
  unfold UnpackedFloat.normalize signOf
  rcases hne.lt_or_gt with hneg | hpos
  · rw [Int.compare_eq_lt.mpr hneg, if_pos hneg, show units.natAbs = (-units).toNat by omega]
    exact represents_round .negative (by omega) hexponent
  · rw [Int.compare_eq_gt.mpr hpos, if_neg hpos.not_gt, show units.natAbs = units.toNat by omega]
    exact represents_round .positive (by omega) hexponent

theorem normalize_zero (exponent : ℤ) (zeroSign : Sign) :
    normalize .binary64 0 exponent zeroSign = .zero zeroSign :=
  rfl

/-- Rounding a sum does not depend on the units in which it was made. -/
theorem normalize_congr {units units' exponent exponent' : ℤ}
    (h : scaled units exponent = scaled units' exponent') (hexponent : -1074 ≤ exponent)
    (hexponent' : -1074 ≤ exponent') (zeroSign : Sign) :
    normalize .binary64 units exponent zeroSign =
      normalize .binary64 units' exponent' zeroSign := by
  have hzero : units = 0 ↔ units' = 0 := by
    rw [← scaled_eq_zero_iff units exponent, h, scaled_eq_zero_iff]
  by_cases hne : units = 0
  · rw [hne, hzero.mp hne, normalize_zero, normalize_zero]
  · have hne' : units' ≠ 0 := mt hzero.mpr hne
    have hsign : signOf units = signOf units' := by
      have hneg : units < 0 ↔ units' < 0 := by
        rw [← scaled_lt_zero_iff units exponent, h, scaled_lt_zero_iff]
      simp only [signOf, hneg]
    have hrounded : rounded units.natAbs exponent = rounded units'.natAbs exponent' :=
      rounded_congr (Int.natAbs_ne_zero.mpr hne) (Int.natAbs_ne_zero.mpr hne')
        (by rw [scaled_natAbs, scaled_natAbs, h])
    refine (represents_normalize hne hexponent zeroSign).unique ?_
    rw [hsign, hrounded]
    exact represents_normalize hne' hexponent' zeroSign

end Treewalk.Number
