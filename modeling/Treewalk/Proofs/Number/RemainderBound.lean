import Treewalk.Proofs.Number.Nearest
import Treewalk.Proofs.Number.Remainder

/-!
# The size of a remainder

The remainder of two finite doubles is the one double nearest to the remainder of their numbers
(`isNearest_iff_flooredRemainder`). So it is never larger than the divisor, and smaller unless the
divisor itself is that double (`remainder_bound`). This happens if a small remainder on the other
side of zero is lost where the divisor is added to it.
-/

set_option autoImplicit false
set_option relaxedAutoImplicit false

namespace Treewalk

namespace Number

open Float.Model (UnpackedFloat Format)
open Float.Model.UnpackedFloat

/-! ### Remainders of rational numbers -/

section Rational

variable {p q v : ℚ}

/-- The remainder of a division that is rounded down. -/
def exactRemainder (p q : ℚ) : ℚ :=
  p - q * ⌊p / q⌋

theorem exactRemainder_div (p : ℚ) (hq : q ≠ 0) :
    0 ≤ exactRemainder p q / q ∧ exactRemainder p q / q < 1 := by
  have hfract : exactRemainder p q / q = Int.fract (p / q) := by
    rw [exactRemainder, sub_div, mul_div_cancel_left₀ _ hq, Int.fract]
  rw [hfract]
  exact ⟨Int.fract_nonneg _, Int.fract_lt_one _⟩

/-- A remainder is told by its place between zero and the divisor. -/
theorem exactRemainder_eq (k : ℤ) (hq : q ≠ 0) (hp : p = k * q + v) (hlow : 0 ≤ v / q)
    (hhigh : v / q < 1) : exactRemainder p q = v := by
  have hfloor : ⌊p / q⌋ = k := by
    rw [Int.floor_eq_iff, hp, add_div, mul_div_cancel_right₀ _ hq]
    constructor <;> linarith
  rw [exactRemainder, hfloor, hp]
  ring

theorem exactRemainder_mul (k : ℤ) (hq : q ≠ 0) : exactRemainder (k * q) q = 0 :=
  exactRemainder_eq k hq (add_zero _).symm (zero_div q).ge ((zero_div q).trans_lt one_pos)

/-- What lies between zero and a number is smaller, unless it is that number. -/
theorem abs_le_of_div (hq : q ≠ 0) (hlow : 0 ≤ v / q) (hhigh : v / q ≤ 1) :
    |v| ≤ |q| ∧ (|v| < |q| ↔ v ≠ q) := by
  have habs : |v| = v / q * |q| := by
    rw [← abs_of_nonneg hlow, abs_div, div_mul_cancel₀ _ (abs_ne_zero.mpr hq)]
  have hpos := abs_pos.mpr hq
  rw [habs, mul_le_iff_le_one_left hpos, mul_lt_iff_lt_one_left hpos, hhigh.lt_iff_ne,
    ne_eq, div_eq_one_iff_eq hq]
  exact ⟨hhigh, Iff.rfl⟩

end Rational

/-- A number between zero and a double is rounded to a double between them. -/
theorem IsNearest.between {x y : Float} {p q v : ℚ} (h : IsNearest x v)
    (hx : point? x = some (.ofRat p)) (hy : point? y = some (.ofRat q)) (hq : q ≠ 0)
    (hlow : 0 ≤ v / q) (hhigh : v / q ≤ 1) : 0 ≤ p / q ∧ p / q ≤ 1 := by
  have hdivided : ∀ {r}, |p - v| ≤ |r - v| → |p / q - v / q| ≤ |r / q - v / q| := by
    intro r hle
    rw [← sub_div, ← sub_div, abs_div, abs_div]
    gcongr
  have hzero := hdivided (h.abs_sub_le hx (show point? 0 = some (.ofRat 0) from rfl))
  have hone := hdivided (h.abs_sub_le hx hy)
  rw [zero_div, zero_sub, abs_neg, abs_of_nonneg hlow] at hzero
  rw [div_self hq, abs_of_nonneg (sub_nonneg.mpr hhigh)] at hone
  constructor
  · linarith [neg_abs_le (p / q - v / q)]
  · linarith [le_abs_self (p / q - v / q)]

/-! ### Remainders of finite doubles -/

section Finite

variable {x y : Float} {s s' : Sign} {m m' : ℕ} {e e' : ℤ} {hpos : 0 < m} {hpos' : 0 < m'}

theorem scaled_apply_ne_zero (s : Sign) (hpos : 0 < m) (e : ℤ) : scaled (s.apply m) e ≠ 0 := by
  rw [scaled_apply]
  exact withSign_ne_zero (scaled_pos (mod_cast hpos) e).ne'

/-- The remainder toward zero is what a multiple of the divisor leaves. -/
theorem exists_multiple (s s' : Sign) (m : ℕ) (e : ℤ) (m' : ℕ) (e' : ℤ) :
    ∃ k : ℤ, scaled (s.apply m) e = k * scaled (s'.apply m') e' +
      withSign s (scaled (unitRemainder m e m' e') (min e e')) := by
  have hunits : ∀ dividend divisor : ℕ, ∃ k : ℤ,
      s.apply dividend = k * s'.apply divisor + s.apply (dividend % divisor : ℕ) := by
    intro dividend divisor
    have hdivision : (dividend : ℤ) =
        (dividend / divisor : ℕ) * divisor + (dividend % divisor : ℕ) :=
      mod_cast (Nat.div_add_mod' dividend divisor).symm
    cases s <;> cases s' <;> simp only [Sign.apply]
    · exact ⟨(dividend / divisor : ℕ), by linarith⟩
    · exact ⟨-(dividend / divisor : ℕ), by linarith⟩
    · exact ⟨-(dividend / divisor : ℕ), by linarith⟩
    · exact ⟨(dividend / divisor : ℕ), by linarith⟩
  obtain ⟨k, hk⟩ := hunits (m <<< (e - min e e').toNat) (m' <<< (e' - min e e').toNat)
  refine ⟨k, ?_⟩
  rw [← scaled_shiftLeft s m (min_le_left e e'), ← scaled_shiftLeft s' m' (min_le_right e e'),
    ← scaled_apply, hk, scaled_add]
  congr 1
  unfold scaled
  push_cast
  ring

theorem withSign_div_same (s : Sign) (magnitude magnitude' : ℚ) :
    withSign s magnitude / withSign s magnitude' = magnitude / magnitude' := by
  cases s with
  | negative => exact neg_div_neg_eq magnitude magnitude'
  | positive => rfl

theorem withSign_div_other (hne : s ≠ s') (magnitude magnitude' : ℚ) :
    withSign s magnitude / withSign s' magnitude' = -(magnitude / magnitude') := by
  cases s <;> cases s'
  · exact absurd rfl hne
  · exact neg_div _ _
  · exact div_neg _
  · exact absurd rfl hne

/-- The remainder toward zero is the remainder if it is on the side of the divisor. -/
theorem exactRemainder_of_same (s : Sign) (m : ℕ) (e e' : ℤ) (hpos' : 0 < m') :
    exactRemainder (scaled (s.apply m) e) (scaled (s.apply m') e') =
      withSign s (scaled (unitRemainder m e m' e') (min e e')) := by
  obtain ⟨k, hk⟩ := exists_multiple s s m e m' e'
  have hdivisor : 0 < scaled m' e' := scaled_pos (mod_cast hpos') e'
  have hlt : scaled (unitRemainder m e m' e') (min e e') < scaled m' e' :=
    scaled_unitRemainder_lt hpos'
  rw [scaled_apply s m'] at *
  refine exactRemainder_eq k (withSign_ne_zero hdivisor.ne') hk ?_ ?_
  · rw [withSign_div_same]
    exact div_nonneg (scaled_nonneg _ _) hdivisor.le
  · rw [withSign_div_same]
    exact (div_lt_one hdivisor).mpr hlt

/-- On the other side of zero than the divisor, the remainder toward zero is one divisor away from
the remainder. -/
theorem exactRemainder_of_other (hne : s ≠ s') (m : ℕ) (e e' : ℤ) (hpos' : 0 < m')
    (hsome : 0 < unitRemainder m e m' e') :
    exactRemainder (scaled (s.apply m) e) (scaled (s'.apply m') e') =
      withSign s (scaled (unitRemainder m e m' e') (min e e')) + withSign s' (scaled m' e') := by
  obtain ⟨k, hk⟩ := exists_multiple s s' m e m' e'
  have hdivisor : 0 < scaled m' e' := scaled_pos (mod_cast hpos') e'
  have hlt : scaled (unitRemainder m e m' e') (min e e') < scaled m' e' :=
    scaled_unitRemainder_lt hpos'
  have hremainder : 0 < scaled (unitRemainder m e m' e') (min e e') :=
    scaled_pos (mod_cast hsome) _
  rw [scaled_apply s' m'] at *
  have hq := withSign_ne_zero hdivisor.ne' (s := s')
  refine exactRemainder_eq (k - 1) hq ?_ ?_ ?_
  · rw [hk]
    push_cast
    ring
  · rw [add_div, div_self hq, withSign_div_other hne]
    linarith [(div_lt_one hdivisor).mpr hlt]
  · rw [add_div, div_self hq, withSign_div_other hne]
    linarith [div_pos hremainder hdivisor]

/-- The sum of the divisor and a remainder on its other side is rounded once. -/
theorem isNearest_iff_add (hne : s ≠ s') (hx : x.toModel.unpack = .finite s m e hpos)
    (hy : y.toModel.unpack = .finite s' m' e' hpos') (hformat : InFormat m e)
    (hformat' : InFormat m' e') (hsome : 0 < unitRemainder m e m' e') {z : Float} :
    IsNearest z (exactRemainder (scaled (s.apply m) e) (scaled (s'.apply m') e')) ↔
      point? z = point? (truncatedRemainder x y + y) := by
  have hdivisor : 0 < scaled m' e' := scaled_pos (mod_cast hpos') e'
  have hq := scaled_apply_ne_zero s' hpos' e'
  have hpoint := (represents_truncatedRemainder hx hy hformat hformat' hsome).unpackedPoint?
  have hpoint' : point? y = some (.ofRat (withSign s' (scaled m' e'))) := by
    rw [point?, hy, unpackedPoint?, scaled_apply]
  obtain ⟨units, exponent, hexponent, hsum, hadd⟩ := exists_sum hpoint hpoint'
    (withSign_ne_zero (scaled_pos (mod_cast hsome) _).ne') (withSign_ne_zero hdivisor.ne')
  have hunits := (signOf_of_scaled (scaled_unitRemainder_lt hpos') hsum hne).1
  have hexact := (exactRemainder_of_other hne m e e' hpos' hsome).trans hsum.symm
  -- The sum is no larger than the divisor, and so it is finite.
  have hle : scaled units.natAbs exponent ≤ scaled m' e' := by
    obtain ⟨hlow, hhigh⟩ := exactRemainder_div (scaled (s.apply m) e) hq
    have habs := (abs_le_of_div hq hlow hhigh.le).1
    rwa [hexact, scaled_apply, abs_withSign, abs_of_pos hdivisor, ← scaled_natAbs] at habs
  have hlt := (rounded_le hformat'.toIsRounded hle).trans_lt hformat'.scaled_lt
  rw [hadd, hexact]
  exact isNearest_ofUnits_iff hunits hexponent hlt

theorem isNearest_iff_of_finite (hx : x.toModel.unpack = .finite s m e hpos)
    (hy : y.toModel.unpack = .finite s' m' e' hpos') (hformat : InFormat m e)
    (hformat' : InFormat m' e') {z : Float} :
    IsNearest z (exactRemainder (scaled (s.apply m) e) (scaled (s'.apply m') e')) ↔
      point? z = point? (flooredRemainder x y) := by
  rcases Nat.eq_zero_or_pos (unitRemainder m e m' e') with hnone | hsome
  · obtain ⟨k, hk⟩ := unitRemainder_eq_zero_iff.mp hnone
    have hpoint : point? (truncatedRemainder x y) = some (.ofRat 0) := by
      rw [point?, truncatedRemainder_of_eq_zero hx hy hnone, unpackedPoint?]
    rw [flooredRemainder_of_eq_zero hx hy hnone, hk,
      exactRemainder_mul k (scaled_apply_ne_zero s' hpos' e'), hpoint]
    exact isNearest_iff_of_point hpoint
  have hrepresents := represents_truncatedRemainder hx hy hformat hformat' hsome
  rw [flooredRemainder_of_represents hrepresents hy]
  split_ifs with hsame
  · obtain rfl := isNegative_injective hsame
    have hpoint : point? (truncatedRemainder x y) = _ := hrepresents.unpackedPoint?
    rw [exactRemainder_of_same s m e e' hpos', hpoint]
    exact isNearest_iff_of_point hpoint
  · exact isNearest_iff_add (mt (congrArg isNegative) hsame) hx hy hformat hformat' hsome

end Finite

/-- The remainder of doubles is the one double nearest to the remainder of their numbers. -/
theorem isNearest_iff_flooredRemainder {x y z : Float} {p q : ℚ} (hx : point? x = some (.ofRat p))
    (hy : point? y = some (.ofRat q)) (hq : q ≠ 0) :
    IsNearest z (exactRemainder p q) ↔ point? z = point? (flooredRemainder x y) := by
  obtain ⟨s', m', e', hpos', hunpack', hformat', rfl⟩ := exists_finite hy hq
  by_cases hp : p = 0
  · obtain ⟨s, hzero⟩ := beq_zero_iff.mp ((beq_zero_iff_point hx).mpr hp)
    have hmultiple : p = (0 : ℤ) * scaled (s'.apply m') e' := by rw [hp, Int.cast_zero, zero_mul]
    rw [hmultiple, exactRemainder_mul 0 hq, flooredRemainder_of_zero hzero hunpack', hx, hp]
    exact isNearest_iff_of_point (hp ▸ hx)
  · obtain ⟨s, m, e, hpos, hunpack, hformat, rfl⟩ := exists_finite hx hp
    exact isNearest_iff_of_finite hunpack hunpack' hformat hformat'

end Number

open Number

/-- The remainder of finite numbers is the one double nearest to what the division rounded down
leaves. So it is never larger than the divisor, and smaller unless the divisor is that double. -/
theorem remainder_bound {a b : Number} (ha : a.toFloat.isFinite) (hb : b.toFloat.isFinite)
    (hzero : ¬ b.toFloat == 0) :
    ∃ (p q v : ℚ) (r : Float), point? a.toFloat = some (.ofRat p) ∧
      point? b.toFloat = some (.ofRat q) ∧
      BinaryOp.modulo.apply (.number a) (.number b) = .ok (.number (.float r)) ∧
      point? r = some (.ofRat v) ∧
      (∀ x, IsNearest x (exactRemainder p q) ↔ point? x = some (.ofRat v)) ∧
      |v| ≤ |q| ∧ (|v| < |q| ↔ ¬ IsNearest b.toFloat (exactRemainder p q)) := by
  obtain ⟨p, hp⟩ := isFinite_iff.mp ha
  obtain ⟨q, hq⟩ := isFinite_iff.mp hb
  have hne : q ≠ 0 := mt (beq_zero_iff_point hq).mpr hzero
  have hiff : ∀ x, IsNearest x (exactRemainder p q) ↔
      point? x = point? (flooredRemainder a.toFloat b.toFloat) :=
    fun x ↦ isNearest_iff_flooredRemainder hp hq hne
  have hnearest := (hiff _).mpr rfl
  obtain ⟨v, hr, -⟩ := id hnearest
  rw [hr] at hiff
  obtain ⟨hlow, hhigh⟩ := exactRemainder_div p hne
  obtain ⟨hlow', hhigh'⟩ := hnearest.between hr hq hne hlow hhigh.le
  obtain ⟨hle, hlt⟩ := abs_le_of_div hne hlow' hhigh'
  have hdivisor : IsNearest b.toFloat (exactRemainder p q) ↔ v = q := by
    rw [hiff, hq, Option.some.injEq, Point.ofRat_strictMono.injective.eq_iff, eq_comm]
  exact ⟨p, q, v, _, hp, hq, rfl, hr, hiff, hle, hlt.trans (not_congr hdivisor).symm⟩

/-- A divisor that is added to a remainder on its other side. -/
theorem remainder_bound_other_side :
    let a := Number.ofInt64 (-7)
    let b := Number.ofInt64 3
    ∃ (p q v : ℚ) (r : Float), point? a.toFloat = some (.ofRat p) ∧
      point? b.toFloat = some (.ofRat q) ∧
      BinaryOp.modulo.apply (.number a) (.number b) = .ok (.number (.float r)) ∧
      point? r = some (.ofRat v) ∧
      (∀ x, IsNearest x (exactRemainder p q) ↔ point? x = some (.ofRat v)) ∧
      |v| ≤ |q| ∧ (|v| < |q| ↔ ¬ IsNearest b.toFloat (exactRemainder p q)) :=
  remainder_bound (by decide +kernel) (by decide +kernel) (by decide +kernel)

/-- A dividend of `-1e-20` is lost where the divisor, one, is added to it, which so is the remainder
itself. -/
theorem remainder_bound_reached :
    ∃ (a b : Number) (r : Float), a.toFloat.isFinite ∧ b.toFloat.isFinite ∧ ¬ b.toFloat == 0 ∧
      BinaryOp.modulo.apply (.number a) (.number b) = .ok (.number (.float r)) ∧
      ¬ r.abs < b.toFloat.abs := by
  refine ⟨.ofBits 0xbbc79ca10c924223, .ofInt64 1, _, ?_, ?_, ?_, rfl, ?_⟩ <;> decide +kernel

end Treewalk
