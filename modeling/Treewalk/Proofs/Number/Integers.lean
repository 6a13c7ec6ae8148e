import Treewalk.Proofs.Number.Sum

/-!
# Integers among the doubles

As a double, an integer becomes the nearest one that has 53 bits after its last zeros
(`nearestInt`), and the doubles of integers are counted as their integers are
(`ofInt_add_stride`). Up to `2 ^ 53` every integer is a double. Past it the odd ones are not, and by
one step a count stays where it is or moves by two.
-/

set_option autoImplicit false
set_option relaxedAutoImplicit false

namespace Treewalk.Number

open Float.Model (UnpackedFloat Format)
open Float.Model.UnpackedFloat

/-! ### The nearest integer of 53 bits -/

def nearest (n : ℕ) : ℕ :=
  halfEven n (n.log2 - 52) * 2 ^ (n.log2 - 52)

theorem rounded_eq_nearest (n : ℕ) : rounded n 0 = nearest n := by
  rw [rounded, nearest, scaled, zero_add, zpow_natCast]
  push_cast
  rfl

theorem log2_bounds {n low high : ℕ} (hlow : 2 ^ low ≤ n) (hhigh : n < 2 ^ high) :
    low ≤ n.log2 ∧ n.log2 < high := by
  have hne : n ≠ 0 := (Nat.two_pow_pos low).trans_le hlow |>.ne'
  exact ⟨(Nat.le_log2 hne).mpr hlow, (Nat.log2_lt hne).mpr hhigh⟩

/-- Up to 53 bits there is nothing to round, and one more only for a power of two. -/
theorem nearest_of_le {n : ℕ} (h : n ≤ 2 ^ 53) : nearest n = n := by
  rcases h.lt_or_eq with hlt | rfl
  · rw [nearest, Nat.sub_eq_zero_of_le (Nat.le_of_lt_succ (log2_lt_of_lt hlt)), halfEven_zero,
      pow_zero, mul_one]
  · decide

theorem nearest_pos {n : ℕ} (h : 0 < n) : 0 < nearest n := by
  have hlow : 1 * 2 ^ (n.log2 - 52) ≤ n := by
    rw [one_mul]
    exact (Nat.pow_le_pow_right two_pos (Nat.sub_le _ _)).trans (Nat.log2_self_le h.ne')
  exact Nat.mul_pos (halfEven_bounds hlow (lt_two_pow_mul n)).1 (Nat.two_pow_pos _)

theorem two_pow_dvd_nearest {n bits : ℕ} (h : 2 ^ (52 + bits) ≤ n) : 2 ^ bits ∣ nearest n := by
  have hlog := (log2_bounds h Nat.lt_log2_self).1
  exact (pow_dvd_pow 2 (by omega)).trans (dvd_mul_left _ _)

theorem nearest_le {n bits : ℕ} (h : n < 2 ^ bits) : nearest n ≤ 2 ^ bits := by
  by_cases hsmall : n < 2 ^ 53
  · rw [nearest_of_le hsmall.le]
    exact h.le
  obtain ⟨hlow, hhigh⟩ := log2_bounds (not_lt.mp hsmall) h
  have hkept : halfEven n (n.log2 - 52) ≤ 2 ^ 53 :=
    (halfEven_bounds (Nat.zero_mul _ ▸ Nat.zero_le n) (lt_two_pow_mul n)).2
  calc nearest n
    _ ≤ 2 ^ 53 * 2 ^ (n.log2 - 52) := Nat.mul_le_mul_right _ hkept
    _ = 2 ^ (53 + (n.log2 - 52)) := (pow_add _ _ _).symm
    _ ≤ 2 ^ bits := Nat.pow_le_pow_right two_pos (by omega)

/-! ### Neighbours -/

/-- A number that is one unit away from larger units goes to them, at a tie if they are even. -/
theorem halfEven_neighbour {quotient bits n : ℕ} (hbits : 1 ≤ bits) (hquotient : 1 ≤ quotient)
    (heven : bits = 1 → quotient % 2 = 0)
    (hn : n = quotient * 2 ^ bits + 1 ∨ n + 1 = quotient * 2 ^ bits) :
    halfEven n bits = quotient := by
  have hunit : 2 ^ bits = 2 ∧ quotient % 2 = 0 ∨ 4 ≤ 2 ^ bits := by
    rcases hbits.eq_or_lt with rfl | hlt
    · exact .inl ⟨rfl, heven rfl⟩
    · exact .inr (Nat.pow_le_pow_right two_pos hlt)
  rw [halfEven]
  generalize 2 ^ bits = unit at *
  rcases hn with rfl | hn
  · obtain ⟨hdiv, hmod⟩ :
        (quotient * unit + 1) / unit = quotient ∧ (quotient * unit + 1) % unit = 1 :=
      (Nat.div_mod_unique (by omega)).mpr ⟨by ring, by omega⟩
    rw [hdiv, hmod]
    rcases hunit with ⟨rfl, heven⟩ | hlarge
    · show quotient + quotient % 2 = quotient
      omega
    · rw [Nat.compare_eq_lt.mpr (by omega)]
  · obtain ⟨hdiv, hmod⟩ : n / unit = quotient - 1 ∧ n % unit = unit - 1 := by
      refine (Nat.div_mod_unique (by omega)).mpr ⟨?_, by omega⟩
      obtain ⟨before, rfl⟩ := Nat.exists_eq_add_of_le' hquotient
      rw [Nat.add_sub_cancel]
      rw [add_mul, mul_comm] at hn
      omega
    rw [hdiv, hmod]
    rcases hunit with ⟨rfl, heven⟩ | hlarge
    · show quotient - 1 + (quotient - 1) % 2 = quotient
      omega
    · rw [Nat.compare_eq_gt.mpr (by omega)]
      exact Nat.sub_add_cancel hquotient

/-- Past `2 ^ 53` a multiple of four attracts its neighbours. -/
theorem nearest_neighbour {n neighbour : ℕ} (hlarge : 2 ^ 53 ≤ neighbour) (hfour : 4 ∣ n)
    (hexact : nearest n = n) (hneighbour : neighbour = n + 1 ∨ neighbour + 1 = n) :
    nearest neighbour = n := by
  have hlog : 53 ≤ neighbour.log2 := (log2_bounds hlarge Nat.lt_log2_self).1
  have hpos : n ≠ 0 := by omega
  have hle : neighbour.log2 ≤ n.log2 := by
    rw [← Nat.lt_succ_iff, Nat.log2_lt (by omega)]
    have hlt : n < 2 ^ (n.log2 + 1) := Nat.lt_log2_self
    rw [pow_succ] at *
    omega
  obtain ⟨quotient, hquotient⟩ : 2 ^ (neighbour.log2 - 52) ∣ n := by
    have hdvd : 2 ^ (n.log2 - 52) ∣ nearest n := by
      apply two_pow_dvd_nearest
      rw [Nat.add_sub_of_le (by omega)]
      exact Nat.log2_self_le hpos
    exact (pow_dvd_pow 2 (by omega)).trans (hexact ▸ hdvd)
  rw [mul_comm] at hquotient
  have hkept : halfEven neighbour (neighbour.log2 - 52) = quotient := by
    refine halfEven_neighbour (by omega) (Nat.pos_of_ne_zero ?_) ?_ ?_
    · rintro rfl
      omega
    · intro hone
      rw [hone] at hquotient
      omega
    · rw [← hquotient]
      exact hneighbour
  rw [nearest, hkept, ← hquotient]

/-- Up to `2 ^ 54` the even integers are doubles. -/
theorem nearest_of_even {n : ℕ} (heven : n % 2 = 0) (hle : n ≤ 2 ^ 54) : nearest n = n := by
  by_cases hsmall : n ≤ 2 ^ 53
  · exact nearest_of_le hsmall
  rcases hle.lt_or_eq with hlt | rfl
  · obtain ⟨hlog, hlog'⟩ := log2_bounds (not_le.mp hsmall).le hlt
    have hhalf : n = n / 2 * 2 ^ 1 := by omega
    rw [nearest, show n.log2 - 52 = 1 by omega, hhalf, halfEven_exact]
  · decide

/-! ### Integers as doubles -/

/-- The integer that an integer becomes as a double. -/
def nearestInt (n : ℤ) : ℤ :=
  n.sign * nearest n.natAbs

theorem nearestInt_eq_self_iff {n : ℤ} : nearestInt n = n ↔ nearest n.natAbs = n.natAbs := by
  by_cases hzero : n = 0
  · rw [hzero]
    decide
  have hsign : n.sign ≠ 0 := mt Int.sign_eq_zero_iff_zero.mp hzero
  rw [nearestInt]
  nth_rewrite 3 [← Int.sign_mul_natAbs n]
  rw [mul_right_inj' hsign, Nat.cast_inj]

theorem nearestInt_eq_zero_iff {n : ℤ} : nearestInt n = 0 ↔ n = 0 := by
  have hpos : 0 < n.natAbs → nearest n.natAbs ≠ 0 := fun h ↦ (nearest_pos h).ne'
  rw [nearestInt, Int.mul_eq_zero, Int.sign_eq_zero_iff_zero, Int.natCast_eq_zero]
  omega

theorem nearestInt_of_natAbs_le {n : ℤ} (h : n.natAbs ≤ 2 ^ 53) : nearestInt n = n :=
  nearestInt_eq_self_iff.mpr (nearest_of_le h)

theorem two_pow_dvd_of_nearestInt {n : ℤ} {bits : ℕ} (h : 2 ^ (52 + bits) ≤ n.natAbs)
    (hexact : nearestInt n = n) : 2 ^ bits ∣ n.natAbs :=
  nearestInt_eq_self_iff.mp hexact ▸ two_pow_dvd_nearest h

/-- The integer below another goes where the neighbour of its magnitude goes. -/
theorem nearestInt_sub_one {n m : ℤ} (hpos : 0 < n ∧ 0 < m ∨ n < 0 ∧ m < 0)
    (h : nearest (n - 1).natAbs = m.natAbs) (hne : n ≠ 1) : nearestInt (n - 1) = m := by
  have hsign : (n - 1).sign = m.sign := by
    rcases hpos with ⟨hn, hm⟩ | ⟨hn, hm⟩
    · rw [Int.sign_eq_one_of_pos hm, Int.sign_eq_one_of_pos (by omega)]
    · rw [Int.sign_eq_neg_one_of_neg hm, Int.sign_eq_neg_one_of_neg (by omega)]
  rw [nearestInt, h, hsign, Int.sign_mul_natAbs]

/-- Past `2 ^ 53` a count down by one stays at a multiple of four. -/
theorem nearestInt_sub_one_of_dvd {n : ℤ} (hlarge : 2 ^ 53 < n.natAbs) (hfour : 4 ∣ n)
    (hexact : nearestInt n = n) : nearestInt (n - 1) = n := by
  have hnearest : nearest (n - 1).natAbs = n.natAbs := by
    refine nearest_neighbour (by omega) (by omega) (nearestInt_eq_self_iff.mp hexact) ?_
    omega
  exact nearestInt_sub_one (by omega) hnearest (by omega)

/-- Between `2 ^ 53` and `2 ^ 54` a count down by one skips an integer at those even ones that are
not multiples of four. -/
theorem nearestInt_sub_one_of_mod {n : ℤ} (hlarge : 2 ^ 53 < n.natAbs) (hsmall : n.natAbs < 2 ^ 54)
    (hmod : n % 4 = 2) : nearestInt (n - 1) = n - 2 := by
  have hnearest : nearest (n - 1).natAbs = (n - 2).natAbs :=
    nearest_neighbour (by omega) (by omega) (nearest_of_even (by omega) (by omega)) (by omega)
  exact nearestInt_sub_one (by omega) hnearest (by omega)

def ofInt (n : ℤ) : Float :=
  ofUnits n 0

theorem point?_ofInt {n : ℤ} (h : n.natAbs < 2 ^ 64) :
    point? (ofInt n) = some (.ofRat (nearestInt n)) := by
  by_cases hzero : n = 0
  · rw [hzero]
    rfl
  have hlarge : (nearest n.natAbs : ℚ) < 2 ^ 1024 := by
    calc (nearest n.natAbs : ℚ)
      _ ≤ 2 ^ 64 := mod_cast nearest_le h
      _ < 2 ^ 1024 := pow_lt_pow_right₀ one_lt_two (by decide)
  rw [ofInt, point?_ofUnits hzero (by decide) (by rwa [rounded_eq_nearest]), rounded_eq_nearest,
    nearestInt, signOf]
  rcases lt_or_gt_of_ne hzero with hneg | hpos
  · rw [if_pos hneg, withSign, Int.sign_eq_neg_one_of_neg hneg]
    push_cast
    rw [neg_one_mul]
  · rw [if_neg hpos.not_gt, withSign, Int.sign_eq_one_of_pos hpos]
    push_cast
    rw [one_mul]

section Order

variable {m n : ℤ}

theorem ofInt_lt_iff (hm : m.natAbs < 2 ^ 64) (hn : n.natAbs < 2 ^ 64) :
    ofInt m < ofInt n ↔ nearestInt m < nearestInt n := by
  rw [lt_iff_point (point?_ofInt hm) (point?_ofInt hn), Point.ofRat_strictMono.lt_iff_lt,
    Int.cast_lt]

theorem ofInt_le_iff (hm : m.natAbs < 2 ^ 64) (hn : n.natAbs < 2 ^ 64) :
    ofInt m ≤ ofInt n ↔ nearestInt m ≤ nearestInt n := by
  rw [le_iff_point (point?_ofInt hm) (point?_ofInt hn), Point.ofRat_strictMono.le_iff_le,
    Int.cast_le]

end Order

/-- An integer that is a double. -/
def IsDouble (n : ℤ) : Prop :=
  ∃ x, point? x = some (.ofRat n)

theorem isDouble_iff {n : ℤ} (h : n.natAbs < 2 ^ 64) : IsDouble n ↔ nearestInt n = n := by
  refine ⟨fun ⟨x, hx⟩ ↦ ?_, fun hexact ↦ ⟨ofInt n, by rw [point?_ofInt h, hexact]⟩⟩
  by_cases hzero : n = 0
  · rw [hzero]
    rfl
  obtain ⟨s, m, e, hpos, -, hformat, hvalue⟩ := exists_finite hx (Int.cast_ne_zero.mpr hzero)
  have hmagnitude : scaled n.natAbs 0 = scaled m e := by
    have hsigned : |scaled (s.apply m) e| = |scaled n 0| := by
      rw [hvalue, scaled, zpow_zero, mul_one]
    rw [← scaled_natAbs, ← scaled_natAbs] at hsigned
    have hnatAbs : (s.apply m).natAbs = m := by cases s <;> simp [Sign.apply]
    rw [← hsigned, hnatAbs]
  have hrounded := rounded_congr (Int.natAbs_ne_zero.mpr hzero) hpos.ne' hmagnitude
  rw [rounded_of_lt hformat.mantissa_lt, ← hmagnitude, rounded_eq_nearest, scaled, zpow_zero,
    mul_one] at hrounded
  exact nearestInt_eq_self_iff.mpr (mod_cast hrounded)

/-- A count of doubles goes on from the integer that they have come to. -/
theorem ofInt_add_stride {n stride : ℤ} (h : n.natAbs < 2 ^ 64)
    (hstride : stride = 1 ∨ stride = -1) :
    ofInt n + ofInt stride = ofInt (nearestInt n + stride) := by
  have hexact : nearestInt stride = stride := by rcases hstride with rfl | rfl <;> rfl
  by_cases hzero : nearestInt n = 0
  · rw [hzero, nearestInt_eq_zero_iff.mp hzero]
    rcases hstride with rfl | rfl <;> decide +kernel
  have hpoint : point? (ofInt stride) = some (.ofRat stride) := by
    rw [point?_ofInt (by omega), hexact]
  obtain ⟨units, exponent, hexponent, hsum, hadd⟩ := exists_sum (point?_ofInt h) hpoint
    (Int.cast_ne_zero.mpr hzero) (Int.cast_ne_zero.mpr (by omega))
  rw [hadd]
  refine ofUnits_congr ?_ hexponent (by decide)
  rw [hsum, scaled, zpow_zero, mul_one]
  push_cast
  rfl

end Treewalk.Number
