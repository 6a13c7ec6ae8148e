import Treewalk.Proofs.Number.Format

/-!
# The line of doubles

A finite double is a number of units of a power of two (`scaled`), and a double other than NaN lies
on the rational line with its two ends (`point?`), both zeros at the same point. Doubles are
compared as their points are (`lt_iff_point`, `le_iff_point`, `beq_iff_point`). So the order of
doubles has every law that a linear order has, as far as NaN is left out.
-/

set_option autoImplicit false
set_option relaxedAutoImplicit false

namespace Treewalk.Number

open Float.Model (UnpackedFloat Format)
open Float.Model.UnpackedFloat

/-! ### Points -/

/-- The rational line with its two ends. -/
abbrev Point : Type :=
  WithBot (WithTop ℚ)

namespace Point

def ofRat (q : ℚ) : Point :=
  ((q : WithTop ℚ) : WithBot (WithTop ℚ))

theorem ofRat_strictMono : StrictMono ofRat :=
  fun _ _ h ↦ WithBot.coe_lt_coe.mpr (WithTop.coe_lt_coe.mpr h)

theorem bot_lt_ofRat (q : ℚ) : ⊥ < ofRat q :=
  WithBot.bot_lt_coe _

theorem ofRat_lt_top (q : ℚ) : ofRat q < ⊤ :=
  WithBot.coe_lt_coe.mpr (WithTop.coe_lt_top q)

end Point

/-! ### Units -/

/-- A number of units of a power of two. -/
def scaled (units exponent : ℤ) : ℚ :=
  units * 2 ^ exponent

theorem scaled_pos {units : ℤ} (h : 0 < units) (exponent : ℤ) : 0 < scaled units exponent := by
  unfold scaled
  positivity

theorem scaled_add (units units' exponent : ℤ) :
    scaled (units + units') exponent = scaled units exponent + scaled units' exponent := by
  unfold scaled
  push_cast
  ring

theorem scaled_mul_two_pow (units : ℤ) (bits : ℕ) (exponent : ℤ) :
    scaled (units * 2 ^ bits) exponent = scaled units (exponent + bits) := by
  unfold scaled
  rw [zpow_add₀ two_ne_zero, zpow_natCast]
  push_cast
  ring

theorem scaled_neg (units exponent : ℤ) : scaled (-units) exponent = -scaled units exponent := by
  unfold scaled
  push_cast
  ring

theorem scaled_natAbs (units exponent : ℤ) :
    scaled units.natAbs exponent = |scaled units exponent| := by
  rw [scaled, scaled, abs_mul, abs_of_pos (by positivity : (0 : ℚ) < 2 ^ exponent)]
  push_cast
  rfl

theorem scaled_lt_zero_iff (units exponent : ℤ) : scaled units exponent < 0 ↔ units < 0 := by
  have hpos : (0 : ℚ) < 2 ^ exponent := by positivity
  rw [scaled, ← zero_mul ((2 : ℚ) ^ exponent), mul_lt_mul_iff_of_pos_right hpos, Int.cast_lt_zero]

theorem scaled_eq_zero_iff (units exponent : ℤ) : scaled units exponent = 0 ↔ units = 0 := by
  have hpos : (0 : ℚ) < 2 ^ exponent := by positivity
  rw [scaled, mul_eq_zero, or_iff_left hpos.ne', Int.cast_eq_zero]

/-- A magnitude with a sign. -/
def withSign (sign : Sign) (magnitude : ℚ) : ℚ :=
  match sign with
  | .negative => -magnitude
  | .positive => magnitude

theorem scaled_apply (sign : Sign) (units exponent : ℤ) :
    scaled (sign.apply units) exponent = withSign sign (scaled units exponent) := by
  cases sign with
  | negative => exact scaled_neg units exponent
  | positive => rfl

/-! ### Points of doubles -/

/-- Where a double lies on the line, NaN lying nowhere. -/
def unpackedPoint? : UnpackedFloat → Option Point
  | .notANumber => none
  | .infinity .negative => some ⊥
  | .infinity .positive => some ⊤
  | .zero _ => some (.ofRat 0)
  | .finite sign mantissa exponent _ => some (.ofRat (scaled (sign.apply mantissa) exponent))

/-- Every double other than NaN and the infinities is a rational number. -/
theorem exists_ofRat {u : UnpackedFloat} (hnan : u = .notANumber → False)
    (hinfinity : ∀ sign, u = .infinity sign → False) :
    ∃ q, unpackedPoint? u = some (.ofRat q) := by
  cases u with
  | notANumber => exact (hnan rfl).elim
  | infinity sign => exact (hinfinity sign rfl).elim
  | zero sign => exact ⟨0, rfl⟩
  | finite sign mantissa exponent hpos => exact ⟨scaled (sign.apply mantissa) exponent, rfl⟩

/-- Only zeros and finite doubles are rational numbers. -/
theorem zero_or_finite {u : UnpackedFloat} {p : ℚ} (h : unpackedPoint? u = some (.ofRat p)) :
    (∃ sign, u = .zero sign) ∧ p = 0 ∨
      ∃ sign mantissa exponent hpos, u = .finite sign mantissa exponent hpos ∧
        scaled (sign.apply mantissa) exponent = p := by
  rcases u with sign | _ | sign | ⟨sign, mantissa, exponent, hpos⟩
  · cases sign with
    | negative => exact absurd (Option.some.inj h) (Point.bot_lt_ofRat p).ne
    | positive => exact absurd (Option.some.inj h) (Point.ofRat_lt_top p).ne'
  · cases h
  · exact .inl ⟨⟨sign, rfl⟩, (Point.ofRat_strictMono.injective (Option.some.inj h)).symm⟩
  · exact .inr ⟨sign, mantissa, exponent, hpos, rfl,
      Point.ofRat_strictMono.injective (Option.some.inj h)⟩

section Compare

variable {m m' : ℕ} {e e' : ℤ} {a b : UnpackedFloat}

theorem scaled_lt_scaled (h : IsRounded m e) (h' : IsRounded m' e') (hlt : e < e') :
    scaled m e < scaled m' e' := by
  have hmantissa : (m : ℚ) < 2 ^ 53 := mod_cast h.mantissa_lt
  have hfull : (2 : ℚ) ^ 52 ≤ m' :=
    mod_cast h'.full.resolve_right (by have := h.le_exponent; omega)
  have hexponent : (2 : ℚ) ^ (e + 1) ≤ 2 ^ e' := zpow_le_zpow_right₀ one_le_two hlt
  unfold scaled
  push_cast
  calc (m : ℚ) * 2 ^ e
    _ < 2 ^ 53 * 2 ^ e := by gcongr
    _ = 2 ^ 52 * 2 ^ (e + 1) := by rw [zpow_add_one₀ two_ne_zero]; ring
    _ ≤ m' * 2 ^ e' := by gcongr

/-- Rounded doubles are ordered by their exponents first. -/
theorem cmp_scaled (h : IsRounded m e) (h' : IsRounded m' e') :
    cmp (scaled m e) (scaled m' e') = (compare e e').then (compare m m') := by
  rcases lt_trichotomy e e' with hlt | rfl | hgt
  · rw [Int.compare_eq_lt.mpr hlt, (cmp_eq_lt_iff _ _).mpr (scaled_lt_scaled h h' hlt)]
    rfl
  · have hcast : cmp (m : ℚ) m' = cmp m m' := Nat.strictMono_cast.cmp_map_eq m m'
    rw [scaled, scaled, cmp_mul_pos_right (by positivity), Int.compare_eq_eq.mpr rfl,
      Int.cast_natCast, Int.cast_natCast, hcast, cmp_eq_compare]
    rfl
  · rw [Int.compare_eq_gt.mpr hgt, (cmp_eq_gt_iff _ _).mpr (scaled_lt_scaled h' h hgt)]
    rfl

/-- A magnitude is made of one mantissa and one exponent only. -/
theorem IsRounded.unique (h : IsRounded m e) (h' : IsRounded m' e')
    (hvalue : scaled m e = scaled m' e') : m = m' ∧ e = e' := by
  have hcompare := cmp_scaled h h'
  rw [hvalue, cmp_self_eq_eq, eq_comm, Ordering.then_eq_eq, Int.compare_eq_eq,
    Nat.compare_eq_eq] at hcompare
  exact hcompare.symm

theorem compare_eq (ha : IsCanonical a) (hb : IsCanonical b) :
    a.compare b = Option.map₂ cmp (unpackedPoint? a) (unpackedPoint? b) := by
  have hneg : StrictAnti (Neg.neg : ℚ → ℚ) := fun _ _ ↦ neg_lt_neg
  have hlt : ∀ {p q : Point}, p < q → some .lt = some (cmp p q) :=
    fun h ↦ congrArg some ((cmp_eq_lt_iff _ _).mpr h).symm
  have hgt : ∀ {p q : Point}, q < p → some .gt = some (cmp p q) :=
    fun h ↦ congrArg some ((cmp_eq_gt_iff _ _).mpr h).symm
  have hpositive : ∀ {mantissa : ℕ} {exponent : ℤ}, 0 < mantissa →
      Point.ofRat 0 < .ofRat (scaled mantissa exponent) :=
    fun hpos ↦ Point.ofRat_strictMono (scaled_pos (mod_cast hpos) _)
  have hnegative : ∀ {mantissa : ℕ} {exponent : ℤ}, 0 < mantissa →
      Point.ofRat (scaled (-mantissa) exponent) < .ofRat 0 := by
    intro mantissa exponent hpos
    rw [scaled_neg]
    exact Point.ofRat_strictMono (neg_neg_of_pos (scaled_pos (mod_cast hpos) _))
  fun_cases UnpackedFloat.compare a b with
  | case1 => rfl
  | case2 => exact (Option.map₂_none_right _ _).symm
  | case3 sign sign' => cases sign <;> cases sign' <;> rfl
  | case4 other hnan hinfinity =>
    obtain ⟨q, hq⟩ := exists_ofRat hnan hinfinity
    rw [hq]
    exact hgt (Point.ofRat_lt_top q)
  | case5 other hnan hinfinity =>
    obtain ⟨q, hq⟩ := exists_ofRat hnan hinfinity
    rw [hq]
    exact hlt (Point.bot_lt_ofRat q)
  | case6 other hnan hinfinity =>
    obtain ⟨q, hq⟩ := exists_ofRat hnan hinfinity
    rw [hq]
    exact hlt (Point.ofRat_lt_top q)
  | case7 other hnan hinfinity =>
    obtain ⟨q, hq⟩ := exists_ofRat hnan hinfinity
    rw [hq]
    exact hgt (Point.bot_lt_ofRat q)
  | case8 m e hpos => exact hgt (hpositive hpos)
  | case9 m e hpos => exact hlt (hnegative hpos)
  | case10 _ m e hpos => exact hlt (hpositive hpos)
  | case11 _ m e hpos => exact hgt (hnegative hpos)
  | case12 => exact congrArg some (cmp_self_eq_eq _).symm
  | case13 m e hm m' e' hm' =>
    rw [← cmp_scaled ha.toIsRounded hb.toIsRounded, cmp_swap, ← hneg.cmp_map_eq,
      ← scaled_neg, ← scaled_neg]
    exact congrArg some (Point.ofRat_strictMono.cmp_map_eq _ _).symm
  | case14 m e hm m' e' hm' => exact hlt ((hnegative hm).trans (hpositive hm'))
  | case15 m e hm m' e' hm' => exact hgt ((hnegative hm').trans (hpositive hm))
  | case16 m e hm m' e' hm' =>
    rw [← cmp_scaled ha.toIsRounded hb.toIsRounded]
    exact congrArg some (Point.ofRat_strictMono.cmp_map_eq _ _).symm

end Compare

/-! ### Comparison -/

/-- Where a double lies on the line. -/
def point? (x : Float) : Option Point :=
  unpackedPoint? x.toModel.unpack

theorem compare_eq_point (x y : Float) :
    x.toModel.unpack.compare y.toModel.unpack = Option.map₂ cmp (point? x) (point? y) :=
  compare_eq (isCanonical_unpack _) (isCanonical_unpack _)

theorem point?_eq_none_iff {x : Float} : point? x = none ↔ x.isNaN = true := by
  show unpackedPoint? x.toModel.unpack = none ↔ x.toModel.unpack.isNaN = true
  rcases x.toModel.unpack with sign | _ | _ | _
  · cases sign <;> simp [unpackedPoint?, UnpackedFloat.isNaN]
  · simp [unpackedPoint?, UnpackedFloat.isNaN]
  · simp [unpackedPoint?, UnpackedFloat.isNaN]
  · simp [unpackedPoint?, UnpackedFloat.isNaN]

theorem isFinite_iff {x : Float} : x.isFinite ↔ ∃ p, point? x = some (.ofRat p) := by
  show x.toModel.unpack.isFinite = true ↔ ∃ p, unpackedPoint? x.toModel.unpack = some (.ofRat p)
  constructor
  · intro h
    apply exists_ofRat
    · rintro hnan
      rw [hnan] at h
      cases h
    · rintro sign hinfinity
      rw [hinfinity] at h
      cases h
  · rintro ⟨p, hp⟩
    rcases zero_or_finite hp with ⟨⟨sign, hzero⟩, -⟩ | ⟨sign, m, e, hpos, hfinite, -⟩
    · rw [hzero]
      rfl
    · rw [hfinite]
      rfl

section Order

variable {x y : Float} {p q : Point}

theorem lt_iff_point (hx : point? x = some p) (hy : point? y = some q) : x < y ↔ p < q := by
  rw [lt_iff, compare_eq_point, hx, hy, Option.map₂_some_some, Option.some.injEq, cmp_eq_lt_iff]

theorem le_iff_point (hx : point? x = some p) (hy : point? y = some q) : x ≤ y ↔ p ≤ q := by
  have hle : (cmp p q).isLE = true ↔ p ≤ q := by
    rw [← not_lt, ← cmp_eq_gt_iff]
    cases cmp p q <;> decide
  rw [le_iff, compare_eq_point, hx, hy, Option.map₂_some_some]
  simp only [Option.some.injEq, exists_eq_left', hle]

theorem beq_iff_point (hx : point? x = some p) (hy : point? y = some q) : x == y ↔ p = q := by
  show (x.toModel.unpack.compare y.toModel.unpack == some .eq) = true ↔ p = q
  rw [compare_eq_point, hx, hy, Option.map₂_some_some, beq_iff_eq, Option.some.injEq, cmp_eq_eq_iff]

theorem exists_point (h : x.isNaN = false) : ∃ p, point? x = some p := by
  rw [← Option.ne_none_iff_exists', ne_eq, point?_eq_none_iff, h]
  exact Bool.false_ne_true

/-- NaN is not equal to anything. -/
theorem isNaN_of_beq (h : x == y) : x.isNaN = false ∧ y.isNaN = false := by
  have hcompare : x.toModel.unpack.compare y.toModel.unpack == some .eq := h
  refine isNaN_of_le (le_iff.mpr ⟨.eq, beq_iff_eq.mp hcompare, rfl⟩)

theorem lt_irrefl (x : Float) : ¬ x < x := by
  intro h
  obtain ⟨p, hp⟩ := exists_point (isNaN_of_le (le_of_lt h)).1
  exact ((lt_iff_point hp hp).mp h).false

theorem lt_trans {x y z : Float} (hxy : x < y) (hyz : y < z) : x < z := by
  obtain ⟨hx, hy⟩ := isNaN_of_le (le_of_lt hxy)
  obtain ⟨p, hp⟩ := exists_point hx
  obtain ⟨q, hq⟩ := exists_point hy
  obtain ⟨r, hr⟩ := exists_point (isNaN_of_le (le_of_lt hyz)).2
  rw [lt_iff_point hp hr]
  exact ((lt_iff_point hp hq).mp hxy).trans ((lt_iff_point hq hr).mp hyz)

theorem le_iff_lt_or_beq : x ≤ y ↔ x < y ∨ x == y := by
  by_cases hnan : x.isNaN = false ∧ y.isNaN = false
  · obtain ⟨p, hp⟩ := exists_point hnan.1
    obtain ⟨q, hq⟩ := exists_point hnan.2
    rw [le_iff_point hp hq, lt_iff_point hp hq, beq_iff_point hp hq, le_iff_lt_or_eq]
  · exact iff_of_false (mt isNaN_of_le hnan)
      (not_or_intro (mt (isNaN_of_le ∘ le_of_lt) hnan) (mt isNaN_of_beq hnan))

end Order

end Treewalk.Number
