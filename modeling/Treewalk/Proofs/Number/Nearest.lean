import Treewalk.Proofs.Number.Sum

/-!
# The nearest double

A number is rounded to the double nearest to it, and to the one with the even mantissa if two are
equally near (`IsNearest`). No more than one double is that, for halfway between two even multiples
of a unit there is a third multiple, and doubles of smaller units lie farther away. So a sum of
doubles is the one double nearest to the sum of their numbers (`isNearest_ofUnits_iff`).
-/

set_option autoImplicit false
set_option relaxedAutoImplicit false

namespace Treewalk.Number

open Float.Model (UnpackedFloat Format)
open Float.Model.UnpackedFloat

/-! ### The nearest multiple of a unit -/

section Multiples

variable {units bits kept kept' : ℕ}

/-- How far a multiple of larger units is from a number of units. -/
def distance (units bits kept : ℕ) : ℕ :=
  ((kept * 2 ^ bits : ℕ) - units : ℤ).natAbs

theorem sub_mul_le_distance_add (units bits kept kept' : ℕ) :
    ((kept : ℤ) - kept').natAbs * 2 ^ bits ≤
      distance units bits kept + distance units bits kept' := by
  have hdifference : ((kept : ℤ) - kept') * (2 ^ bits : ℕ) =
      ((kept * 2 ^ bits : ℕ) - units) - ((kept' * 2 ^ bits : ℕ) - units) := by
    push_cast
    ring
  calc ((kept : ℤ) - kept').natAbs * 2 ^ bits
    _ = (((kept : ℤ) - kept') * (2 ^ bits : ℕ)).natAbs := by rw [Int.natAbs_mul, Int.natAbs_natCast]
    _ ≤ distance units bits kept + distance units bits kept' := by
      rw [hdifference]
      exact Int.natAbs_sub_le _ _

/-- No more than half a unit is lost, and half a unit only to an even number. -/
theorem distance_halfEven (units bits : ℕ) :
    2 * distance units bits (halfEven units bits) ≤ 2 ^ bits ∧
      (2 * distance units bits (halfEven units bits) = 2 ^ bits → halfEven units bits % 2 = 0) := by
  have hrest := Nat.mod_lt units (Nat.two_pow_pos bits)
  have hunits := Nat.div_add_mod' units (2 ^ bits)
  rw [halfEven]
  generalize units / 2 ^ bits = quotient at *
  generalize units % 2 ^ bits = rest at *
  have hbelow : distance units bits quotient = rest := by
    rw [distance]
    omega
  have habove : distance units bits (quotient + 1) + rest = 2 ^ bits := by
    rw [distance, Nat.add_one_mul]
    omega
  rcases lt_trichotomy (2 * rest) (2 ^ bits) with hlt | heq | hgt
  · rw [Nat.compare_eq_lt.mpr hlt]
    dsimp only
    omega
  · rw [Nat.compare_eq_eq.mpr heq]
    dsimp only
    rcases Nat.mod_two_eq_zero_or_one quotient with heven | hodd
    · rw [heven, add_zero]
      omega
    · rw [hodd]
      omega
  · rw [Nat.compare_eq_gt.mpr hgt]
    dsimp only
    omega

theorem halfEven_nearest (units bits kept : ℕ) :
    distance units bits (halfEven units bits) < distance units bits kept ∨
      distance units bits (halfEven units bits) = distance units bits kept ∧
        (kept = halfEven units bits ∨ halfEven units bits % 2 = 0) := by
  obtain ⟨hhalf, heven⟩ := distance_halfEven units bits
  by_cases hkept : kept = halfEven units bits
  · exact .inr ⟨by rw [hkept], .inl hkept⟩
  have hapart := sub_mul_le_distance_add units bits (halfEven units bits) kept
  have hone : 2 ^ bits ≤ ((halfEven units bits : ℤ) - kept).natAbs * 2 ^ bits :=
    Nat.le_mul_of_pos_left _ (by omega)
  rcases Nat.lt_or_ge (distance units bits (halfEven units bits)) (distance units bits kept)
    with hlt | hge
  · exact .inl hlt
  · exact .inr ⟨by omega, .inr (heven (by omega))⟩

/-- Even numbers are apart by two units, of which a half each is not enough. -/
theorem eq_halfEven_of_even (hkept : kept % 2 = 0)
    (htie : distance units bits (halfEven units bits) = distance units bits kept) :
    kept = halfEven units bits := by
  obtain ⟨hhalf, -⟩ := distance_halfEven units bits
  obtain hlt | ⟨-, heq | heven⟩ := halfEven_nearest units bits kept
  · exact absurd htie hlt.ne
  · exact heq
  by_contra hne
  have hapart := sub_mul_le_distance_add units bits (halfEven units bits) kept
  have htwo : 2 * 2 ^ bits ≤ ((halfEven units bits : ℤ) - kept).natAbs * 2 ^ bits :=
    Nat.mul_le_mul_right _ (by omega)
  have hpos := Nat.two_pow_pos bits
  omega

end Multiples

/-! ### The nearest magnitude -/

section Magnitudes

variable {units m : ℕ} {exponent e : ℤ}

theorem isRounded_zero : IsRounded 0 (-1074) :=
  ⟨by decide, le_rfl, .inr rfl⟩

theorem scaled_zero (exponent : ℤ) : scaled 0 exponent = 0 :=
  (scaled_eq_zero_iff 0 exponent).mpr rfl

theorem scaled_strictMono (exponent : ℤ) : StrictMono fun units : ℤ ↦ scaled units exponent := by
  intro units units' hlt
  show scaled units exponent < scaled units' exponent
  unfold scaled
  gcongr

theorem abs_scaled_sub (units bits kept : ℕ) (exponent : ℤ) :
    |scaled kept (exponent + bits) - scaled units exponent| =
      scaled (distance units bits kept) exponent := by
  rw [← scaled_mul_two_pow, sub_eq_add_neg, ← scaled_neg, ← scaled_add, ← scaled_natAbs, distance]
  push_cast
  rfl

/-- A double of larger units is a number of the smaller ones. -/
theorem exists_kept (m : ℕ) {unit : ℤ} (h : unit ≤ e) :
    ∃ kept : ℕ, scaled m e = scaled kept unit ∧ (m % 2 = 0 → kept % 2 = 0) := by
  obtain ⟨bits, rfl⟩ := Int.le.dest h
  refine ⟨m * 2 ^ bits, ?_, fun heven ↦ by rw [Nat.mul_mod, heven, zero_mul, Nat.zero_mod]⟩
  rw [← scaled_mul_two_pow]
  push_cast
  rfl

/-- A double of units that are not kept lies farther away, if any units are lost. -/
theorem rounded_of_lt_unit (h : IsRounded m e) (hlt : e < exponent + (units.log2 - 52 : ℕ)) :
    rounded units exponent = scaled units exponent ∨
      |rounded units exponent - scaled units exponent| <
        |scaled m e - scaled units exponent| := by
  by_cases hsmall : units < 2 ^ 53
  · exact .inl (rounded_of_lt hsmall exponent)
  have hlog : 53 ≤ units.log2 := (Nat.le_log2 (by omega)).mpr (not_lt.mp hsmall)
  have hbelow : scaled m e < scaled (2 ^ 52 : ℕ) (exponent + (units.log2 - 52 : ℕ)) :=
    scaled_lt_scaled h ⟨by decide, h.le_exponent.trans hlt.le, .inl le_rfl⟩ hlt
  have hle : scaled (2 ^ 52 : ℕ) (exponent + (units.log2 - 52 : ℕ)) ≤ scaled units exponent := by
    rw [← scaled_mul_two_pow]
    refine (scaled_strictMono exponent).monotone ?_
    have hpower : 2 ^ 52 * 2 ^ (units.log2 - 52) ≤ units := by
      rw [← pow_add, Nat.add_sub_of_le (by omega)]
      exact Nat.log2_self_le (by omega)
    exact_mod_cast hpower
  have hnearest : |rounded units exponent - scaled units exponent| ≤
      |scaled (2 ^ 52 : ℕ) (exponent + (units.log2 - 52 : ℕ)) - scaled units exponent| := by
    rw [rounded, abs_scaled_sub, abs_scaled_sub]
    refine (scaled_strictMono exponent).monotone (Int.ofNat_le.mpr ?_)
    exact (halfEven_nearest _ _ (2 ^ 52)).elim LT.lt.le fun htie ↦ htie.1.le
  refine .inr (hnearest.trans_lt ?_)
  rw [abs_of_nonpos (by linarith), abs_of_nonpos (by linarith)]
  linarith

theorem rounded_nearest (units : ℕ) (exponent : ℤ) (h : IsRounded m e) :
    |rounded units exponent - scaled units exponent| < |scaled m e - scaled units exponent| ∨
      |rounded units exponent - scaled units exponent| = |scaled m e - scaled units exponent| ∧
        (scaled m e = rounded units exponent ∨ halfEven units (units.log2 - 52) % 2 = 0) := by
  rcases le_or_gt (exponent + (units.log2 - 52 : ℕ)) e with hle | hlt
  · obtain ⟨kept, hkept, -⟩ := exists_kept m hle
    rw [hkept, rounded, abs_scaled_sub, abs_scaled_sub]
    rcases halfEven_nearest units (units.log2 - 52) kept with hlt | ⟨heq, hsame | heven⟩
    · exact .inl (scaled_strictMono exponent (Int.ofNat_lt.mpr hlt))
    · exact .inr ⟨by rw [heq], .inl (by rw [hsame])⟩
    · exact .inr ⟨by rw [heq], .inr heven⟩
  · rcases rounded_of_lt_unit h hlt with hexact | hfarther
    · rw [hexact, sub_self, abs_zero, eq_comm, abs_eq_zero, sub_eq_zero]
      rcases (abs_nonneg (scaled m e - scaled units exponent)).lt_or_eq with hpos | hzero
      · exact .inl hpos
      · have hsame := sub_eq_zero.mp (abs_eq_zero.mp hzero.symm)
        exact .inr ⟨hsame, .inl hsame⟩
    · exact .inl hfarther

theorem scaled_nonneg (units : ℕ) (exponent : ℤ) : 0 ≤ scaled units exponent := by
  unfold scaled
  positivity

theorem rounded_nonneg (units : ℕ) (exponent : ℤ) : 0 ≤ rounded units exponent :=
  scaled_nonneg _ _

/-- Zero is no nearer to a number than what it is rounded to. -/
theorem abs_rounded_sub_le (units : ℕ) (exponent : ℤ) :
    |rounded units exponent - scaled units exponent| ≤ scaled units exponent := by
  have hzero := rounded_nearest units exponent isRounded_zero
  rw [Nat.cast_zero, scaled_zero, zero_sub, abs_neg, abs_of_nonneg (scaled_nonneg _ _)] at hzero
  exact hzero.elim LT.lt.le fun htie ↦ htie.1.le

/-- Rounding does not pass a double. -/
theorem rounded_le (h : IsRounded m e) (hle : scaled units exponent ≤ scaled m e) :
    rounded units exponent ≤ scaled m e := by
  by_contra hlt
  have hfarther : |scaled m e - scaled units exponent| <
      |rounded units exponent - scaled units exponent| := by
    rw [abs_of_nonneg (by linarith), abs_of_nonneg (by linarith)]
    linarith
  exact ((rounded_nearest units exponent h).elim LT.lt.le fun htie ↦ htie.1.le).not_gt hfarther

/-- Of two even mantissas no more than one is nearest. -/
theorem eq_rounded_of_even (h : IsRounded m e) (heven : m % 2 = 0)
    (htie : |rounded units exponent - scaled units exponent| =
      |scaled m e - scaled units exponent|) : scaled m e = rounded units exponent := by
  rcases le_or_gt (exponent + (units.log2 - 52 : ℕ)) e with hle | hlt
  · obtain ⟨kept, hkept, hkeeps⟩ := exists_kept m hle
    rw [hkept, rounded, abs_scaled_sub, abs_scaled_sub] at htie
    have hdistance := Int.ofNat_inj.mp ((scaled_strictMono exponent).injective htie)
    rw [hkept, rounded, eq_halfEven_of_even (hkeeps heven) hdistance]
  · rcases rounded_of_lt_unit h hlt with hexact | hfarther
    · rw [hexact, sub_self, abs_zero] at htie
      rw [hexact]
      exact sub_eq_zero.mp (abs_eq_zero.mp htie.symm)
    · exact absurd htie hfarther.ne

/-- The mantissa of what rounding comes to is even as the number of units that was kept. -/
theorem mantissa_even_of_halfEven (h : IsRounded m e) (hexponent : -1074 ≤ exponent)
    (hvalue : scaled m e = rounded units exponent)
    (heven : halfEven units (units.log2 - 52) % 2 = 0) : m % 2 = 0 := by
  have hkept : halfEven units (units.log2 - 52) ≤ 2 ^ 53 :=
    (halfEven_bounds (Nat.zero_mul _ ▸ Nat.zero_le units) (lt_two_pow_mul units)).2
  rw [rounded] at hvalue
  generalize halfEven units (units.log2 - 52) = quotient at *
  rcases le_or_gt e (exponent + (units.log2 - 52 : ℕ)) with hle | hgt
  · obtain ⟨same, hsame, hkeeps⟩ := exists_kept quotient hle
    have hm := (scaled_strictMono e).injective (hvalue.trans hsame)
    rw [Int.ofNat_inj.mp hm]
    exact hkeeps heven
  -- The units that were kept carried into the place of the next larger ones.
  · obtain ⟨bits, hbits⟩ := Int.le.dest hgt.le
    rw [← hbits, ← scaled_mul_two_pow] at hvalue
    have hquotient : m * 2 ^ bits = quotient := by
      exact_mod_cast (scaled_strictMono _).injective hvalue
    have hfull := h.full.resolve_right (by omega)
    have htwo : 2 ^ 1 ≤ 2 ^ bits := Nat.pow_le_pow_right two_pos (by omega)
    have hcarry := Nat.mul_le_mul_left m htwo
    omega

end Magnitudes

/-! ### The nearest double -/

/-- The mantissa of a finite double, which for zeros is zero. -/
def mantissa (x : Float) : ℕ :=
  match x.toModel.unpack with
  | .finite _ mantissa _ _ => mantissa
  | _ => 0

/-- A number is rounded to this double: every other one is farther from it, or as far and then the
mantissa of this one is even. -/
def IsNearest (x : Float) (v : ℚ) : Prop :=
  ∃ p, point? x = some (.ofRat p) ∧ ∀ y q, point? y = some (.ofRat q) → q ≠ p →
    |p - v| < |q - v| ∨ |p - v| = |q - v| ∧ mantissa x % 2 = 0

section Doubles

variable {x y : Float} {p q v : ℚ}

theorem exists_isRounded (h : point? x = some (.ofRat p)) :
    ∃ e, IsRounded (mantissa x) e ∧ scaled (mantissa x) e = |p| := by
  have hcanonical : IsCanonical x.toModel.unpack := isCanonical_unpack _
  rcases zero_or_finite h with ⟨⟨sign, hzero⟩, rfl⟩ | ⟨sign, m, e, hpos, hfinite, rfl⟩
  · rw [mantissa, hzero, abs_zero]
    exact ⟨-1074, isRounded_zero, scaled_zero _⟩
  · rw [hfinite] at hcanonical
    rw [mantissa, hfinite]
    refine ⟨e, hcanonical.toIsRounded, ?_⟩
    have hnatAbs : (sign.apply m).natAbs = m := by cases sign <;> simp [Sign.apply]
    rw [← scaled_natAbs, hnatAbs]

theorem mantissa_congr (hx : point? x = some (.ofRat p)) (hy : point? y = some (.ofRat p)) :
    mantissa x = mantissa y := by
  obtain ⟨e, hrounded, hvalue⟩ := exists_isRounded hx
  obtain ⟨e', hrounded', hvalue'⟩ := exists_isRounded hy
  exact (hrounded.unique hrounded' (hvalue.trans hvalue'.symm)).1

/-- Rounding does not tell the zeros apart. -/
theorem IsNearest.congr (h : IsNearest x v) (hpoint : point? y = point? x) : IsNearest y v := by
  obtain ⟨p, hx, hnearest⟩ := h
  have hy := hpoint.trans hx
  exact ⟨p, hy, by rwa [mantissa_congr hy hx]⟩

theorem IsNearest.abs_sub_le (h : IsNearest x v) (hx : point? x = some (.ofRat p))
    (hy : point? y = some (.ofRat q)) : |p - v| ≤ |q - v| := by
  obtain ⟨p', hx', hothers⟩ := h
  obtain rfl := Point.ofRat_strictMono.injective (Option.some.inj (hx'.symm.trans hx))
  by_cases hsame : q = p'
  · rw [hsame]
  · exact (hothers y q hy hsame).elim LT.lt.le fun htie ↦ htie.1.le

/-- A double is nearest to its own number. -/
theorem isNearest_iff_of_point (hy : point? y = some (.ofRat v)) :
    IsNearest x v ↔ point? x = some (.ofRat v) := by
  constructor
  · intro h
    obtain ⟨p, hx, -⟩ := id h
    have hle := h.abs_sub_le hx hy
    rw [sub_self, abs_zero] at hle
    rwa [sub_eq_zero.mp (abs_nonpos_iff.mp hle)] at hx
  · refine fun hx ↦ ⟨v, hx, fun z q _ hne ↦ .inl ?_⟩
    rw [sub_self, abs_zero, abs_pos]
    exact sub_ne_zero.mpr hne

end Doubles

/-! ### Doubles of units are nearest -/

section Units

variable {units exponent : ℤ}

theorem scaled_eq_withSign (units exponent : ℤ) :
    scaled units exponent = withSign (signOf units) (scaled units.natAbs exponent) := by
  rw [← scaled_apply]
  congr 1
  unfold signOf
  split_ifs <;> simp only [Sign.apply] <;> omega

theorem abs_withSign_sub (sign : Sign) (magnitude magnitude' : ℚ) :
    |withSign sign magnitude - withSign sign magnitude'| = |magnitude - magnitude'| := by
  cases sign with
  | negative => rw [withSign, withSign, neg_sub_neg, abs_sub_comm]
  | positive => rfl

theorem abs_withSign (sign : Sign) (magnitude : ℚ) : |withSign sign magnitude| = |magnitude| := by
  cases sign with
  | negative => exact abs_neg magnitude
  | positive => rfl

/-- A number lies on the side of another one or farther from it than zero does. -/
theorem side_or_farther (sign : Sign) {magnitude : ℚ} (hpos : 0 < magnitude) (q : ℚ) :
    q = withSign sign |q| ∨ magnitude < |q - withSign sign magnitude| := by
  cases sign with
  | negative =>
    rcases le_or_gt q 0 with hle | hgt
    · exact .inl (by rw [withSign, abs_of_nonpos hle, neg_neg])
    · refine .inr ?_
      rw [withSign, abs_of_pos (by linarith)]
      linarith
  | positive =>
    rcases le_or_gt 0 q with hle | hgt
    · exact .inl (by rw [withSign, abs_of_nonneg hle])
    · refine .inr ?_
      rw [withSign, abs_of_neg (by linarith)]
      linarith

theorem isNearest_ofUnits (hne : units ≠ 0) (hexponent : -1074 ≤ exponent)
    (hlt : rounded units.natAbs exponent < 2 ^ 1024) :
    IsNearest (ofUnits units exponent) (scaled units exponent) := by
  have hpoint := point?_ofUnits hne hexponent hlt
  have hmagnitude : 0 < scaled units.natAbs exponent := scaled_pos (by omega) exponent
  refine ⟨_, hpoint, fun y q hy hother ↦ ?_⟩
  rw [scaled_eq_withSign, abs_withSign_sub]
  rcases side_or_farther (signOf units) hmagnitude q with hside | hfarther
  · obtain ⟨e, hrounded, hvalue⟩ := exists_isRounded hy
    obtain ⟨e', hrounded', hvalue'⟩ := exists_isRounded hpoint
    rw [abs_withSign, abs_of_nonneg (rounded_nonneg _ _)] at hvalue'
    rw [hside, abs_withSign_sub, ← hvalue]
    rcases rounded_nearest units.natAbs exponent hrounded with hlt | ⟨heq, hsame | heven⟩
    · exact .inl hlt
    · exact absurd (by rw [hside, ← hvalue, hsame]) hother
    · exact .inr ⟨heq, mantissa_even_of_halfEven hrounded' hexponent hvalue' heven⟩
  · exact .inl ((abs_rounded_sub_le _ _).trans_lt hfarther)

theorem IsNearest.point?_eq (hne : units ≠ 0) (hexponent : -1074 ≤ exponent)
    (hlt : rounded units.natAbs exponent < 2 ^ 1024) {x : Float}
    (h : IsNearest x (scaled units exponent)) : point? x = point? (ofUnits units exponent) := by
  have hmagnitude : 0 < scaled units.natAbs exponent := scaled_pos (by omega) exponent
  obtain ⟨q, hx, hothers⟩ := h
  have hpoint := point?_ofUnits hne hexponent hlt
  rw [hpoint]
  by_contra hother
  have htie := hothers _ _ hpoint fun h ↦ hother (h ▸ hx)
  rw [scaled_eq_withSign, abs_withSign_sub] at htie
  rcases side_or_farther (signOf units) hmagnitude q with hside | hfarther
  · obtain ⟨e, hrounded, hvalue⟩ := exists_isRounded hx
    rw [hside, abs_withSign_sub, ← hvalue] at htie
    have hsame : scaled (mantissa x) e = rounded units.natAbs exponent := by
      rcases htie with hlt | ⟨heq, heven⟩
      · rcases rounded_nearest units.natAbs exponent hrounded with hgt | ⟨heq, -⟩
        · exact absurd hlt hgt.not_gt
        · exact absurd heq hlt.ne'
      · exact eq_rounded_of_even hrounded heven heq.symm
    rw [hside, ← hvalue, hsame] at hx
    exact hother hx
  · have hle := (htie.elim LT.lt.le fun htie ↦ htie.1.le).trans (abs_rounded_sub_le _ _)
    exact hle.not_gt hfarther

/-- What a number of units comes to is the one double nearest to it. -/
theorem isNearest_ofUnits_iff (hne : units ≠ 0) (hexponent : -1074 ≤ exponent)
    (hlt : rounded units.natAbs exponent < 2 ^ 1024) {x : Float} :
    IsNearest x (scaled units exponent) ↔ point? x = point? (ofUnits units exponent) :=
  ⟨fun h ↦ h.point?_eq hne hexponent hlt, (isNearest_ofUnits hne hexponent hlt).congr⟩

end Units

end Treewalk.Number
