import Mathlib
import Treewalk.Number.Arithmetic

/-!
# The order of doubles

Two doubles other than NaN can always be compared, so of two such doubles one is less than the other
or at least as large (`le_of_not_lt`). The doubles of integers are never NaN (`isNaN_ofInt64`).

Lemmas on the model of floats, such as `isNaN_iff` and `unpackSign_packComponents`, come with
Mathlib as a whole and with no single module of it, so it is imported as a whole here.
-/

set_option autoImplicit false
set_option relaxedAutoImplicit false

namespace Treewalk.Number

open Float.Model (UnpackedFloat Format)
open Float.Model.UnpackedFloat

/-! ### Comparison -/

theorem compare_swap (a b : UnpackedFloat) : b.compare a = (a.compare b).map Ordering.swap := by
  have hfinite : ∀ (m m' : Nat) (e e' : Int), ((compare e e').then (compare m m')).swap =
      (compare e' e).then (compare m' m) := by
    intro m m' e e'
    rw [Ordering.swap_then, Int.compare_swap, Nat.compare_swap]
  fun_cases UnpackedFloat.compare a b with
  | case1 => cases b <;> rfl
  | case3 s s' => cases s <;> cases s' <;> rfl
  | _ => simp [UnpackedFloat.compare, hfinite]

/-- There is always a comparison but with NaN. -/
theorem compare_ne_none {a b : UnpackedFloat} (ha : a ≠ .notANumber) (hb : b ≠ .notANumber) :
    ∃ ordering, a.compare b = some ordering := by
  fun_cases UnpackedFloat.compare a b
  all_goals simp_all

variable {x y : Float}

theorem lt_iff : x < y ↔ x.toModel.unpack.compare y.toModel.unpack = some .lt := by
  show decide (x.toModel.unpack.lt y.toModel.unpack = true) = true ↔ _
  rw [decide_eq_true_eq, UnpackedFloat.lt, beq_iff_eq]

theorem le_iff : x ≤ y ↔ ∃ ordering, x.toModel.unpack.compare y.toModel.unpack = some ordering ∧
    ordering.isLE := by
  show decide (x.toModel.unpack.le y.toModel.unpack = true) = true ↔ _
  rw [decide_eq_true_eq, UnpackedFloat.le, Option.any_eq_true]

theorem isNaN_eq_false_iff : x.isNaN = false ↔ x.toModel.unpack ≠ .notANumber := by
  show x.toModel.unpack.isNaN = false ↔ _
  rw [← Bool.not_eq_true, isNaN_iff]

/-- NaN is not comparable to anything. -/
theorem isNaN_of_le (h : x ≤ y) : x.isNaN = false ∧ y.isNaN = false := by
  obtain ⟨ordering, hcompare, -⟩ := le_iff.mp h
  rw [isNaN_eq_false_iff, isNaN_eq_false_iff]
  constructor
  · intro hx
    rw [hx] at hcompare
    cases hcompare
  · intro hy
    rw [compare_swap, hy] at hcompare
    cases hcompare

theorem le_of_lt (h : x < y) : x ≤ y :=
  le_iff.mpr ⟨.lt, lt_iff.mp h, rfl⟩

/-- Of two doubles other than NaN, one is less than the other or at least as large. -/
theorem le_of_not_lt (hx : x.isNaN = false) (hy : y.isNaN = false) (h : ¬ x < y) : y ≤ x := by
  obtain ⟨ordering, hcompare⟩ :=
    compare_ne_none (isNaN_eq_false_iff.mp hx) (isNaN_eq_false_iff.mp hy)
  have hswap : y.toModel.unpack.compare x.toModel.unpack = some ordering.swap := by
    rw [compare_swap, hcompare]
    rfl
  have hne : ordering ≠ .lt := fun hlt ↦ h (lt_iff.mpr (hlt ▸ hcompare))
  refine le_iff.mpr ⟨ordering.swap, hswap, ?_⟩
  cases ordering with
  | lt => exact absurd rfl hne
  | eq => rfl
  | gt => rfl

/-! ### Doubles of integers -/

/-- Bits are those of a NaN by their exponent and their mantissa both. -/
theorem unpack_packComponents_ne {sign : Sign}
    {exponent : BitVec (Format.exponentBits .binary64)}
    {mantissa : BitVec (Format.mantissaBitsWithoutImplicit .binary64)}
    (h : exponent ≠ -1#_ ∨ mantissa = 0#_) :
    unpack .binary64 (packComponents .binary64 sign exponent mantissa) ≠ .notANumber := by
  unfold unpack
  simp only [unpackExponent_packComponents, unpackMantissa_packComponents]
  split_ifs
  all_goals simp_all

/-- Nothing but NaN is packed as NaN. -/
theorem unpack_pack_ne {u : UnpackedFloat} (h : u ≠ .notANumber) :
    unpack .binary64 (pack .binary64 u) ≠ .notANumber := by
  fun_cases pack .binary64 u with
  | case1 => exact absurd rfl h
  | case2 s => exact unpack_packComponents_ne (.inr rfl)
  | case3 s => exact unpack_packComponents_ne (.inr rfl)
  | case4 s m e hm biased hlarge => exact unpack_packComponents_ne (.inr rfl)
  | case5 s m e hm bits biased hlarge hnormal =>
    refine unpack_packComponents_ne (.inl fun hexponent ↦ ?_)
    have hnat := congrArg BitVec.toNat hexponent
    simp only [BitVec.toNat_ofNat, Nat.reducePow, BitVec.reduceNeg, Nat.mod_succ] at hnat
    simp only [Nat.reducePow, Nat.reduceLeDiff, Nat.not_le] at hlarge
    omega
  | case6 s m e hm bits biased hlarge hsubnormal =>
    exact unpack_packComponents_ne (.inl (by decide))

/-- Rounding comes to a zero or to a finite double. -/
theorem normalize_ne (spec : Format) (mantissa exponent : Int) (sign : Sign) :
    UnpackedFloat.normalize spec mantissa exponent sign ≠ .notANumber := by
  have hround : ∀ sign mantissa exponent,
      UnpackedFloat.round spec sign mantissa exponent ≠ .notANumber := by
    intro sign mantissa exponent
    unfold UnpackedFloat.round roundWithAccuracy
    dsimp only
    split_ifs <;> nofun
  unfold UnpackedFloat.normalize
  split
  · exact hround _ _ _
  · nofun
  · exact hround _ _ _

theorem isNaN_ofInt64 (n : Int64) : (ofInt64 n).toFloat.isNaN = false :=
  isNaN_eq_false_iff.mpr (unpack_pack_ne (normalize_ne _ _ _ _))

end Treewalk.Number
