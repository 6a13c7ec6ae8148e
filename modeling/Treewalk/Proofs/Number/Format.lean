import Treewalk.Proofs.Number.Order

/-!
# The format of doubles

A rounded double is a mantissa of at most 53 bits at an exponent from -1074 on, and the mantissa
fills its bits unless the exponent is the least (`IsRounded`). Up to the exponent 971 it is a
double of the format (`InFormat`). Every double that is unpacked is of this form
(`isCanonical_unpack`), and packing one loses nothing (`unpack_pack`).
-/

set_option autoImplicit false
set_option relaxedAutoImplicit false

namespace Treewalk.Number

open Float.Model (UnpackedFloat Format)
open Float.Model.UnpackedFloat

/-- The mantissas and exponents that rounding comes to: the mantissa fills its places, unless the
exponent is the least. -/
structure IsRounded (mantissa : ℕ) (exponent : ℤ) : Prop where
  mantissa_lt : mantissa < 2 ^ 53
  le_exponent : -1074 ≤ exponent
  full : 2 ^ 52 ≤ mantissa ∨ exponent = -1074

/-- The mantissas and exponents of finite doubles. -/
structure InFormat (mantissa : ℕ) (exponent : ℤ) : Prop extends IsRounded mantissa exponent where
  exponent_le : exponent ≤ 971

def IsCanonical : UnpackedFloat → Prop
  | .finite _ mantissa exponent _ => InFormat mantissa exponent
  | _ => True

theorem toNat_one_append (bits : BitVec 52) : (1#1 ++ bits).toNat = 2 ^ 52 + bits.toNat := by
  rw [BitVec.toNat_append, ← Nat.shiftLeft_add_eq_or_of_lt bits.isLt]
  rfl

theorem isCanonical_unpack (bits : BitVec (Format.numBits .binary64)) :
    IsCanonical (unpack .binary64 bits) := by
  have hmantissa : (@unpackMantissa .binary64 bits).toNat < 2 ^ 52 := BitVec.isLt _
  have hexponent : (@unpackExponent .binary64 bits).toNat < 2 ^ 11 := BitVec.isLt _
  have hbias : (Format.exponentBias .binary64 : ℤ) = 1023 := rfl
  unfold unpack
  dsimp only
  split_ifs with hall hinf hzero hnone
  · trivial
  · trivial
  · trivial
  · refine ⟨⟨by omega, ?_, .inr ?_⟩, ?_⟩ <;> · rw [hzero, hbias]; decide
  · have hle : (@unpackExponent .binary64 bits).toNat ≠ 2 ^ 11 - 1 :=
      fun h ↦ hall (BitVec.eq_of_toNat_eq h)
    have hne : (@unpackExponent .binary64 bits).toNat ≠ 0 :=
      fun h ↦ hzero (BitVec.eq_of_toNat_eq h)
    have hfull := toNat_one_append (@unpackMantissa .binary64 bits)
    refine ⟨⟨?_, ?_, .inl ?_⟩, ?_⟩
    · exact hfull ▸ by omega
    · rw [hbias]; push_cast; omega
    · exact hfull ▸ by omega
    · rw [hbias]; push_cast; omega

theorem unpack_normal {sign : Sign} {biased mantissa : ℕ} (hpos : 0 < biased)
    (hlt : biased < 2 ^ 11 - 1) (hfull : 2 ^ 52 ≤ mantissa) (hmantissa : mantissa < 2 ^ 53) :
    unpack .binary64 (packComponents .binary64 sign (.ofNat _ biased) (.ofNat _ mantissa)) =
      .finite sign mantissa (biased - 1075) (by omega) := by
  have hbias : (Format.exponentBias .binary64 : ℤ) = 1023 := rfl
  have hbiased : (BitVec.ofNat 11 biased).toNat = biased := by simp; omega
  have hrest : (BitVec.ofNat 52 mantissa).toNat = mantissa - 2 ^ 52 := by simp; omega
  unfold unpack
  simp only [unpackExponent_packComponents, unpackMantissa_packComponents,
    unpackSign_packComponents, Sign.ofBitVec_toBitVec, hbias]
  rw [if_neg, if_neg]
  · simp only [toNat_one_append, UnpackedFloat.finite.injEq, true_and]
    rw [hrest, hbiased]
    push_cast
    omega
  · intro h
    have := congrArg BitVec.toNat h
    rw [hbiased] at this
    exact hpos.ne' this
  · intro h
    have := congrArg BitVec.toNat h
    rw [hbiased] at this
    exact hlt.ne this

theorem unpack_subnormal {sign : Sign} {mantissa : ℕ} (hpos : 0 < mantissa)
    (hlt : mantissa < 2 ^ 52) :
    unpack .binary64 (packComponents .binary64 sign 0#_ (.ofNat _ mantissa)) =
      .finite sign mantissa (-1074) hpos := by
  have hrest : (BitVec.ofNat 52 mantissa).toNat = mantissa := by simp; omega
  unfold unpack
  simp only [unpackExponent_packComponents, unpackMantissa_packComponents,
    unpackSign_packComponents, Sign.ofBitVec_toBitVec]
  rw [if_neg (by decide), if_pos trivial, dif_neg]
  · simp only [UnpackedFloat.finite.injEq, true_and]
    exact ⟨hrest, rfl⟩
  · intro h
    have := congrArg BitVec.toNat h
    rw [hrest] at this
    exact hpos.ne' this

/-- Nothing is lost by packing a double in its format. -/
theorem unpack_pack {u : UnpackedFloat} (h : IsCanonical u) :
    unpack .binary64 (pack .binary64 u) = u := by
  have hbias : (Format.exponentBias .binary64 : ℤ) = 1023 := rfl
  cases u with
  | notANumber => rfl
  | infinity sign => cases sign <;> rfl
  | zero sign => cases sign <;> rfl
  | finite sign mantissa exponent hpos =>
    obtain ⟨⟨hlt, hle, hfull⟩, hge⟩ := h
    have hlog : mantissa.log2 + 1 = Format.mantissaBits .binary64 ↔ 2 ^ 52 ≤ mantissa := by
      rw [show Format.mantissaBits .binary64 = 52 + 1 by rfl, Nat.add_right_cancel_iff,
        Nat.log2_eq_iff hpos.ne']
      omega
    unfold pack
    dsimp only
    rw [hbias, if_neg (by push_cast; omega)]
    split_ifs with hnormal
    · rw [unpack_normal (by push_cast; omega) (by push_cast; omega) (hlog.mp hnormal) hlt]
      simp only [UnpackedFloat.finite.injEq, true_and]
      push_cast
      omega
    · have hsubnormal := mt hlog.mpr hnormal
      rw [unpack_subnormal hpos (by omega)]
      simp only [UnpackedFloat.finite.injEq, true_and]
      omega

end Treewalk.Number
