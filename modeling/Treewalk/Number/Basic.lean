/-!
# Numbers

A number is a double. Doubles have many NaNs but `Float` has one, which serves for all quiet NaNs,
since nothing tells them apart. A signaling NaN is a case of its own: it passes through variables,
calls and signs unchanged, and `power` does not overlook it where it overlooks a quiet one.
`toFloat` is what every other operation sees of a number.
-/

set_option autoImplicit false
set_option relaxedAutoImplicit false

namespace Treewalk

inductive Number where
  /-- Any double but a signaling NaN. -/
  | float (x : Float)
  | signalingNaN
  deriving DecidableEq

namespace Number

open Float.Model (UnpackedFloat)

/-- The quiet NaN. -/
def nan : Float :=
  .ofModel (.pack .notANumber)

def toFloat : Number → Float
  | float x => x
  | signalingNaN => nan

/-- Whether bits are those of a signaling NaN: past the infinity of their sign, with the leading
bit of the mantissa clear. -/
def isSignaling (bits : UInt64) : Bool :=
  let magnitude := bits.toNat % 0x8000000000000000
  0x7ff0000000000000 < magnitude && magnitude < 0x7ff8000000000000

/-- Signaling bits are bits of a NaN. -/
theorem unpack_of_isSignaling {bits : UInt64} (h : isSignaling bits = true) :
    UnpackedFloat.unpack .binary64 bits.toBitVec = .notANumber := by
  simp only [isSignaling, Bool.and_eq_true, decide_eq_true_eq] at h
  have hexponent : @UnpackedFloat.unpackExponent .binary64 bits.toBitVec = -1#11 := by
    apply BitVec.eq_of_toNat_eq
    simp [UnpackedFloat.unpackExponent, Nat.shiftRight_eq_div_pow]
    omega
  have hmantissa : @UnpackedFloat.unpackMantissa .binary64 bits.toBitVec ≠ 0#52 := by
    intro hzero
    have hnat := congrArg BitVec.toNat hzero
    simp [UnpackedFloat.unpackMantissa] at hnat
    omega
  delta UnpackedFloat.unpack
  simp [hexponent, hmantissa]

def ofBits (bits : UInt64) : Number :=
  if isSignaling bits then signalingNaN else float (.ofBits bits)

/-- Telling the NaNs apart changes nothing for operations that see doubles alone. -/
theorem toFloat_ofBits (bits : UInt64) : (ofBits bits).toFloat = .ofBits bits := by
  unfold ofBits
  split
  · next h => rw [toFloat, nan, Float.ofBits, Float.Model.ofBits, unpack_of_isSignaling h]
  · rfl

/-- The number with the other sign. NaNs show no sign, and a signaling one stays signaling. -/
def negate : Number → Number
  | float x => float (-x)
  | signalingNaN => signalingNaN

end Number

end Treewalk
