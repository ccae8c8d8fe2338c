/-!
# Single-precision numbers, decoded

All pixel arithmetic is single precision, each operation rounded to nearest.
The operations themselves are core's `Float32`, whose model is a triple of sign,
mantissa and exponent: a finite number is `± m · 2 ^ e`.  The conversions that
core leaves opaque are defined here on that triple:

* `truncate` keeps the integral part, with its sign even when it is zero;
* `truncateToInt` and `roundToInt` give a whole number, the first toward zero,
  the second to the nearest with halves away from zero, and both are clamped to
  32 bits (`truncateToInt_mem`, `roundToInt_mem`);
* `ofDouble` and `toDouble` change the precision.
-/

namespace SpecOverlay
namespace Single

open Float.Model

/-! ## The decoded form -/

/-- Sign, mantissa and exponent of a single-precision number. -/
def decode (x : Float32) : UnpackedFloat :=
  UnpackedFloat.unpack Format.binary32 x.toBits.toBitVec

/-- The single-precision number with the given sign, mantissa and exponent,
which must already be those of one. -/
def encode (u : UnpackedFloat) : Float32 :=
  Float32.ofBits ⟨UnpackedFloat.pack Format.binary32 u⟩

/-! ## Whole numbers

`m · 2 ^ e` is cut or rounded in natural-number arithmetic, so nothing is lost
before the one rounding that is asked for. -/

/-- The integral part of `m · 2 ^ e`. -/
def wholePart (m : Nat) (e : Int) : Nat :=
  if 0 ≤ e then m * Nat.pow 2 e.toNat else m / Nat.pow 2 (-e).toNat

/-- The whole number nearest to `m · 2 ^ e`, a half counting upward. -/
def nearestWhole (m : Nat) (e : Int) : Nat :=
  if 0 ≤ e then m * Nat.pow 2 e.toNat
  else (2 * m + Nat.pow 2 (-e).toNat) / Nat.pow 2 ((-e).toNat + 1)

/-- The largest 32-bit signed number. -/
def maxInt32 : Int := 2147483647

/-- The smallest 32-bit signed number. -/
def minInt32 : Int := -2147483648

/-- The 32-bit signed number nearest to `n`. -/
def clamp (n : Int) : Int :=
  max minInt32 (min maxInt32 n)

theorem clamp_mem (n : Int) : minInt32 ≤ clamp n ∧ clamp n ≤ maxInt32 := by
  simp only [clamp, minInt32, maxInt32]
  omega

theorem clamp_mono {a b : Int} (h : a ≤ b) : clamp a ≤ clamp b := by
  simp only [clamp, minInt32, maxInt32]
  omega

/-- The clamped whole number that `whole` makes of the magnitude, with the sign
put back.  What is not a number counts as zero. -/
def toInt (whole : Nat → Int → Nat) (x : Float32) : Int :=
  match decode x with
  | .notANumber => 0
  | .infinity .positive => maxInt32
  | .infinity .negative => minInt32
  | .zero _ => 0
  | .finite s m e _ => clamp (s.apply (whole m e))

theorem toInt_mem (whole : Nat → Int → Nat) (x : Float32) :
    minInt32 ≤ toInt whole x ∧ toInt whole x ≤ maxInt32 := by
  rw [toInt]
  split
  · decide
  · decide
  · decide
  · decide
  · exact clamp_mem _

/-- The number toward zero, clamped to 32 bits. -/
def truncateToInt (x : Float32) : Int :=
  toInt wholePart x

/-- The nearest number, halves away from zero, clamped to 32 bits. -/
def roundToInt (x : Float32) : Int :=
  toInt nearestWhole x

theorem truncateToInt_mem (x : Float32) :
    minInt32 ≤ truncateToInt x ∧ truncateToInt x ≤ maxInt32 :=
  toInt_mem _ x

theorem roundToInt_mem (x : Float32) :
    minInt32 ≤ roundToInt x ∧ roundToInt x ≤ maxInt32 :=
  toInt_mem _ x

/-- The integral part as a single-precision number.  It keeps the sign, so a
small negative number becomes the negative zero. -/
def truncate (x : Float32) : Float32 :=
  match decode x with
  | .finite s m e _ =>
    if wholePart m e = 0 then encode (.zero s)
    else encode (UnpackedFloat.round Format.binary32 s (wholePart m e) 0)
  | _ => x

/-- A whole number, rounded to single precision. -/
instance intCast : IntCast Float32 where
  intCast := Float32.ofInt

/-! ## Change of precision -/

/-- A decoded number rounded to the given format. -/
def roundTo (format : Format) : UnpackedFloat → UnpackedFloat
  | .finite s m e _ => UnpackedFloat.round format s m e
  | u => u

/-- A double-precision number, rounded to single precision. -/
def ofDouble (x : Float) : Float32 :=
  encode (roundTo Format.binary32 (UnpackedFloat.unpack Format.binary64 x.toBits.toBitVec))

/-- A single-precision number in double precision, which holds it exactly. -/
def toDouble (x : Float32) : Float :=
  Float.ofBits ⟨UnpackedFloat.pack Format.binary64 (roundTo Format.binary64 (decode x))⟩

/-- The value that is not a number. -/
def notANumber : Float32 :=
  encode .notANumber

/-- Positive infinity. -/
def infinity : Float32 :=
  encode (.infinity .positive)

end Single
end SpecOverlay
