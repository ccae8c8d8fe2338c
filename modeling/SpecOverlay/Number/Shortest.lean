import SpecOverlay.Number.Single

/-!
# The shortest decimal of a binary number

A binary number `m · 2 ^ e` owns the interval of reals that round to it.  Its
text is the decimal in that interval with the fewest digits, and of several the
nearest one.  Counting digits is not needed to find it: the fewest digits belong
to the coarsest grid `10 ^ k` that has a point in the interval.  The walk over
the grids starts above the number and ends at a grid that holds it exactly.

Everything is compared in natural numbers over one common denominator, so the
search itself rounds nothing.

Two texts are made of the digits.  `ofSingle` writes a number of moderate size
with a point and any other with an exponent; `positionalOfDouble` never writes
an exponent.  Both mark a whole number by `.0`.
-/

namespace SpecOverlay
namespace Shortest

open Float.Model

/-! ## The rounding interval -/

/-- The numbers that round to `value / unit`, with the ends of their interval
over the same denominator.  The ends themselves belong to it if `closed`. -/
structure Interval where
  low : Nat
  value : Nat
  high : Nat
  unit : Nat
  closed : Bool

/-- The interval of `m · 2 ^ e` in a format.  Below a power of two the numbers
lie twice as dense, so there the lower end is half as far away.  An end is a tie
between two neighbours, and a tie goes to the even mantissa. -/
def Interval.of (format : Format) (m : Nat) (e : Int) : Interval :=
  let dense := m = Nat.pow 2 (format.mantissaBits - 1) ∧ format.minExponent < e
  let factor := Nat.pow 2 (e - 2).toNat
  { low := (4 * m - (if dense then 1 else 2)) * factor
    value := 4 * m * factor
    high := (4 * m + 2) * factor
    unit := Nat.pow 2 (2 - e).toNat
    closed := m % 2 = 0 }

/-- The point of the grid `10 ^ k` that lies in the interval, as a multiple of
`10 ^ k`: the nearer one if there are two, the upper one if they tie. -/
def Interval.gridPoint? (i : Interval) (k : Int) : Option Nat :=
  let stretch := Nat.pow 10 (-k).toNat
  let step := i.unit * Nat.pow 10 k.toNat
  let value := i.value * stretch
  let below := value / step
  let lowerFits := i.low * stretch < below * step ∨ (i.closed ∧ i.low * stretch = below * step)
  let upperFits :=
    (below + 1) * step < i.high * stretch ∨ (i.closed ∧ (below + 1) * step = i.high * stretch)
  if lowerFits then
    if upperFits ∧ step ≤ 2 * (value - below * step) then some (below + 1) else some below
  else if upperFits then some (below + 1)
  else none

/-! ## The search -/

/-- A decimal `coefficient · 10 ^ exponent`. -/
structure Digits where
  coefficient : Nat
  exponent : Int
  deriving DecidableEq

/-- The first grid at or below `10 ^ k`, within a number of steps, that has a
point in the interval. -/
def coarsest (i : Interval) : Nat → Int → Digits
  | 0, k => ⟨0, k⟩
  | steps + 1, k =>
    match i.gridPoint? k with
    | some d => ⟨d, k⟩
    | none => coarsest i steps (k - 1)

/-- A power of ten that `2 ^ b` does not exceed. -/
def decimalAbove (b : Int) : Int :=
  if 0 ≤ b then b / 3 + 1 else -((-b) / 4)

/-- The shortest decimal that rounds to `m · 2 ^ e`. -/
def digits (format : Format) (m : Nat) (e : Int) : Digits :=
  let top := decimalAbove (m.log2 + 1 + e)
  coarsest (Interval.of format m e) ((top - min 0 e).toNat + 1) top

/-! ## Texts -/

/-- The digits of a decimal and the number of them that stand before the point,
which is negative if zeros follow the point first. -/
def Digits.layout (d : Digits) : List Char × Int :=
  let ds := Nat.toDigits 10 d.coefficient
  (ds, ds.length + d.exponent)

/-- A decimal with a point, at least one digit before it and one after it. -/
def Digits.positional (d : Digits) : List Char :=
  match d.layout with
  | (ds, p) =>
    if p ≤ 0 then '0' :: '.' :: (List.replicate (-p).toNat '0' ++ ds)
    else if p < ds.length then ds.take p.toNat ++ '.' :: ds.drop p.toNat
    else ds ++ List.replicate (p - ds.length).toNat '0' ++ ['.', '0']

/-- A decimal with one digit before the point and an exponent. -/
def Digits.scientific (d : Digits) : List Char :=
  match d.layout with
  | (ds, p) =>
    let fraction := if ds.length ≤ 1 then [] else '.' :: ds.drop 1
    ds.take 1 ++ fraction ++ 'e' :: (toString (p - 1)).toList

/-- Positional from one ten-thousandth up to, but not including, ten to the
sixteenth. -/
def Digits.isModerate (d : Digits) : Bool :=
  match d.layout with
  | (_, p) => -3 ≤ p && p ≤ 16

/-- The minus sign of a negative number. -/
def signText : UnpackedFloat.Sign → List Char
  | .positive => []
  | .negative => ['-']

/-- The shortest text that reads back as a single-precision number. -/
def ofSingle (x : Float32) : String :=
  match Single.decode x with
  | .notANumber => "NaN"
  | .infinity s => String.ofList (signText s ++ "inf".toList)
  | .zero s => String.ofList (signText s ++ "0.0".toList)
  | .finite s m e _ =>
    let d := digits Format.binary32 m e
    String.ofList (signText s ++ (if d.isModerate then d.positional else d.scientific))

/-- The shortest text that reads back as a double-precision number and has no
exponent. -/
def positionalOfDouble (x : Float) : String :=
  match UnpackedFloat.unpack Format.binary64 x.toBits.toBitVec with
  | .notANumber => "nan"
  | .infinity s => String.ofList (signText s ++ "inf".toList)
  | .zero s => String.ofList (signText s ++ "0.0".toList)
  | .finite s m e _ => String.ofList (signText s ++ (digits Format.binary64 m e).positional)

end Shortest
end SpecOverlay
