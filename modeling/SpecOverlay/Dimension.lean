import SpecOverlay.Error
import SpecOverlay.Number.Decimal
import SpecOverlay.Text.DecimalDigit

/-!
# Dimensions

An author writes a dimension as a number and a unit, such as `16dp`, `1.5mm` or
`50%`.  A `Scale` says how many pixels the units of a surface have.

Number and unit are read from opposite ends of the text: the number is the
longest numeral the text begins with, the unit is the suffix the text ends with,
and what stands between them is ignored.

Pixels are kept exact or brought to whole numbers in one of two ways: an *offset*
is cut toward zero, a *size* is rounded and never vanishes.  A `Length` is either
pixels or a percentage, which waits for the extent it is taken of.
-/

namespace SpecOverlay

/-! ## Scale and units -/

/-- The densities of a surface. -/
structure Scale where
  /-- Pixels per density-independent pixel. -/
  density : Float32
  /-- Pixels per scale-independent pixel. -/
  scaledDensity : Float32
  /-- Pixels per inch. -/
  xdpi : Float32

namespace Scale

/-- The scale with one density for both kinds of pixel and 160 of the one kind
to the inch. -/
def ofDensity (density : Float32) : Scale :=
  ⟨density, density, 160 * density⟩

/-- One pixel to each kind of unit. -/
def standard : Scale :=
  ofDensity 1

/-- Equal numbers throughout, so that a factor that is not a number differs from
itself. -/
def sameFactors (a b : Scale) : Bool :=
  a.density == b.density && a.scaledDensity == b.scaledDensity && a.xdpi == b.xdpi

end Scale

/-- The units of a dimension.  A number without a unit is `bare`. -/
inductive DimensionUnit where
  | px
  | dp
  | sp
  | pt
  | inch
  | mm
  | percent
  | bare
  deriving DecidableEq

namespace DimensionUnit

/-- The suffixes of the units, in the order in which they are tried. -/
def suffixes : List (String × DimensionUnit) :=
  [("dip", dp), ("dp", dp), ("px", px), ("sp", sp), ("pt", pt), ("in", inch), ("mm", mm),
   ("%", percent)]

/-- The unit that a text ends with, blanks aside. -/
def of (raw : List Char) : DimensionUnit :=
  match suffixes.find? fun s => s.1.toList.isSuffixOf (Text.trim raw) with
  | some s => s.2
  | none => bare

/-- A number of units in pixels.  A percentage stays as it is. -/
def toPixels (value : Float32) (scale : Scale) : DimensionUnit → Float32
  | px => value
  | percent => value
  | bare => value
  | dp => value * scale.density
  | sp => value * scale.scaledDensity
  | pt => value * scale.xdpi / 72
  | inch => value * scale.xdpi
  | mm => value * scale.xdpi / 25.4

end DimensionUnit

/-! ## Reading -/

namespace Dimension

/-- The longest numeral that a text begins with: a minus sign, if any, and digits
with an optional point, at least one of them before or after it.  Digits of every
script are recognised here. -/
def spanNumeral (s : List Char) : Option (Bool × List Char × List Char) :=
  match (match s with
    | '-' :: s => (true, s)
    | s => (false, s)) with
  | (negative, s) =>
    let whole := s.takeWhile Text.isDecimalDigit
    let fraction :=
      match s.dropWhile Text.isDecimalDigit with
      | '.' :: s => s.takeWhile Text.isDecimalDigit
      | _ => []
    if whole.isEmpty && fraction.isEmpty then none else some (negative, whole, fraction)

/-- The number that a text begins with.  A numeral with digits of another script
than ASCII has no value. -/
def readNumber? (s : List Char) : Option Float32 :=
  match spanNumeral s with
  | some (negative, whole, fraction) =>
    if (whole ++ fraction).all Char.isDigit then
      some (Decimal.toSingle ⟨negative, Decimal.ofDigits (whole ++ fraction), -fraction.length⟩)
    else none
  | none => none

/-- A dimension in pixels, or the bare number of a percentage. -/
def readPixels? (scale : Scale) (raw : List Char) : Option Float32 :=
  (readNumber? (Text.trim raw)).map fun value =>
    (DimensionUnit.of raw).toPixels value scale

/-- A dimension in pixels, or the complaint about the argument that holds it. -/
def readPixels (scale : Scale) (argument raw : String) : Except Error Float32 :=
  match readPixels? scale raw.toList with
  | some px => .ok px
  | none => .error ⟨.malformedArgument argument raw "a dimension", none⟩

/-! ## Whole pixels -/

/-- Pixels cut toward zero. -/
def toOffset (px : Float32) : Int :=
  Single.truncateToInt px

/-- Pixels rounded to the nearest number.  What is not zero keeps at least one
pixel, on its side of zero. -/
def toSize (px : Float32) : Int :=
  let rounded := Single.roundToInt px
  if rounded ≠ 0 ∨ px == 0 then rounded else if 0 < px then 1 else -1

end Dimension

/-- What is done to pixels before they are kept. -/
inductive Rounding where
  | exact
  | offset
  | size
  deriving DecidableEq

/-- The pixels after rounding. -/
def Rounding.apply (px : Float32) : Rounding → Float32
  | exact => px
  | offset => (Dimension.toOffset px : Float32)
  | size => (Dimension.toSize px : Float32)

/-! ## Lengths -/

/-- A number of pixels, or a percentage of an extent that is not known yet. -/
inductive Length (α : Type) where
  | pixels (px : α)
  | percent (share : α)
  deriving DecidableEq

/-- The length inside a given extent. -/
def Length.resolve {α : Type} [Mul α] [Div α] [IntCast α] (extent : α) : Length α → α
  | pixels px => px
  | percent share => extent * share / ((100 : Int) : α)

end SpecOverlay
