import SpecOverlay.Number.Single

/-!
# Reading numbers

A `Decimal` is a sign, a natural number and a power of ten.  It is what a
numeral says before any rounding, and `toSingle` rounds it once, to nearest.

Three kinds of numeral are read from a whole text:

* `readSingle?`: a sign, digits with an optional point and an optional exponent,
  or one of the words for infinity and for what is not a number;
* `readInteger?`: a sign and digits, of any size;
* `readInt32?`: the same, refused beyond 32 bits.

Only ASCII digits are read.
-/

namespace SpecOverlay

/-- The number `± coefficient · 10 ^ exponent`. -/
structure Decimal where
  negative : Bool
  coefficient : Nat
  exponent : Int
  deriving DecidableEq

namespace Decimal

/-- The single-precision number nearest to a decimal; a zero keeps its sign. -/
def toSingle (d : Decimal) : Float32 :=
  let x := Float32.ofScientific d.coefficient (d.exponent < 0) d.exponent.natAbs
  if d.negative then -x else x

/-- The double-precision number nearest to a decimal; a zero keeps its sign. -/
def toDouble (d : Decimal) : Float :=
  let x := Float.ofScientific d.coefficient (d.exponent < 0) d.exponent.natAbs
  if d.negative then -x else x

/-! ## Digits -/

/-- The number that a list of ASCII digits writes in base ten. -/
def ofDigits (digits : List Char) : Nat :=
  digits.foldl (fun n c => 10 * n + (c.toNat - '0'.toNat)) 0

/-- The digits at the start of a text, and the rest. -/
def spanDigits (s : List Char) : List Char × List Char :=
  (s.takeWhile Char.isDigit, s.dropWhile Char.isDigit)

/-- A sign, if the text begins with one, and the rest. -/
def spanSign : List Char → Bool × List Char
  | '-' :: s => (true, s)
  | '+' :: s => (false, s)
  | s => (false, s)

/-! ## Numerals -/

/-- The exponent after the digits of a numeral: nothing, or the letter `e` in
either case, a sign and digits. -/
def readExponent? : List Char → Option Int
  | [] => some 0
  | c :: s =>
    if c = 'e' ∨ c = 'E' then
      match spanSign s with
      | (negative, digits) =>
        if digits.isEmpty || !digits.all Char.isDigit then none
        else some (if negative then -(ofDigits digits : Int) else ofDigits digits)
    else none

/-- A numeral without its sign: digits with an optional point, at least one of
them, and an optional exponent. -/
def readUnsigned? (negative : Bool) (s : List Char) : Option Decimal :=
  match spanDigits s with
  | (whole, rest) =>
    match (match rest with
      | '.' :: rest => spanDigits rest
      | rest => ([], rest)) with
    | (fraction, rest) =>
      if whole.isEmpty && fraction.isEmpty then none
      else (readExponent? rest).map fun e =>
        ⟨negative, ofDigits (whole ++ fraction), e - fraction.length⟩

/-- Reads a whole text as a single-precision number. -/
def readSingle? (s : List Char) : Option Float32 :=
  match spanSign s with
  | (negative, body) =>
    let word := body.map Char.toLower
    if word = "inf".toList ∨ word = "infinity".toList then
      some (if negative then -Single.infinity else Single.infinity)
    else if word = "nan".toList then some Single.notANumber
    else (readUnsigned? negative body).map toSingle

/-- Reads a whole text as an integer of any size: an optional sign and digits. -/
def readInteger? (s : List Char) : Option Int :=
  match spanSign s with
  | (negative, digits) =>
    if digits.isEmpty || !digits.all Char.isDigit then none
    else some (if negative then -(ofDigits digits : Int) else ofDigits digits)

/-- Reads a whole text as a 32-bit signed integer. -/
def readInt32? (s : List Char) : Option Int :=
  (readInteger? s).filter fun n => Single.minInt32 ≤ n && n ≤ Single.maxInt32

end Decimal
end SpecOverlay
