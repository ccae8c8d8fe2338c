import SpecOverlay.Toml.Text

/-!
# The numbers and dates of TOML

Numbers may have an underscore between two digits, and no number but zero begins
with a zero.  An integer is decimal, or hexadecimal, octal or binary after a
marker without a sign, and has to fit in 64 bits.  A float has a fraction, an
exponent or both, or is one of the words for infinity and for what is not a
number.  A positive float that is too large is refused.

Of a date or a time only the form is checked, since nothing here asks for one.
-/

namespace SpecOverlay
namespace Toml

/-! ## Digits -/

/-- Digits of a class, each but the first possibly after an underscore, and the
rest. -/
def spanMore (p : Char → Bool) : List Char → List Char × List Char
  | '_' :: c :: s =>
    if p c then
      match spanMore p s with
      | (digits, rest) => (c :: digits, rest)
    else ([], '_' :: c :: s)
  | c :: s =>
    if p c then
      match spanMore p s with
      | (digits, rest) => (c :: digits, rest)
    else ([], c :: s)
  | [] => ([], [])

/-- At least one digit of a class, underscores taken away. -/
def readDigits? (p : Char → Bool) : List Char → Option (List Char × List Char)
  | [] => none
  | c :: s =>
    if p c then
      match spanMore p s with
      | (digits, rest) => some (c :: digits, rest)
    else none

/-- A decimal number without a sign: a zero alone, or digits of which the first is
no zero. -/
def readWhole? : List Char → Option (List Char × List Char)
  | '0' :: s => some (['0'], s)
  | s => readDigits? Char.isDigit s

/-! ## Integers -/

/-- The number that digits write in a base. -/
def ofDigits (base : Nat) (digits : List Char) : Nat :=
  digits.foldl (fun n c => base * n + (hexValue? c).getD 0) 0

/-- An integer of 64 bits. -/
def fit? (n : Int) : Option Int :=
  if -9223372036854775808 ≤ n ∧ n ≤ 9223372036854775807 then some n else none

/-- Digits of a class in a base. -/
def readBased? (base : Nat) (p : Char → Bool) (s : List Char) : Option (Int × List Char) :=
  (readDigits? p s).bind fun r => (fit? (ofDigits base r.1)).map fun n => (n, r.2)

/-- An integer. -/
def readInteger? : List Char → Option (Int × List Char)
  | '0' :: 'x' :: s => readBased? 16 (fun c => (hexValue? c).isSome) s
  | '0' :: 'o' :: s => readBased? 8 (fun c => '0' ≤ c && c ≤ '7') s
  | '0' :: 'b' :: s => readBased? 2 (fun c => c == '0' || c == '1') s
  | s =>
    match Decimal.spanSign s with
    | (negative, s) =>
      (readWhole? s).bind fun r =>
        let n : Int := ofDigits 10 r.1
        (fit? (if negative then -n else n)).map fun n => (n, r.2)

/-! ## Floats -/

/-- A fraction: a point and digits. -/
def readFraction? : List Char → Option (List Char × List Char)
  | '.' :: s => readDigits? Char.isDigit s
  | _ => none

/-- An exponent: the letter `e` in either case, a sign and digits. -/
def readExponent? : List Char → Option (Int × List Char)
  | c :: s =>
    if c = 'e' ∨ c = 'E' then
      match Decimal.spanSign s with
      | (negative, s) =>
        (readDigits? Char.isDigit s).map fun r =>
          let n : Int := ofDigits 10 r.1
          (if negative then -n else n, r.2)
    else none
  | [] => none

/-- A float with digits. -/
def readDecimal? (s : List Char) : Option (Decimal × List Char) :=
  match Decimal.spanSign s with
  | (negative, s) =>
    (readWhole? s).bind fun whole =>
      match readFraction? whole.2, readExponent? whole.2 with
      | some fraction, _ =>
        let coefficient := ofDigits 10 (whole.1 ++ fraction.1)
        let places : Int := fraction.1.length
        match readExponent? fraction.2 with
        | some (e, rest) => some (⟨negative, coefficient, e - places⟩, rest)
        | none => some (⟨negative, coefficient, -places⟩, fraction.2)
      | none, some (e, rest) => some (⟨negative, ofDigits 10 whole.1, e⟩, rest)
      | none, none => none

/-- The word for infinity. -/
def readInfinity? (s : List Char) : Option (Float × List Char) :=
  match Decimal.spanSign s with
  | (negative, 'i' :: 'n' :: 'f' :: s) => some (if negative then -1 / 0 else 1 / 0, s)
  | _ => none

/-- The word for what is not a number, and whether it has a minus. -/
def readNaN? (s : List Char) : Option (Bool × List Char) :=
  match Decimal.spanSign s with
  | (negative, 'n' :: 'a' :: 'n' :: s) => some (negative, s)
  | _ => none

/-- A float that is a number. -/
def readFloat? (s : List Char) : Option (Float × List Char) :=
  match readDecimal? s with
  | some (d, rest) =>
    let x := d.toDouble
    if x == 1 / 0 then none else some (x, rest)
  | none => readInfinity? s

/-! ## Dates and times -/

/-- Exactly that many digits, and their number. -/
def readPadded? (count : Nat) (s : List Char) : Option (Nat × List Char) :=
  let digits := s.take count
  if digits.length = count ∧ digits.all Char.isDigit then
    some (Decimal.ofDigits digits, s.drop count)
  else none

/-- Two digits whose number lies in a range. -/
def readTwo? (low high : Nat) (s : List Char) : Option (List Char) :=
  (readPadded? 2 s).bind fun r => if low ≤ r.1 ∧ r.1 ≤ high then some r.2 else none

/-- The text after a character. -/
def readChar? (c : Char) : List Char → Option (List Char)
  | d :: s => if c = d then some s else none
  | [] => none

/-- A date. -/
def readDate? (s : List Char) : Option (List Char) := do
  let (_, s) ← readPadded? 4 s
  let s ← readChar? '-' s
  let s ← readTwo? 1 12 s
  let s ← readChar? '-' s
  readTwo? 1 31 s

/-- A time of day. -/
def readTime? (s : List Char) : Option (List Char) := do
  let s ← readTwo? 0 23 s
  let s ← readChar? ':' s
  let s ← readTwo? 0 59 s
  let s ← readChar? ':' s
  let s ← readTwo? 0 60 s
  match s with
  | '.' :: t =>
    match t.takeWhile Char.isDigit with
    | [] => none
    | _ => some (t.dropWhile Char.isDigit)
  | s => some s

/-- The text after a distance from universal time, if it begins with one. -/
def skipOffset (s : List Char) : List Char :=
  match s with
  | 'Z' :: t => t
  | 'z' :: t => t
  | c :: t =>
    if c = '+' ∨ c = '-' then
      ((readTwo? 0 23 t).bind fun t => (readChar? ':' t).bind (readTwo? 0 59)).getD s
    else s
  | [] => []

/-- A date, a time, or both with a letter or a space between them. -/
def readDateTime? (s : List Char) : Option (List Char) :=
  match readDate? s with
  | none => readTime? s
  | some t =>
    match t with
    | c :: u =>
      if c = 'T' ∨ c = 't' ∨ c = ' ' then
        match readTime? u with
        | some u => some (skipOffset u)
        | none => some t
      else some t
    | [] => some []

end Toml
end SpecOverlay
