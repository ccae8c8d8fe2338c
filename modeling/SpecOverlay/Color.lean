/-!
# Colors

A color is a 32-bit word of alpha, red, green and blue, eight bits each and alpha
on top.  It is written as a number sign and eight hexadecimal digits.  It is read
from that form, from six digits, which leave alpha full, or from a name in either
case.
-/

namespace SpecOverlay

/-- A color, packed as alpha, red, green, blue. -/
structure Color where
  argb : UInt32
  deriving DecidableEq

namespace Color

/-! ## Parts -/

/-- The color with the given red, green, blue and alpha. -/
def ofRgba (red green blue alpha : UInt8) : Color :=
  ⟨(alpha.toUInt32 <<< 24) ||| (red.toUInt32 <<< 16) ||| (green.toUInt32 <<< 8) ||| blue.toUInt32⟩

/-- The alpha of a color. -/
def alpha (c : Color) : UInt8 :=
  (c.argb >>> 24).toUInt8

/-- The color with another alpha. -/
def withAlpha (c : Color) (alpha : UInt8) : Color :=
  ⟨(c.argb &&& (0x00FFFFFF : UInt32)) ||| (alpha.toUInt32 <<< 24)⟩

/-- Opaque black. -/
def black : Color := ⟨0xFF000000⟩

/-- Opaque white. -/
def white : Color := ⟨0xFFFFFFFF⟩

/-! ## Text -/

/-- The upper-case hexadecimal digit of a number below sixteen. -/
def hexDigit (n : Nat) : Char :=
  if n < 10 then Char.ofNat ('0'.toNat + n) else Char.ofNat ('A'.toNat + (n - 10))

/-- The last `count` hexadecimal digits of a number. -/
def hexDigits : Nat → Nat → List Char
  | 0, _ => []
  | count + 1, n => hexDigits count (n / 16) ++ [hexDigit (n % 16)]

/-- The number sign and eight digits. -/
def toText (c : Color) : String :=
  String.ofList ('#' :: hexDigits 8 c.argb.toNat)

/-- The value of an ASCII hexadecimal digit of either case. -/
def hexValue? (c : Char) : Option Nat :=
  if c.isDigit then some (c.toNat - '0'.toNat)
  else if 'a' ≤ c ∧ c ≤ 'f' then some (c.toNat - 'a'.toNat + 10)
  else if 'A' ≤ c ∧ c ≤ 'F' then some (c.toNat - 'A'.toNat + 10)
  else none

/-- The number that hexadecimal digits write, if all of them are digits. -/
def ofHex? (digits : List Char) : Option Nat :=
  (digits.mapM hexValue?).map fun values => values.foldl (fun n v => 16 * n + v) 0

/-- The colors that have names. -/
def named : List (String × Color) :=
  [("black", ⟨0xFF000000⟩), ("white", ⟨0xFFFFFFFF⟩), ("red", ⟨0xFFFF0000⟩),
   ("green", ⟨0xFF00FF00⟩), ("blue", ⟨0xFF0000FF⟩), ("yellow", ⟨0xFFFFFF00⟩),
   ("cyan", ⟨0xFF00FFFF⟩), ("magenta", ⟨0xFFFF00FF⟩), ("gray", ⟨0xFF888888⟩),
   ("grey", ⟨0xFF888888⟩), ("lightgray", ⟨0xFFCCCCCC⟩), ("lightgrey", ⟨0xFFCCCCCC⟩),
   ("darkgray", ⟨0xFF444444⟩), ("darkgrey", ⟨0xFF444444⟩), ("aqua", ⟨0xFF00FFFF⟩),
   ("fuchsia", ⟨0xFFFF00FF⟩), ("lime", ⟨0xFF00FF00⟩), ("maroon", ⟨0xFF800000⟩),
   ("navy", ⟨0xFF000080⟩), ("olive", ⟨0xFF808000⟩), ("purple", ⟨0xFF800080⟩),
   ("silver", ⟨0xFFC0C0C0⟩), ("teal", ⟨0xFF008080⟩), ("transparent", ⟨0x00000000⟩)]

/-- Reads six or eight hexadecimal digits after a number sign, or a name. -/
def read? : List Char → Option Color
  | '#' :: digits =>
    match digits.length with
    | 6 => (ofHex? digits).map fun n => ⟨UInt32.ofNat (0xFF000000 + n)⟩
    | 8 => (ofHex? digits).map fun n => ⟨UInt32.ofNat n⟩
    | _ => none
  | name => named.lookup (String.ofList (name.map Char.toLower))

/-- What is said of a text that is no color. -/
def unreadable (text : String) : String :=
  "unknown color `" ++ text ++ "`"

end Color
end SpecOverlay
