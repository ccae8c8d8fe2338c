import SpecOverlay.Text.Hidden

/-!
# Quoted texts

A quoted text stands between double quotes.  A double quote and a backslash in it
get a backslash, the common controls are written with a letter, and a character
without a glyph is written as its number.  So a quoted text lies on one line, and
its first bare double quote ends it.
-/

namespace SpecOverlay
namespace Text

/-- The lower-case hexadecimal digits of a number, without leading zeros. -/
def hexText (n : Nat) : List Char :=
  Nat.toDigits 16 n

/-- A character inside double quotes. -/
def escape (c : Char) : List Char :=
  match c with
  | '"' => ['\\', '"']
  | '\\' => ['\\', '\\']
  | '\x00' => ['\\', '0']
  | '\t' => ['\\', 't']
  | '\n' => ['\\', 'n']
  | '\r' => ['\\', 'r']
  | c => if isHidden c then "\\u\x7b".toList ++ hexText c.toNat ++ ['\x7d'] else [c]

/-- A text between double quotes. -/
def quoted (s : String) : String :=
  String.ofList ('"' :: (s.toList.flatMap escape ++ ['"']))

end Text
end SpecOverlay
