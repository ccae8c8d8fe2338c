/-!
# Blank characters, trimming and words

A document is indented with spaces, but an author may separate words with any
character that Unicode calls white space.  This module fixes that class and the
two operations the rest of the library performs with it:

* `trim` removes blanks at both ends of a text;
* `words` cuts a text at its blanks.

Both work on lists of characters, which is the form in which lines are read.
-/

namespace SpecOverlay
namespace Text

/-! ## The class -/

/-- The characters with the Unicode property `White_Space`: the control
characters from tab to carriage return, the next-line control, and the
separators of every width. -/
def isBlank (c : Char) : Bool :=
  let n := c.toNat
  (9 ≤ n && n ≤ 13) || n == 0x20 || n == 0x85 || n == 0xA0 || n == 0x1680 ||
    (0x2000 ≤ n && n ≤ 0x200A) || n == 0x2028 || n == 0x2029 || n == 0x202F ||
    n == 0x205F || n == 0x3000

/-! ## Trimming -/

/-- The text without the blanks it begins with. -/
def trimStart (s : List Char) : List Char :=
  s.dropWhile isBlank

/-- The text without the blanks it ends with. -/
def trimEnd (s : List Char) : List Char :=
  (s.reverse.dropWhile isBlank).reverse

/-- The text without the blanks at either end. -/
def trim (s : List Char) : List Char :=
  trimEnd (trimStart s)

/-! ## Words -/

/-- One pass from the right: the word that the text begins with, which is empty
if the text begins with a blank, and the words after it. -/
def splitWords : List Char → List Char × List (List Char)
  | [] => ([], [])
  | c :: s =>
    match splitWords s with
    | (w, ws) =>
      if isBlank c then ([], if w.isEmpty then ws else w :: ws) else (c :: w, ws)

/-- The maximal runs of characters that are not blank, in order. -/
def words (s : List Char) : List (List Char) :=
  match splitWords s with
  | (w, ws) => if w.isEmpty then ws else w :: ws

end Text
end SpecOverlay
