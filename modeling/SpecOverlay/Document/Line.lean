import SpecOverlay.Text.Blank

/-!
# The kinds of lines

What a line is shows in its first characters, after blanks: two slashes begin a
comment, an at sign a variable declaration, a number sign a title, and anything
else a layer.
-/

namespace SpecOverlay

/-- What a line is. -/
inductive LineKind where
  | blank
  | comment
  | declaration
  | title
  | layer
  deriving DecidableEq

namespace LineKind

/-- The kind of a line without blanks around it. -/
def ofTrimmed : List Char → LineKind
  | [] => blank
  | '/' :: '/' :: _ => comment
  | '@' :: _ => declaration
  | '#' :: _ => title
  | _ => layer

/-- The kind of a line. -/
def of (line : String) : LineKind :=
  ofTrimmed (Text.trim line.toList)

/-- Whether a line of this kind says anything. -/
def isContent : LineKind → Bool
  | blank => false
  | comment => false
  | declaration => true
  | title => true
  | layer => true

end LineKind

/-- The title on a line: its text without number signs before it and blanks around
it.  A line without such text gives no title. -/
def titleOf (line : String) : Option String :=
  let text := Text.trim ((Text.trim line.toList).dropWhile (· == '#'))
  if text.isEmpty then none else some (String.ofList text)

end SpecOverlay
