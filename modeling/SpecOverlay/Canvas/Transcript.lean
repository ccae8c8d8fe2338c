import SpecOverlay.Canvas
import SpecOverlay.Number.Shortest
import SpecOverlay.Text.Quoted

/-!
# Commands as text

A recording is listed with one line to a command.  A command is shown by its name,
followed by its parts in parentheses; rectangles, points and styles name their
fields between braces.
-/

namespace SpecOverlay

/-- Named fields between braces. -/
def record (name : String) (fields : List (String × String)) : String :=
  name ++ " \x7b " ++ ", ".intercalate (fields.map fun f => f.1 ++ ": " ++ f.2) ++ " \x7d"

/-- A rectangle with its edges. -/
def Rect.toText (r : Rect Float32) : String :=
  record "Rect"
    [("left", Shortest.ofSingle r.left), ("top", Shortest.ofSingle r.top),
     ("right", Shortest.ofSingle r.right), ("bottom", Shortest.ofSingle r.bottom)]

/-- A point with its coordinates. -/
def Point.toText (p : Point Float32) : String :=
  record "Offset" [("x", Shortest.ofSingle p.x), ("y", Shortest.ofSingle p.y)]

/-- A style with its color and its size. -/
def TextStyle.toText (s : TextStyle) : String :=
  record "TextStyle" [("color", s.color.toText), ("font_size", Shortest.ofSingle s.fontSize)]

/-- The line of a command. -/
def Command.toText : Command → String
  | save => "Save"
  | restore => "Restore"
  | clip r => "ClipRect(" ++ r.toText ++ ")"
  | rect r c => "DrawRect(" ++ r.toText ++ ", " ++ record "Paint" [("color", c.toText)] ++ ")"
  | text p t s => "DrawText(" ++ p.toText ++ ", " ++ Text.quoted t ++ ", " ++ s.toText ++ ")"

end SpecOverlay
