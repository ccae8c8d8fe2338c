import SpecOverlay.Color
import SpecOverlay.Geometry

/-!
# The recording canvas

A canvas does not paint.  It records commands in the order in which they are
given, and keeps track of the clip, the rectangle outside of which a host must
not paint.

`save` remembers the clip and `restore` goes back to the clip remembered last.
A `restore` that has nothing to go back to is dropped and leaves no command, so
that a recording never closes what it has not opened.  A command for a clip holds
the rectangle as it was given, while the clip itself is the common part of all
rectangles in force.  To `clear` a canvas is to begin anew.
-/

namespace SpecOverlay

/-- How text is painted. -/
structure TextStyle where
  color : Color
  fontSize : Float32
  deriving DecidableEq

/-- One recorded command. -/
inductive Command where
  | save
  | restore
  | clip (rect : Rect Float32)
  | rect (rect : Rect Float32) (color : Color)
  | text (anchor : Point Float32) (text : String) (style : TextStyle)
  deriving DecidableEq

/-- A canvas: its recording, the clips it can go back to, latest first, and the
clip in force. -/
structure Canvas where
  commands : Array Command := #[]
  saved : List (Option (Rect Float32)) := []
  clip : Option (Rect Float32) := none
  deriving DecidableEq

namespace Canvas

/-- The canvas with nothing recorded and no clip. -/
def blank : Canvas := {}

/-- Records a command. -/
def record (c : Canvas) (command : Command) : Canvas :=
  { c with commands := c.commands.push command }

/-- Remembers the clip. -/
def save (c : Canvas) : Canvas :=
  { c.record .save with saved := c.clip :: c.saved }

/-- Goes back to the clip remembered last, if there is one. -/
def restore (c : Canvas) : Canvas :=
  match c.saved with
  | [] => c
  | clip :: saved => { c.record .restore with saved := saved, clip := clip }

/-- Narrows the clip to a rectangle.  A clip that does not meet the rectangle
leaves nothing. -/
def clipRect (c : Canvas) (rect : Rect Float32) : Canvas :=
  let clip :=
    match c.clip with
    | none => rect
    | some current => (current.intersection? rect).getD .zero
  { c.record (.clip rect) with clip := some clip }

/-- Paints a rectangle. -/
def drawRect (c : Canvas) (rect : Rect Float32) (color : Color) : Canvas :=
  c.record (.rect rect color)

/-- Paints a text. -/
def drawText (c : Canvas) (anchor : Point Float32) (text : String) (style : TextStyle) : Canvas :=
  c.record (.text anchor text style)

/-- Forgets the recording, the clips remembered and the clip. -/
def clear (c : Canvas) : Canvas :=
  { c with commands := #[], saved := [], clip := none }

/-- The rectangles painted, in order. -/
def rects (c : Canvas) : List (Rect Float32) :=
  c.commands.toList.filterMap fun
    | .rect r _ => some r
    | _ => none

@[simp] theorem clip_record (c : Canvas) (command : Command) : (c.record command).clip = c.clip :=
  rfl

@[simp] theorem saved_record (c : Canvas) (command : Command) :
    (c.record command).saved = c.saved := rfl

@[simp] theorem commands_record (c : Canvas) (command : Command) :
    (c.record command).commands = c.commands.push command := rfl

@[simp] theorem clear_eq (c : Canvas) : c.clear = blank := rfl

end Canvas
end SpecOverlay
