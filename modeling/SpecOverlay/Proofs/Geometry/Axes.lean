import SpecOverlay.Geometry

/-!
# Axes, transposition and mirror images

The plane has two axes, and what is said of one of them can be said of the other.  A rectangle
is two intervals, one along each axis (`Rect.along`).  To transpose a rectangle is to exchange
the two, and to mirror it along an axis is to change the sign of the coordinates there, so that
the two edges change places.  The edges that layers are measured from go along: `Edge.transpose`
is where an edge is after the transposition, `Edge.opposite` where it is after mirroring along
its own axis.
-/

namespace SpecOverlay

/-- An axis of the plane. -/
inductive Axis where
  | horizontal
  | vertical
  deriving DecidableEq

/-- The axis across. -/
def Axis.other : Axis → Axis
  | horizontal => vertical
  | vertical => horizontal

namespace Rect

variable {α : Type}

/-- The interval of a rectangle along an axis. -/
def along (r : Rect α) : Axis → α × α
  | .horizontal => (r.left, r.right)
  | .vertical => (r.top, r.bottom)

/-- Where a rectangle begins along an axis. -/
def near (r : Rect α) (axis : Axis) : α :=
  (r.along axis).1

/-- Where it ends. -/
def far (r : Rect α) (axis : Axis) : α :=
  (r.along axis).2

/-- The rectangle with its axes exchanged. -/
def transpose (r : Rect α) : Rect α :=
  ⟨r.top, r.left, r.bottom, r.right⟩

/-- The mirror image along an axis. -/
def mirror [Neg α] (axis : Axis) (r : Rect α) : Rect α :=
  match axis with
  | .horizontal => ⟨-r.right, r.top, -r.left, r.bottom⟩
  | .vertical => ⟨r.left, -r.bottom, r.right, -r.top⟩

end Rect

namespace Edge

/-- The axis along which distances from an edge are measured. -/
def axis : Edge → Axis
  | top => .vertical
  | bottom => .vertical
  | left => .horizontal
  | right => .horizontal

/-- The edge of the transposed rectangle. -/
def transpose : Edge → Edge
  | top => left
  | bottom => right
  | left => top
  | right => bottom

/-- The edge on the other side. -/
def opposite : Edge → Edge
  | top => bottom
  | bottom => top
  | left => right
  | right => left

end Edge

end SpecOverlay
