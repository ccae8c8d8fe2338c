import SpecOverlay.Gravity
import SpecOverlay.Number.Single

/-!
# Points and rectangles

A rectangle is stored as its four edges, the vertical axis pointing down.  The
definitions ask of coordinates only the operations they use, so that one and the
same placement can be run in single precision and reasoned about in exact
arithmetic.

A rectangle may be empty or inverted, and it holds a point if the point lies at
or after its left and top edges and before its right and bottom edges.
-/

namespace SpecOverlay

/-- A point. -/
structure Point (α : Type) where
  x : α
  y : α
  deriving DecidableEq

/-- A rectangle with its four edges. -/
structure Rect (α : Type) where
  left : α
  top : α
  right : α
  bottom : α
  deriving DecidableEq

/-- The larger of two numbers: a number wins over what is not one, and the first
wins over an equal one. -/
def larger {α : Type} [LT α] [LE α] [DecidableLT α] [DecidableLE α] (a b : α) : α :=
  if a < b then b else if a ≤ a then a else b

/-- The smaller of two numbers: a number wins over what is not one, and the first
wins over an equal one. -/
def smaller {α : Type} [LT α] [LE α] [DecidableLT α] [DecidableLE α] (a b : α) : α :=
  if b < a then b else if a ≤ a then a else b

namespace Rect

variable {α : Type}

/-- The rectangle of a size, from the origin. -/
def ofSize [IntCast α] (width height : α) : Rect α :=
  ⟨((0 : Int) : α), ((0 : Int) : α), width, height⟩

/-- The rectangle whose edges are all at the origin. -/
def zero [IntCast α] : Rect α :=
  ofSize ((0 : Int) : α) ((0 : Int) : α)

/-- The extent along the horizontal axis. -/
def width [Sub α] (r : Rect α) : α :=
  r.right - r.left

/-- The extent along the vertical axis. -/
def height [Sub α] (r : Rect α) : α :=
  r.bottom - r.top

/-- The extent along which distances from an edge are measured. -/
def extent [Sub α] (r : Rect α) (e : Edge) : α :=
  if e.isVertical then r.height else r.width

/-- Whether an extent is zero or negative. -/
def isEmpty [Sub α] [IntCast α] [LE α] [DecidableLE α] (r : Rect α) : Bool :=
  r.width ≤ ((0 : Int) : α) || r.height ≤ ((0 : Int) : α)

/-- Whether a point lies in a rectangle. -/
def contains [LT α] [LE α] [DecidableLT α] [DecidableLE α] (r : Rect α) (p : Point α) : Bool :=
  r.left ≤ p.x && p.x < r.right && (r.top ≤ p.y && p.y < r.bottom)

/-- Whether the interiors of two rectangles meet. -/
def intersects [LT α] [DecidableLT α] (a b : Rect α) : Bool :=
  a.left < b.right && b.left < a.right && (a.top < b.bottom && b.top < a.bottom)

/-- The common part of two rectangles that meet. -/
def intersection? [LT α] [LE α] [DecidableLT α] [DecidableLE α] (a b : Rect α) :
    Option (Rect α) :=
  if a.intersects b then
    some ⟨larger a.left b.left, larger a.top b.top, smaller a.right b.right,
      smaller a.bottom b.bottom⟩
  else none

end Rect

/-- A line along an edge: from `near` to `far`, measured inward from the edge, and
across the whole rectangle. -/
def Rect.band {α : Type} [Add α] [Sub α] (r : Rect α) (e : Edge) (near far : α) : Rect α :=
  match e with
  | .top => ⟨r.left, r.top + near, r.right, r.top + far⟩
  | .bottom => ⟨r.left, r.bottom - far, r.right, r.bottom - near⟩
  | .left => ⟨r.left + near, r.top, r.left + far, r.bottom⟩
  | .right => ⟨r.right - far, r.top, r.right - near, r.bottom⟩

end SpecOverlay
