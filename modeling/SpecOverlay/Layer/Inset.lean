import SpecOverlay.Arguments
import SpecOverlay.Geometry

/-!
# Insets

An inset hands smaller bounds to its children.  Each axis is placed on its own:
a margin at the near side, a margin at the far side, and possibly an extent.
Without an extent the inner interval lies between the margins.  With one, gravity
says where an interval of that extent lies between them.

If the author does not settle the gravity of an axis, it follows the margins: the
interval keeps to the far side if only the far side has a margin, and to the near
side otherwise.
-/

namespace SpecOverlay

/-- The margins and the extent of one axis. -/
structure AxisInset (α : Type) where
  near : Option (Length α)
  far : Option (Length α)
  extent : Option (Length α)

namespace AxisInset

variable {α : Type}

/-- The gravity that the margins ask for. -/
def impliedGravity (a : AxisInset α) : AxisGravity :=
  if a.near.isNone && a.far.isSome then .finish else .start

/-- A length inside an extent, zero if it is not given. -/
def margin [Mul α] [Div α] [IntCast α] (extent : α) (length : Option (Length α)) : α :=
  match length with
  | none => ((0 : Int) : α)
  | some length => length.resolve extent

/-- The inner interval of the interval from `start` to `finish`. -/
def place [Add α] [Sub α] [Mul α] [Div α] [IntCast α] (a : AxisInset α) (start finish : α)
    (gravity : AxisGravity) : α × α :=
  let total := finish - start
  let near := margin total a.near
  let far := margin total a.far
  match a.extent with
  | none => (start + near, finish - far)
  | some extent =>
    let extent := extent.resolve total
    match gravity with
    | .start => (start + near, start + near + extent)
    | .fill => (start + near, start + near + extent)
    | .finish => (finish - far - extent, finish - far)
    | .center =>
      let center := (start + near + finish - far) / ((2 : Int) : α)
      (center - extent / ((2 : Int) : α), center + extent / ((2 : Int) : α))

end AxisInset

/-- A group whose children get smaller bounds. -/
structure Inset (α : Type) where
  horizontal : AxisInset α
  vertical : AxisInset α
  gravity : Gravity
  clips : Bool

namespace Inset

/-- The token of the layer type. -/
def token : String := "inset"

/-- An inset from arguments.  Nothing is required. -/
def ofArguments (args : Arguments) : Except Error (Inset Float32) := do
  let horizontal : AxisInset Float32 :=
    { near := ← args.length? "left" .offset
      far := ← args.length? "right" .offset
      extent := ← args.length? "width" .size }
  let vertical : AxisInset Float32 :=
    { near := ← args.length? "top" .offset
      far := ← args.length? "bottom" .offset
      extent := ← args.length? "height" .size }
  let gravity := args.gravity "gravity" ⟨horizontal.impliedGravity, vertical.impliedGravity⟩
  let unclipped ← args.bool "no-clip" false true
  return { horizontal, vertical, gravity, clips := !unclipped }

/-- The bounds of the children inside given bounds. -/
def inner {α : Type} [Add α] [Sub α] [Mul α] [Div α] [IntCast α] (i : Inset α)
    (bounds : Rect α) : Rect α :=
  let (left, right) := i.horizontal.place bounds.left bounds.right i.gravity.horizontal
  let (top, bottom) := i.vertical.place bounds.top bounds.bottom i.gravity.vertical
  ⟨left, top, right, bottom⟩

end Inset
end SpecOverlay
