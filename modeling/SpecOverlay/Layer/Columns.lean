import SpecOverlay.Arguments
import SpecOverlay.Geometry

/-!
# Columns and rows

Columns split the bounds along the width into equal cells with a gutter between
neighbours, and rows do so along the height.  Every child is drawn once in every
cell.  If the gutters alone are wider than the bounds, the cells have no extent.
-/

namespace SpecOverlay

/-- The axis that is split. -/
inductive Orientation where
  | columns
  | rows
  deriving DecidableEq

/-- The token of the layer type with the given orientation. -/
def Orientation.token : Orientation → String
  | columns => "columns"
  | rows => "rows"

/-- A group that repeats its children in equal cells. -/
structure Columns where
  orientation : Orientation
  count : Nat
  gutter : Int

namespace Columns

/-- Columns or rows from arguments.  A positive number of cells is required, and a
negative gutter is refused. -/
def ofArguments (orientation : Orientation) (args : Arguments) : Except Error Columns := do
  let count ← args.int "count" 0
  if count ≤ 0 then throw ⟨.argumentNotPositive orientation.token "count" "4", none⟩
  let gutter ← args.size "gutter" 0
  if gutter < 0 then throw ⟨.argumentNotPositive orientation.token "gutter" "16dp", none⟩
  return { orientation, count := count.toNat, gutter }

variable {α : Type} [Add α] [Sub α] [Mul α] [Div α] [IntCast α]

/-- The part of the bounds between two distances along the split axis. -/
def cell (orientation : Orientation) (bounds : Rect α) (start extent : α) : Rect α :=
  match orientation with
  | .columns => ⟨bounds.left + start, bounds.top, bounds.left + start + extent, bounds.bottom⟩
  | .rows => ⟨bounds.left, bounds.top + start, bounds.right, bounds.top + start + extent⟩

/-- The extent of each cell, given the extent that is split. -/
def cellExtent [LT α] [LE α] [DecidableLT α] [DecidableLE α] (c : Columns) (total : α) : α :=
  larger ((total - (c.gutter : α) * (((c.count : Int) : α) - ((1 : Int) : α))) /
    ((c.count : Int) : α)) ((0 : Int) : α)

/-- The cells inside given bounds, first to last. -/
def cells [LT α] [LE α] [DecidableLT α] [DecidableLE α] (c : Columns) (bounds : Rect α) :
    List (Rect α) :=
  let total :=
    match c.orientation with
    | .columns => bounds.width
    | .rows => bounds.height
  let extent := c.cellExtent total
  (List.range c.count).map fun (index : Nat) =>
    cell c.orientation bounds (((index : Int) : α) * (extent + (c.gutter : α))) extent

end Columns
end SpecOverlay
