import SpecOverlay.Arguments
import SpecOverlay.Geometry

/-!
# Grid lines

Grid lines repeat at a fixed step from one edge.  The edge itself carries no
line: after an offset, the first line lies one step in, and lines follow while
they begin before the far side and the limit is not reached.

The distance of a line is reached by adding the step again and again, which in
single precision is not the same as a multiple of the step.  `distances` makes
these sums, and `line` turns each into a rectangle across the bounds.
-/

namespace SpecOverlay

/-- Lines at a fixed step from an edge. -/
structure GridLines (α : Type) where
  edge : Edge
  step : Int
  thickness : Int
  offset : Length α
  limit : Option Nat
  color : Color

namespace GridLines

/-! ## Arguments -/

/-- The token of the layer type. -/
def token : String := "grid-lines"

/-- A translucent red. -/
def defaultColor : Color := ⟨0x60F44336⟩

/-- The limit of the number of lines.  The number -1 asks for no limit, and any
other number has to be positive. -/
def limitOf (n : Int) : Except Error (Option Nat) :=
  if n = -1 then .ok none
  else if 0 < n then .ok (some n.toNat)
  else .error ⟨.argumentNotPositive token "limit" "4", none⟩

/-- Grid lines from arguments.  The edge and a positive step are required. -/
def ofArguments (args : Arguments) : Except Error (GridLines Float32) := do
  let some edge := args.edge? "from" none
    | throw ⟨.argumentNotOneOf token "from" (Edge.all.map Edge.token), none⟩
  let step ← args.size "step" 0
  if step ≤ 0 then throw ⟨.argumentNotPositive token "step" "8dp", none⟩
  let thickness ← args.size "thickness" 1
  if thickness ≤ 0 then throw ⟨.argumentNotPositive token "thickness" "1px", none⟩
  let limit ← limitOf (← args.int "limit" (-1))
  let offset ← args.length? "offset" .offset
  let color ← args.color "color" defaultColor
  return { edge, step, thickness, offset := offset.getD (.pixels 0), limit, color }

/-! ## Placement -/

/-- Distances one step apart, from the given one on, as long as they lie before
the extent, and at most as many as the first number says. -/
def distances {α : Type} [Add α] [LT α] [DecidableLT α] (extent step : α) : Nat → α → List α
  | 0, _ => []
  | count + 1, distance =>
    if distance < extent then distance :: distances extent step count (distance + step) else []

/-- How many lines are drawn without a limit: as many as 32 bits count. -/
def unlimited : Nat := 4294967295

/-- A line of a thickness at a distance from an edge, away from the edge. -/
def line {α : Type} [Add α] [Sub α] (bounds : Rect α) (edge : Edge) (distance thickness : α) :
    Rect α :=
  match edge with
  | .top => ⟨bounds.left, bounds.top + distance, bounds.right, bounds.top + distance + thickness⟩
  | .bottom =>
    ⟨bounds.left, bounds.bottom - distance - thickness, bounds.right, bounds.bottom - distance⟩
  | .left => ⟨bounds.left + distance, bounds.top, bounds.left + distance + thickness, bounds.bottom⟩
  | .right =>
    ⟨bounds.right - distance - thickness, bounds.top, bounds.right - distance, bounds.bottom⟩

variable {α : Type} [Add α] [Sub α] [Mul α] [Div α] [LT α] [DecidableLT α] [IntCast α]

/-- The distances of the lines inside given bounds, nearest first. -/
def distancesIn (g : GridLines α) (bounds : Rect α) : List α :=
  let extent := bounds.extent g.edge
  distances extent (g.step : α) (g.limit.getD unlimited) (g.offset.resolve extent + (g.step : α))

/-- The rectangles of the lines inside given bounds, nearest first. -/
def rects (g : GridLines α) (bounds : Rect α) : List (Rect α) :=
  (g.distancesIn bounds).map fun distance => line bounds g.edge distance (g.thickness : α)

end GridLines
end SpecOverlay
