import SpecOverlay.Arguments
import SpecOverlay.Geometry

/-!
# Keylines

A keyline is one line at a fixed distance from an edge.  It extends away from the
edge, or toward it if it lies *outside*, so that in both cases the distance is
that of the side of the line which the distance is measured to.
-/

namespace SpecOverlay

/-- A line at a distance from an edge. -/
structure Keyline (α : Type) where
  edge : Edge
  distance : Length α
  thickness : Int
  outside : Bool
  color : Color

namespace Keyline

/-- The token of the layer type. -/
def token : String := "keyline"

/-- A second token of the same type. -/
def guideToken : String := "guide"

/-- A translucent blue. -/
def defaultColor : Color := ⟨0x800091EA⟩

/-- A keyline from arguments.  The edge and the distance are required. -/
def ofArguments (args : Arguments) : Except Error (Keyline Float32) := do
  let some edge := args.edge? "from" none
    | throw ⟨.argumentNotOneOf token "from" (Edge.all.map Edge.token), none⟩
  let some distance ← args.length? "distance" .offset
    | throw ⟨.missingArgument token "distance", none⟩
  let thickness ← args.size "thickness" 1
  if thickness ≤ 0 then throw ⟨.argumentNotPositive token "thickness" "1dp", none⟩
  let outside ← args.bool "outside" false true
  let color ← args.color "color" defaultColor
  return { edge, distance, thickness, outside, color }

/-- The rectangle of a line of a thickness at a distance from an edge. -/
def line {α : Type} [Add α] [Sub α] (bounds : Rect α) (edge : Edge) (distance thickness : α)
    (outside : Bool) : Rect α :=
  if outside then bounds.band edge (distance - thickness) distance
  else bounds.band edge distance (distance + thickness)

/-- The rectangle of a keyline inside given bounds. -/
def rect {α : Type} [Add α] [Sub α] [Mul α] [Div α] [IntCast α] (k : Keyline α)
    (bounds : Rect α) : Rect α :=
  line bounds k.edge (k.distance.resolve (bounds.extent k.edge)) (k.thickness : α) k.outside

end Keyline
end SpecOverlay
