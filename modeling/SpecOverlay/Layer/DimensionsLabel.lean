import SpecOverlay.Arguments
import SpecOverlay.Geometry

/-!
# Dimension labels

A label writes the size of its bounds, such as `360×640 dp`, in pixels or in
density-independent pixels.  Gravity says where in the bounds the text is
anchored; the anchor is the left end of its base line.
-/

namespace SpecOverlay

/-- A text with the size of its bounds. -/
structure DimensionsLabel where
  color : Color
  textSize : Float32
  gravity : Gravity
  inPixels : Bool
  density : Float32

namespace DimensionsLabel

/-- The token of the layer type. -/
def token : String := "dimensions-label"

/-- The right end of the bottom. -/
def defaultGravity : Gravity := ⟨.finish, .finish⟩

/-- Whether a size is written in pixels.  Without a value it is not. -/
def readUnits (units : Option String) : Except Error Bool :=
  match units with
  | none => .ok false
  | some "dp" => .ok false
  | some "px" => .ok true
  | some _ => .error ⟨.argumentNotOneOf token "units" ["dp", "px"], none⟩

/-- A label from arguments.  Nothing is required, and a text size that is zero or
negative is refused. -/
def ofArguments (args : Arguments) : Except Error DimensionsLabel := do
  let inPixels ← readUnits (args.text? "units")
  let textSize ← args.exactPixels "text-size" (DimensionUnit.sp.toPixels 12 args.scale)
  if textSize ≤ 0 then throw ⟨.argumentNotPositive token "text-size" "12sp", none⟩
  let color ← args.color "color" Color.black
  let gravity := args.gravity "gravity" defaultGravity
  return { color, textSize, gravity, inPixels, density := args.scale.density }

/-- The text for given bounds: both extents rounded to whole units. -/
def label (l : DimensionsLabel) (bounds : Rect Float32) : String :=
  let shown (extent : Float32) :=
    toString (Single.roundToInt (if l.inPixels then extent else extent / l.density))
  shown bounds.width ++ "×" ++ shown bounds.height ++ (if l.inPixels then " px" else " dp")

/-- Where the text begins. -/
def anchor (l : DimensionsLabel) (bounds : Rect Float32) : Point Float32 :=
  { x :=
      match l.gravity.horizontal with
      | .start => bounds.left
      | .fill => bounds.left
      | .finish => bounds.right
      | .center => (bounds.left + bounds.right) / 2
    y :=
      match l.gravity.vertical with
      | .start => bounds.top + l.textSize
      | .fill => bounds.top + l.textSize
      | .finish => bounds.bottom
      | .center => (bounds.top + bounds.bottom + l.textSize) / 2 }

end DimensionsLabel
end SpecOverlay
