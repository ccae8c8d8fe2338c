import SpecOverlay.Layer.Keyline

/-!
# Ratio keylines

A ratio keyline lies where a box of a given aspect ratio would end, if the box
spanned the bounds along its edge.  The distance follows from the bounds and is
cut to whole pixels before the line is drawn.
-/

namespace SpecOverlay

/-- A line at the end of a box with the ratio `widthPart : heightPart`. -/
structure RatioKeyline where
  widthPart : Float32
  heightPart : Float32
  edge : Edge
  thickness : Int
  color : Color

namespace RatioKeyline

/-- The token of the layer type. -/
def token : String := "ratio-keyline"

/-- A text cut at its first colon. -/
def splitColon : List Char → Option (List Char × List Char)
  | [] => none
  | c :: s => if c = ':' then some ([], s) else (splitColon s).map fun p => (c :: p.1, p.2)

/-- Two positive numbers with a colon between them, blanks around each allowed. -/
def readRatio? (raw : List Char) : Option (Float32 × Float32) := do
  let (width, height) ← splitColon raw
  let width ← Decimal.readSingle? (Text.trim width)
  let height ← Decimal.readSingle? (Text.trim height)
  if 0 < width ∧ 0 < height then some (width, height) else none

/-- A ratio keyline from arguments.  The ratio and the edge are required. -/
def ofArguments (args : Arguments) : Except Error RatioKeyline := do
  let some (widthPart, heightPart) := (args.text? "ratio").bind fun raw => readRatio? raw.toList
    | throw ⟨.argumentNotOfForm token "ratio" "16:9", none⟩
  let some edge := args.edge? "from" none
    | throw ⟨.argumentNotOneOf token "from" (Edge.all.map Edge.token), none⟩
  let thickness ← args.size "thickness" 1
  if thickness ≤ 0 then throw ⟨.argumentNotPositive token "thickness" "1dp", none⟩
  let color ← args.color "color" Keyline.defaultColor
  return { widthPart, heightPart, edge, thickness, color }

/-- The distance of the line from its edge inside given bounds. -/
def distance (k : RatioKeyline) (bounds : Rect Float32) : Float32 :=
  if k.edge.isVertical then bounds.width * k.heightPart / k.widthPart
  else bounds.height * k.widthPart / k.heightPart

/-- The rectangle of the line inside given bounds. -/
def rect (k : RatioKeyline) (bounds : Rect Float32) : Rect Float32 :=
  Keyline.line bounds k.edge (Single.truncate (k.distance bounds)) (k.thickness : Float32) false

end RatioKeyline
end SpecOverlay
