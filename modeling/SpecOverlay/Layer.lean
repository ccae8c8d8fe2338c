import SpecOverlay.Canvas
import SpecOverlay.Layer.Columns
import SpecOverlay.Layer.DimensionsLabel
import SpecOverlay.Layer.Fill
import SpecOverlay.Layer.GridLines
import SpecOverlay.Layer.Inset
import SpecOverlay.Layer.Keyline
import SpecOverlay.Layer.RatioKeyline

/-!
# Layers and how they are drawn

A *shape* is what a layer is apart from its children: a leaf, which paints, or a
group, which places its children.  A *layer* is a finished tree of shapes.  Every
layer has an identity, a number given to it when it was made, so that the same
leaf can be recognised in two places.

There are no other shapes than those of the built-in layer types, though their data may be
any.  A group as a shape has no children: it gets them while it is open, from the lines
that are nested in it.

Children are drawn in order, later ones over earlier ones.  An inset opens and
closes its clip around its children; columns and rows do so in every cell.
-/

namespace SpecOverlay

/-! ## Shapes -/

/-- What paints. -/
inductive Leaf where
  | gridLines (g : GridLines Float32)
  | keyline (k : Keyline Float32)
  | fill (f : Fill)
  | dimensionsLabel (l : DimensionsLabel)
  | ratioKeyline (k : RatioKeyline)

/-- What places children. -/
inductive Group where
  | inset (i : Inset Float32)
  | columns (c : Columns)

/-- A layer without its children. -/
inductive Shape where
  | leaf (l : Leaf)
  | group (g : Group)

/-- The name of a leaf in outlines. -/
def Leaf.name : Leaf → String
  | gridLines _ => "GridLines"
  | keyline _ => "Keyline"
  | fill _ => "Fill"
  | dimensionsLabel _ => "DimensionsLabel"
  | ratioKeyline _ => "RatioKeyline"

/-- The name of a group in outlines. -/
def Group.name : Group → String
  | inset _ => "Inset"
  | columns c =>
    match c.orientation with
    | .columns => "Columns"
    | .rows => "Rows"

/-- Whether a shape takes children. -/
def Shape.isGroup : Shape → Bool
  | leaf _ => false
  | group _ => true

/-- A shape and its identity. -/
structure Node where
  id : Nat
  shape : Shape

/-! ## Trees -/

/-- A finished layer. -/
inductive Layer where
  | leaf (id : Nat) (l : Leaf)
  | group (id : Nat) (g : Group) (children : List Layer)

namespace Layer

/-- The identity of a layer. -/
def id : Layer → Nat
  | leaf id _ => id
  | group id _ _ => id

/-- The name of a layer in outlines. -/
def name : Layer → String
  | leaf _ l => l.name
  | group _ g _ => g.name

/-- The children of a layer, none for a leaf. -/
def children : Layer → List Layer
  | leaf _ _ => []
  | group _ _ children => children

end Layer

/-! ## Drawing -/

/-- Paints a leaf into bounds. -/
def Leaf.draw (bounds : Rect Float32) (canvas : Canvas) : Leaf → Canvas
  | gridLines g => (g.rects bounds).foldl (fun c r => c.drawRect r g.color) canvas
  | keyline k => canvas.drawRect (k.rect bounds) k.color
  | fill f => canvas.drawRect bounds f.color
  | dimensionsLabel l =>
    canvas.drawText (l.anchor bounds) (l.label bounds) ⟨l.color, l.textSize⟩
  | ratioKeyline k => canvas.drawRect (k.rect bounds) k.color

mutual

/-- Draws a layer into bounds. -/
def Layer.draw (bounds : Rect Float32) (canvas : Canvas) : Layer → Canvas
  | .leaf _ l => l.draw bounds canvas
  | .group _ (.inset i) children =>
    let inner := i.inner bounds
    let canvas := if i.clips then canvas.save.clipRect inner else canvas.save
    (Layer.drawAll inner canvas children).restore
  | .group _ (.columns c) children =>
    (c.cells bounds).foldl
      (fun canvas cell => (Layer.drawAll cell (canvas.save.clipRect cell) children).restore) canvas

/-- Draws layers into the same bounds, first to last. -/
def Layer.drawAll (bounds : Rect Float32) (canvas : Canvas) : List Layer → Canvas
  | [] => canvas
  | l :: ls => Layer.drawAll bounds (Layer.draw bounds canvas l) ls

end

end SpecOverlay
