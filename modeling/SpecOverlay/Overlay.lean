import SpecOverlay.Layer
import SpecOverlay.Text.Json

/-!
# Overlays and their outlines

An overlay is what one block of a document says: a title, if there is one, and
layers.  Drawing an overlay draws its layers in order.

A *summary* keeps the title and the names of the layers.  It is printed as an
outline, one line to a layer and two spaces to a level, or as JSON.
-/

namespace SpecOverlay

/-- A title and layers. -/
structure Overlay where
  title : Option String
  layers : List Layer

/-- Draws the layers of an overlay into bounds. -/
def Overlay.draw (o : Overlay) (bounds : Rect Float32) (canvas : Canvas) : Canvas :=
  Layer.drawAll bounds canvas o.layers

/-! ## Summaries -/

/-- The names in a tree of layers. -/
inductive Outline where
  | node (name : String) (children : List Outline)

/-- The title of an overlay and the names of its layers. -/
structure Summary where
  title : Option String
  layers : List Outline

mutual

/-- The names in a layer. -/
def Outline.of : Layer → Outline
  | .leaf _ l => .node l.name []
  | .group _ g children => .node g.name (Outline.ofAll children)

/-- The names in a list of layers. -/
def Outline.ofAll : List Layer → List Outline
  | [] => []
  | l :: ls => Outline.of l :: Outline.ofAll ls

end

/-- The summary of an overlay. -/
def Overlay.summary (o : Overlay) : Summary :=
  ⟨o.title, Outline.ofAll o.layers⟩

/-! ## Printing -/

mutual

/-- The lines of an outline at a level. -/
def Outline.lines (level : Nat) : Outline → List String
  | .node name children =>
    (String.ofList (List.replicate (2 * level) ' ') ++ name) ::
      Outline.linesAll (level + 1) children

/-- The lines of several outlines at a level. -/
def Outline.linesAll (level : Nat) : List Outline → List String
  | [] => []
  | o :: os => Outline.lines level o ++ Outline.linesAll level os

end

/-- The first line of an outline. -/
def Summary.heading (s : Summary) : String :=
  "# " ++ s.title.getD "(untitled)"

/-- The outline of an overlay, every line with its terminator. -/
def Summary.text (s : Summary) : String :=
  String.join ((s.heading :: Outline.linesAll 1 s.layers).map (· ++ "\n"))

mutual

/-- An outline in JSON; a leaf has no list of children. -/
def Outline.toJson : Outline → Json
  | .node name children =>
    .object (("layer_type", .string name) ::
      match children with
      | [] => []
      | c :: cs => [("children", .array (Outline.toJson c :: Outline.toJsonAll cs))])

/-- Outlines in JSON. -/
def Outline.toJsonAll : List Outline → List Json
  | [] => []
  | o :: os => Outline.toJson o :: Outline.toJsonAll os

end

/-- A summary in JSON; an overlay without a title has no title field. -/
def Summary.toJson (s : Summary) : Json :=
  let title :=
    match s.title with
    | none => []
    | some title => [("title", .string title)]
  .object (title ++ [("layers", .array (Outline.toJsonAll s.layers))])

end SpecOverlay
