import SpecOverlay.Proofs.Geometry.Axes
import SpecOverlay.Proofs.Layer.Drawing
import SpecOverlay.Proofs.Number.Signs

/-!
# Lines from the four edges

Each edge has a formula of its own for the rectangle of a line.  `drawn_symmetric` says that the
four agree: a layer measured from the left or the right edge draws what it draws from the top or
the bottom of the transposed bounds, transposed, and from the bottom or the right edge it draws
the mirror image of what it draws from the top or the left of the mirrored bounds.

Transposition renames the coordinates and computes the same, so it is exact
(`GridLines.rects_transpose`).  A mirror image turns sums into differences.  The extent along
which distances are measured is the same number, since sums commute (`Rect.extent_mirror`), and so
both drawings have the same distances.  The edges of the lines are the same up to the sign of zero
(`Rect.same_band`, `GridLines.same_line`), because rounding treats both signs alike.
-/

namespace SpecOverlay

open Single (same_add same_sub same_add_add same_sub_sub sub_eq_add_neg add_comm neg_neg)

/-! ## Transposition -/

section Transposition

variable {α : Type} [Sub α]

theorem Rect.extent_transpose (r : Rect α) (e : Edge) :
    r.transpose.extent e.transpose = r.extent e := by
  cases e <;> rfl

variable [Add α]

theorem Rect.band_transpose (r : Rect α) (e : Edge) (near far : α) :
    (r.transpose.band e.transpose near far).transpose = r.band e near far := by
  cases e <;> rfl

theorem GridLines.line_transpose (r : Rect α) (e : Edge) (distance thickness : α) :
    (line r.transpose e.transpose distance thickness).transpose =
      line r e distance thickness := by
  cases e <;> rfl

theorem Keyline.line_transpose (r : Rect α) (e : Edge) (distance thickness : α) (outside : Bool) :
    (line r.transpose e.transpose distance thickness outside).transpose =
      line r e distance thickness outside := by
  rw [line, line]
  split <;> exact Rect.band_transpose _ _ _ _

variable [Mul α] [Div α] [IntCast α]

/-- **The lines from an edge are those from the transposed edge, transposed.** -/
theorem GridLines.rects_transpose [LT α] [DecidableLT α] (g : GridLines α) (e : Edge)
    (bounds : Rect α) :
    { g with edge := e }.rects bounds =
      ({ g with edge := e.transpose }.rects bounds.transpose).map Rect.transpose := by
  rw [rects, rects, distancesIn, distancesIn, Rect.extent_transpose, List.map_map]
  exact List.map_congr_left fun _ _ => (line_transpose _ _ _ _).symm

theorem Keyline.rect_transpose (k : Keyline α) (e : Edge) (bounds : Rect α) :
    { k with edge := e }.rect bounds =
      ({ k with edge := e.transpose }.rect bounds.transpose).transpose := by
  rw [rect, rect, line_transpose, Rect.extent_transpose]

end Transposition

/-- A ratio keyline with the two parts of its ratio exchanged. -/
def RatioKeyline.exchangeParts (k : RatioKeyline) : RatioKeyline :=
  { k with widthPart := k.heightPart, heightPart := k.widthPart }

theorem RatioKeyline.rect_transpose (k : RatioKeyline) (e : Edge) (bounds : Rect Float32) :
    { k with edge := e }.rect bounds =
      ({ k.exchangeParts with edge := e.transpose }.rect bounds.transpose).transpose := by
  have hdistance : { k with edge := e }.distance bounds =
      { k.exchangeParts with edge := e.transpose }.distance bounds.transpose := by
    rw [distance, distance]
    cases e <;> simp only [Edge.transpose, Edge.isVertical, Rect.transpose, exchangeParts,
      Rect.width, Rect.height, if_true, Bool.false_eq_true, if_false]
  rw [rect, rect, Keyline.line_transpose, hdistance]
  rfl

/-! ## Mirror images -/

/-- The edges of two rectangles are the same up to the sign of zero. -/
structure Rect.Same (r s : Rect Float32) : Prop where
  left : Single.Same r.left s.left
  top : Single.Same r.top s.top
  right : Single.Same r.right s.right
  bottom : Single.Same r.bottom s.bottom

section Mirror

variable (bounds : Rect Float32) (e : Edge)

/-- A mirror image has the same extent. -/
theorem Rect.extent_mirror : (bounds.mirror e.axis).extent e = bounds.extent e.opposite := by
  have hswap (a b : Float32) : -a - -b = b - a := by
    rw [sub_eq_add_neg, neg_neg, add_comm, ← sub_eq_add_neg]
  cases e <;> exact hswap _ _

theorem Rect.mirror_mirror (axis : Axis) : (bounds.mirror axis).mirror axis = bounds := by
  cases axis <;> simp only [mirror, neg_neg]

/-- **A band along the opposite edge is the mirror image of one along the edge.** -/
theorem Rect.same_band (near far : Float32) :
    (bounds.band e.opposite near far).Same
      (((bounds.mirror e.axis).band e near far).mirror e.axis) := by
  cases e with
  | top => exact ⟨.refl _, same_sub _ _, .refl _, same_sub _ _⟩
  | bottom => exact ⟨.refl _, same_add _ _, .refl _, same_add _ _⟩
  | left => exact ⟨same_sub _ _, .refl _, same_sub _ _, .refl _⟩
  | right => exact ⟨same_add _ _, .refl _, same_add _ _, .refl _⟩

/-- So is a grid line, although its far edge is rounded twice. -/
theorem GridLines.same_line (distance thickness : Float32) :
    (line bounds e.opposite distance thickness).Same
      ((line (bounds.mirror e.axis) e distance thickness).mirror e.axis) := by
  cases e with
  | top => exact ⟨.refl _, same_sub_sub _ _ _, .refl _, same_sub _ _⟩
  | bottom => exact ⟨.refl _, same_add _ _, .refl _, same_add_add _ _ _⟩
  | left => exact ⟨same_sub_sub _ _ _, .refl _, same_sub _ _, .refl _⟩
  | right => exact ⟨same_add _ _, .refl _, same_add_add _ _ _, .refl _⟩

theorem Keyline.same_line (distance thickness : Float32) (outside : Bool) :
    (line bounds e.opposite distance thickness outside).Same
      ((line (bounds.mirror e.axis) e distance thickness outside).mirror e.axis) := by
  rw [line, line]
  split <;> exact Rect.same_band _ _ _ _

/-- **The lines from the opposite edge are the mirror images of those from the edge.** -/
theorem GridLines.same_rects (g : GridLines Float32) :
    List.Forall₂ Rect.Same ({ g with edge := e.opposite }.rects bounds)
      (({ g with edge := e }.rects (bounds.mirror e.axis)).map (Rect.mirror e.axis)) := by
  rw [rects, rects, distancesIn, distancesIn, Rect.extent_mirror, List.map_map,
    List.forall₂_map_left_iff, List.forall₂_map_right_iff]
  exact List.forall₂_same.mpr fun _ _ => same_line _ _ _ _

theorem Keyline.same_rect (k : Keyline Float32) :
    ({ k with edge := e.opposite }.rect bounds).Same
      (({ k with edge := e }.rect (bounds.mirror e.axis)).mirror e.axis) := by
  rw [rect, rect, Rect.extent_mirror]
  exact same_line _ _ _ _ _

/-- The box of a ratio keyline spans the bounds along its edge, where a mirror image has the same
edges. -/
theorem RatioKeyline.same_rect (k : RatioKeyline) :
    ({ k with edge := e.opposite }.rect bounds).Same
      (({ k with edge := e }.rect (bounds.mirror e.axis)).mirror e.axis) := by
  have hdistance : { k with edge := e.opposite }.distance bounds =
      { k with edge := e }.distance (bounds.mirror e.axis) := by
    rw [distance, distance]
    cases e <;> simp only [Edge.opposite, Edge.isVertical, Edge.axis, Rect.mirror, Rect.width,
      Rect.height, if_true, Bool.false_eq_true, if_false]
  rw [rect, rect, hdistance]
  exact Keyline.same_line bounds e _ _ false

end Mirror

/-! ## Drawings -/

namespace Leaf

/-- A layer measured from another edge.  Only lines are measured from one. -/
def measuredFrom (e : Edge) : Leaf → Leaf
  | gridLines g => gridLines { g with edge := e }
  | keyline k => keyline { k with edge := e }
  | ratioKeyline k => ratioKeyline { k with edge := e }
  | fill f => fill f
  | dimensionsLabel l => dimensionsLabel l

/-- A layer with the parts of its ratio exchanged, if it has one. -/
def exchangeParts : Leaf → Leaf
  | ratioKeyline k => ratioKeyline k.exchangeParts
  | l => l

/-- The rectangles that are drawn inside given bounds, in order. -/
def rects (l : Leaf) (bounds : Rect Float32) : List (Rect Float32) :=
  (l.draw bounds .blank).rects

variable (bounds : Rect Float32)

theorem rects_gridLines (g : GridLines Float32) : (gridLines g).rects bounds = g.rects bounds := by
  have hrecords := Records.foldl (records_drawRect · g.color) (g.rects bounds)
  rw [← List.map_eq_flatMap] at hrecords
  have hcommands : ((gridLines g).draw bounds .blank).commands.toList =
      (g.rects bounds).map (.rect · g.color) := hrecords.recording_eq
  rw [rects, Canvas.rects, hcommands, List.filterMap_map]
  exact List.filterMap_some

/-- **The four edges are alike.**  From each edge, a layer draws what it draws from the edge of the
transposed bounds that corresponds to it, transposed, if the parts of a ratio are exchanged as
well.  From the opposite edge it draws the mirror image of what it draws from an edge of the
mirrored bounds, up to the sign of zero.  In both cases the rectangles are in the same order. -/
theorem drawn_symmetric (l : Leaf) (e : Edge) (bounds : Rect Float32) :
    (l.measuredFrom e).rects bounds =
        ((l.exchangeParts.measuredFrom e.transpose).rects bounds.transpose).map Rect.transpose ∧
      List.Forall₂ Rect.Same ((l.measuredFrom e.opposite).rects bounds)
        (((l.measuredFrom e).rects (bounds.mirror e.axis)).map (Rect.mirror e.axis)) := by
  cases l with
  | gridLines g =>
    simp only [measuredFrom, exchangeParts, rects_gridLines]
    exact ⟨g.rects_transpose e bounds, g.same_rects bounds e⟩
  | keyline k =>
    exact ⟨congrArg (List.cons · []) (k.rect_transpose e bounds), .cons (k.same_rect bounds e) .nil⟩
  | ratioKeyline k =>
    exact ⟨congrArg (List.cons · []) (k.rect_transpose e bounds), .cons (k.same_rect bounds e) .nil⟩
  | fill f =>
    refine ⟨rfl, .cons ?_ .nil⟩
    rw [Rect.mirror_mirror]
    exact ⟨.refl _, .refl _, .refl _, .refl _⟩
  | dimensionsLabel l => exact ⟨rfl, .nil⟩

end Leaf

end SpecOverlay
