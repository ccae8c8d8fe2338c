import SpecOverlay.Proofs.Layer.Drawing
import SpecOverlay.Proofs.Layer.GridProgress

/-!
# Grid lines at the multiples of the step

The loop that draws grid lines adds up steps until the far side or the limit is reached.  In
exact arithmetic the sums are multiples, so that the lines are given by a closed form: the line
with index `k` stands at the offset plus `k + 1` steps, if that is less than the extent and `k`
is below the limit (`lineAt?`, `getElem?_rects`).  The two exit conditions agree with the closed
form because the multiples increase.

In single precision the same loop runs with rounded operations.  `Unrounded` lists the operations
of a drawing and says of each that it does not round.  Then every sum has the value of the exact
one, and since numbers compare as their values do, both loops end after the same number of lines
(`forall₂_distances`).  So the rectangles that are recorded have the values of the closed form
(`draws_multiples`).
-/

namespace SpecOverlay

open Single (value? Exactly)

/-! ## Exact arithmetic -/

namespace GridLines

section Exact

variable {α : Type} [Field α]

/-- The offset in pixels, a percentage being taken of the extent. -/
def offsetIn (extent : α) : Length α → α
  | .pixels px => px
  | .percent share => share / 100 * extent

theorem resolve_eq (extent : α) (offset : Length α) :
    offset.resolve extent = offsetIn extent offset := by
  cases offset with
  | pixels px => rfl
  | percent share =>
    rw [Length.resolve, offsetIn, Int.cast_ofNat]
    ring

theorem line_eq_band (bounds : Rect α) (edge : Edge) (distance thickness : α) :
    line bounds edge distance thickness = bounds.band edge distance (distance + thickness) := by
  cases edge <;> simp only [line, Rect.band, add_assoc, sub_sub]

/-- The distance of the line with a number, counted from one. -/
def multiple (g : GridLines α) (bounds : Rect α) (k : ℕ) : α :=
  offsetIn (bounds.extent g.edge) g.offset + k * (g.step : α)

variable [LinearOrder α]

/-- The line at the multiple with an index, counted from zero, as long as it begins before the
far side and the limit is not reached. -/
def lineAt? (g : GridLines α) (bounds : Rect α) (k : ℕ) : Option (Rect α) :=
  if k < g.limit.getD unlimited ∧ g.multiple bounds (k + 1) < bounds.extent g.edge then
    some (bounds.band g.edge (g.multiple bounds (k + 1))
      (g.multiple bounds (k + 1) + (g.thickness : α)))
  else none

variable [IsStrictOrderedRing α]

/-- Sums of a positive step are its multiples. -/
theorem getElem?_distances {extent step : α} (hstep : 0 ≤ step) (n : ℕ) (d : α) (k : ℕ) :
    (distances extent step n d)[k]? =
      if k < n ∧ d + k * step < extent then some (d + k * step) else none := by
  induction n generalizing d k with
  | zero => rw [distances, List.getElem?_nil, if_neg fun h => Nat.not_lt_zero k h.1]
  | succ n ih =>
    by_cases hd : d < extent
    · rw [distances_of_lt hd]
      cases k with
      | zero =>
        rw [List.getElem?_cons_zero, Nat.cast_zero, zero_mul, add_zero, if_pos ⟨n.succ_pos, hd⟩]
      | succ k =>
        have hsum : d + step + k * step = d + (k + 1 : ℕ) * step := by
          push_cast
          ring
        rw [List.getElem?_cons_succ, ih, hsum]
        simp only [Nat.add_lt_add_iff_right]
    · have hle : d ≤ d + k * step := le_add_of_nonneg_right (by positivity)
      rw [distances_of_not_lt hd, List.getElem?_nil,
        if_neg fun h => hd (hle.trans_lt h.2)]

/-- **In exact arithmetic the lines are those at the multiples of the step.** -/
theorem getElem?_rects (g : GridLines α) (bounds : Rect α) (hstep : 1 ≤ g.step) (k : ℕ) :
    (g.rects bounds)[k]? = g.lineAt? bounds k := by
  have hnonneg : (0 : α) ≤ (g.step : α) := by exact_mod_cast (by omega : 0 ≤ g.step)
  have hmultiple : offsetIn (bounds.extent g.edge) g.offset + (g.step : α) + k * (g.step : α) =
      g.multiple bounds (k + 1) := by
    rw [multiple]
    push_cast
    ring
  rw [rects, List.getElem?_map, distancesIn, getElem?_distances hnonneg, resolve_eq, hmultiple,
    lineAt?]
  split
  · rw [Option.map_some, line_eq_band]
  · rfl

end Exact

end GridLines

/-! ## Values of placements -/

/-- The edges of a rectangle have the values that are the edges of another one. -/
structure Rect.HasValues (r : Rect Float32) (values : Rect ℚ) : Prop where
  left : value? r.left = some values.left
  top : value? r.top = some values.top
  right : value? r.right = some values.right
  bottom : value? r.bottom = some values.bottom

/-- A length has a value, in pixels or in percent. -/
inductive Length.HasValue : Length Float32 → Length ℚ → Prop where
  | pixels {px : Float32} {p : ℚ} : value? px = some p → HasValue (.pixels px) (.pixels p)
  | percent {share : Float32} {p : ℚ} :
      value? share = some p → HasValue (.percent share) (.percent p)

namespace GridLines

/-- Grid lines with another offset. -/
def withOffset {α β : Type} (g : GridLines α) (offset : Length β) : GridLines β :=
  ⟨g.edge, g.step, g.thickness, offset, g.limit, g.color⟩

/-- The difference that an extent is does not round. -/
def ExtentExact (bounds : Rect Float32) (edge : Edge) : Prop :=
  if edge.isVertical then Exactly (· - ·) (· - ·) bounds.bottom bounds.top
  else Exactly (· - ·) (· - ·) bounds.right bounds.left

/-- A percentage of an extent is taken without rounding. -/
def OffsetExact (extent : Float32) : Length Float32 → Prop
  | .pixels _ => True
  | .percent share =>
    Exactly (· * ·) (· * ·) extent share ∧
      Exactly (· / ·) (· / ·) (extent * share) ((100 : ℤ) : Float32)

/-- The edges of a line are found without rounding. -/
def LineExact (bounds : Rect Float32) (edge : Edge) (distance thickness : Float32) : Prop :=
  match edge with
  | .top =>
    Exactly (· + ·) (· + ·) bounds.top distance ∧
      Exactly (· + ·) (· + ·) (bounds.top + distance) thickness
  | .bottom =>
    Exactly (· - ·) (· - ·) bounds.bottom distance ∧
      Exactly (· - ·) (· - ·) (bounds.bottom - distance) thickness
  | .left =>
    Exactly (· + ·) (· + ·) bounds.left distance ∧
      Exactly (· + ·) (· + ·) (bounds.left + distance) thickness
  | .right =>
    Exactly (· - ·) (· - ·) bounds.right distance ∧
      Exactly (· - ·) (· - ·) (bounds.right - distance) thickness

instance (bounds : Rect Float32) (edge : Edge) : Decidable (ExtentExact bounds edge) :=
  inferInstanceAs (Decidable (if edge.isVertical then _ else _))

instance (extent : Float32) (offset : Length Float32) : Decidable (OffsetExact extent offset) :=
  match offset with
  | .pixels _ => isTrue trivial
  | .percent _ => inferInstanceAs (Decidable (_ ∧ _))

instance (bounds : Rect Float32) (edge : Edge) (distance thickness : Float32) :
    Decidable (LineExact bounds edge distance thickness) :=
  match edge with
  | .top => inferInstanceAs (Decidable (_ ∧ _))
  | .bottom => inferInstanceAs (Decidable (_ ∧ _))
  | .left => inferInstanceAs (Decidable (_ ∧ _))
  | .right => inferInstanceAs (Decidable (_ ∧ _))

/-- **No operation of the drawing rounds**: neither the extent, the offset and the conversions,
nor a sum of steps or an edge of any line that is drawn. -/
structure Unrounded (g : GridLines Float32) (bounds : Rect Float32) : Prop where
  extent : ExtentExact bounds g.edge
  offset : OffsetExact (bounds.extent g.edge) g.offset
  step : value? (g.step : Float32) = some (g.step : ℚ)
  thickness : value? (g.thickness : Float32) = some (g.thickness : ℚ)
  first : Exactly (· + ·) (· + ·) (g.offset.resolve (bounds.extent g.edge)) (g.step : Float32)
  next : ∀ d ∈ g.distancesIn bounds, Exactly (· + ·) (· + ·) d (g.step : Float32)
  line : ∀ d ∈ g.distancesIn bounds, LineExact bounds g.edge d (g.thickness : Float32)

section Values

variable {bounds : Rect Float32} {values : Rect ℚ} {edge : Edge} {extent : Float32} {e : ℚ}

theorem value_extent (hbounds : bounds.HasValues values) (h : ExtentExact bounds edge) :
    value? (bounds.extent edge) = some (values.extent edge) := by
  rw [ExtentExact] at h
  rw [Rect.extent, Rect.extent]
  split at h <;> rename_i hvertical
  · rw [if_pos hvertical, if_pos hvertical]
    exact h _ hbounds.bottom _ hbounds.top
  · rw [if_neg hvertical, if_neg hvertical]
    exact h _ hbounds.right _ hbounds.left

theorem value_resolve {offset : Length Float32} {offset' : Length ℚ}
    (hextent : value? extent = some e) (hoffset : offset.HasValue offset') (h : OffsetExact extent offset) :
    value? (offset.resolve extent) = some (offset'.resolve e) := by
  cases hoffset with
  | pixels hpx => exact hpx
  | percent hshare =>
    have hhundred : value? ((100 : ℤ) : Float32) = some ((100 : ℤ) : ℚ) := by decide +kernel
    exact h.2 _ (h.1 _ hextent _ hshare) _ hhundred

theorem hasValues_line {d t : Float32} {p q : ℚ} (hbounds : bounds.HasValues values)
    (hd : value? d = some p) (ht : value? t = some q) (h : LineExact bounds edge d t) :
    (line bounds edge d t).HasValues (line values edge p q) := by
  obtain ⟨hleft, htop, hright, hbottom⟩ := hbounds
  cases edge with
  | top =>
    have hnear := h.1 _ htop _ hd
    exact ⟨hleft, hnear, hright, h.2 _ hnear _ ht⟩
  | bottom =>
    have hnear := h.1 _ hbottom _ hd
    exact ⟨hleft, h.2 _ hnear _ ht, hright, hnear⟩
  | left =>
    have hnear := h.1 _ hleft _ hd
    exact ⟨hnear, htop, h.2 _ hnear _ ht, hbottom⟩
  | right =>
    have hnear := h.1 _ hright _ hd
    exact ⟨h.2 _ hnear _ ht, htop, hnear, hbottom⟩

/-- As long as no sum rounds, the sums of a step have the values of the exact sums, and they end
together, because values compare as the numbers do. -/
theorem forall₂_distances {step : Float32} {s : ℚ} (hextent : value? extent = some e)
    (hstep : value? step = some s) (n : ℕ) {d : Float32} {p : ℚ}
    (hd : value? d = some p)
    (hnext : ∀ x ∈ distances extent step n d, Exactly (· + ·) (· + ·) x step) :
    List.Forall₂ (fun x q => value? x = some q) (distances extent step n d)
      (distances e s n p) := by
  induction n generalizing d p with
  | zero => exact .nil
  | succ n ih =>
    have hiff := Single.lt_iff_of_value hd hextent
    by_cases hlt : d < extent
    · rw [distances_of_lt hlt] at hnext
      rw [distances_of_lt hlt, distances_of_lt (hiff.mp hlt)]
      obtain ⟨hhead, htail⟩ := List.forall_mem_cons.mp hnext
      exact .cons hd (ih (hhead _ hd _ hstep) htail)
    · rw [distances_of_not_lt hlt, distances_of_not_lt (mt hiff.mpr hlt)]
      exact .nil

end Values

/-- **If nothing rounds, the lines have the values of the lines in exact arithmetic.** -/
theorem forall₂_rects {g : GridLines Float32} {bounds : Rect Float32} {values : Rect ℚ}
    {offset : Length ℚ} (hbounds : bounds.HasValues values) (hoffset : g.offset.HasValue offset)
    (h : g.Unrounded bounds) :
    List.Forall₂ Rect.HasValues (g.rects bounds) ((g.withOffset offset).rects values) := by
  have hextent := value_extent hbounds h.extent
  have hfirst := h.first _ (value_resolve hextent hoffset h.offset) _ h.step
  have hdistances := forall₂_distances hextent h.step (g.limit.getD unlimited) hfirst h.next
  rw [rects, rects, List.forall₂_map_left_iff, List.forall₂_map_right_iff]
  refine ((List.forall₂_and_left _ _).mpr ⟨h.line, hdistances⟩).imp ?_
  rintro d p ⟨hline, hd⟩
  exact hasValues_line hbounds hd h.thickness hline

theorem rel_getElem? {α β : Type} {R : α → β → Prop} {as : List α} {bs : List β}
    (h : List.Forall₂ R as bs) (k : ℕ) : Option.Rel R as[k]? bs[k]? := by
  induction h generalizing k with
  | nil => exact .none
  | cons hab _ ih =>
    cases k with
    | zero => exact .some hab
    | succ k => exact ih k

/-- **Grid lines are the multiples of the step.**  In exact arithmetic the rectangles are the
lines at the multiples, in order.  In single precision the drawing records rectangles, and
nothing else, and if no operation rounds they have these lines as their values. -/
theorem draws_multiples :
    (∀ (α : Type) [Field α] [LinearOrder α] [IsStrictOrderedRing α] (g : GridLines α)
      (bounds : Rect α), 1 ≤ g.step → ∀ k, (g.rects bounds)[k]? = g.lineAt? bounds k) ∧
    ∀ (g : GridLines Float32) (bounds : Rect Float32) (offset : Length ℚ) (values : Rect ℚ),
      1 ≤ g.step → bounds.HasValues values → g.offset.HasValue offset → g.Unrounded bounds →
      Records ((Leaf.gridLines g).draw bounds ·) ((g.rects bounds).map (.rect · g.color)) ∧
        ∀ k, Option.Rel Rect.HasValues (g.rects bounds)[k]?
          ((g.withOffset offset).lineAt? values k) := by
  refine ⟨fun α _ _ _ => getElem?_rects, ?_⟩
  intro g bounds offset values hstep hbounds hoffset h
  have hrecords := Records.foldl (records_drawRect · g.color) (g.rects bounds)
  rw [← List.map_eq_flatMap] at hrecords
  refine ⟨hrecords, fun k => ?_⟩
  rw [← getElem?_rects (g.withOffset offset) values hstep]
  exact rel_getElem? (forall₂_rects hbounds hoffset h) k

/-- Lines ten apart from the bottom, behind an offset of half the extent. -/
def halfwayGrid (α : Type) [IntCast α] : GridLines α :=
  ⟨.bottom, 10, 2, .percent ((50 : ℤ) : α), none, defaultColor⟩

/-- Of these lines, two begin in an extent of 48: at 34 and at 44. -/
theorem draws_multiples_of_halfway :
    (∀ k, ((halfwayGrid ℚ).rects ⟨0, 8, 40, 56⟩)[k]? =
        (halfwayGrid ℚ).lineAt? ⟨0, 8, 40, 56⟩ k) ∧
      (halfwayGrid Float32).Unrounded ⟨0, 8, 40, 56⟩ ∧
      (∀ k, Option.Rel Rect.HasValues ((halfwayGrid Float32).rects ⟨0, 8, 40, 56⟩)[k]?
        ((halfwayGrid ℚ).lineAt? ⟨0, 8, 40, 56⟩ k)) ∧
      (halfwayGrid ℚ).lineAt? ⟨0, 8, 40, 56⟩ 0 = some ⟨0, 20, 40, 22⟩ ∧
      (halfwayGrid ℚ).lineAt? ⟨0, 8, 40, 56⟩ 1 = some ⟨0, 10, 40, 12⟩ ∧
      (halfwayGrid ℚ).lineAt? ⟨0, 8, 40, 56⟩ 2 = none := by
  have hunrounded : (halfwayGrid Float32).Unrounded ⟨0, 8, 40, 56⟩ :=
    ⟨by decide +kernel, by decide +kernel, by decide +kernel, by decide +kernel,
      by decide +kernel, by decide +kernel, by decide +kernel⟩
  have hbounds : (⟨0, 8, 40, 56⟩ : Rect Float32).HasValues ⟨0, 8, 40, 56⟩ :=
    ⟨by decide +kernel, by decide +kernel, by decide +kernel, by decide +kernel⟩
  have hoffset : (halfwayGrid Float32).offset.HasValue (halfwayGrid ℚ).offset :=
    .percent (by decide +kernel)
  exact ⟨draws_multiples.1 ℚ (halfwayGrid ℚ) ⟨0, 8, 40, 56⟩ (by decide), hunrounded,
    (draws_multiples.2 _ _ _ _ (by decide) hbounds hoffset hunrounded).2,
    by decide +kernel, by decide +kernel, by decide +kernel⟩

end GridLines
end SpecOverlay
