import SpecOverlay.Proofs.Error.Steps
import SpecOverlay.Proofs.Geometry.Axes
import SpecOverlay.Proofs.Layer.GridMultiples

/-!
# The cells of columns and rows

Columns and rows split the bounds along one axis.  In exact arithmetic the cell with index `k`
begins at `k` times the pitch, which is the extent of a cell together with a gutter
(`near_cellAt`, `far_cellAt`).  So a cell and the gutter behind it lead to the next cell, and as
many extents as there are cells, with one gutter less, add up to the extent of the bounds
(`far_last`).  This is what makes the last cell end where the bounds end.  If the gutters alone
need more room than there is, the extent is cut off at zero, and nothing but the pitch is left.

`cells_tile` states both layouts, for exact arithmetic and for single precision as long as no
operation rounds (`Unrounded`), and says that rows are transposed columns.
-/

namespace SpecOverlay

open Single (value? Exactly)

/-- The axis along which the bounds are split. -/
def Orientation.axis : Orientation → Axis
  | columns => .horizontal
  | rows => .vertical

namespace Columns

/-! ## Cells by index -/

section Index

variable {α : Type} [Add α]

theorem along_cell (o : Orientation) (bounds : Rect α) (start extent : α) :
    (cell o bounds start extent).along o.axis =
        (bounds.near o.axis + start, bounds.near o.axis + start + extent) ∧
      (cell o bounds start extent).along o.axis.other = bounds.along o.axis.other := by
  cases o <;> exact ⟨rfl, rfl⟩

variable [Sub α] [Mul α] [Div α] [IntCast α] [LT α] [LE α] [DecidableLT α] [DecidableLE α]

/-- The extent that is split. -/
def total (c : Columns) (bounds : Rect α) : α :=
  bounds.far c.orientation.axis - bounds.near c.orientation.axis

/-- The extent of the cells inside given bounds. -/
def cellExtentIn (c : Columns) (bounds : Rect α) : α :=
  c.cellExtent (c.total bounds)

/-- The cell with an index. -/
def cellAt (c : Columns) (bounds : Rect α) (k : ℕ) : Rect α :=
  cell c.orientation bounds (((k : ℤ) : α) * (c.cellExtentIn bounds + (c.gutter : α)))
    (c.cellExtentIn bounds)

theorem near_cellAt (c : Columns) (bounds : Rect α) (k : ℕ) :
    (c.cellAt bounds k).near c.orientation.axis =
      bounds.near c.orientation.axis +
        ((k : ℤ) : α) * (c.cellExtentIn bounds + (c.gutter : α)) := by
  rw [Rect.near, cellAt, (along_cell _ _ _ _).1]

theorem far_cellAt (c : Columns) (bounds : Rect α) (k : ℕ) :
    (c.cellAt bounds k).far c.orientation.axis =
      (c.cellAt bounds k).near c.orientation.axis + c.cellExtentIn bounds := by
  rw [Rect.far, Rect.near, cellAt, (along_cell _ _ _ _).1]

theorem cells_eq (c : Columns) (bounds : Rect α) :
    c.cells bounds = (List.range c.count).map (c.cellAt bounds) := by
  obtain ⟨o, count, gutter⟩ := c
  cases o <;> rfl

theorem exists_of_mem_cells {c : Columns} {bounds r : Rect α} (h : r ∈ c.cells bounds) :
    ∃ k < c.count, r = c.cellAt bounds k := by
  rw [cells_eq] at h
  obtain ⟨k, hk, rfl⟩ := List.mem_map.mp h
  exact ⟨k, List.mem_range.mp hk, rfl⟩

/-- **Rows are transposed columns.** -/
theorem cells_rows (count : ℕ) (gutter : ℤ) (bounds : Rect α) :
    (⟨.rows, count, gutter⟩ : Columns).cells bounds =
      ((⟨.columns, count, gutter⟩ : Columns).cells bounds.transpose).map Rect.transpose := by
  rw [cells_eq, cells_eq, List.map_map]
  rfl

end Index

/-! ## Tilings -/

theorem larger_eq_max {α : Type} [LinearOrder α] (a b : α) : larger a b = max a b := by
  rw [larger, if_pos le_rfl]
  split
  case isTrue h => exact (max_eq_right h.le).symm
  case isFalse h => exact (max_eq_left (not_lt.mp h)).symm

/-- A point is not in a rectangle that begins where another one has ended. -/
theorem not_contains_of_far_le {α : Type} [LinearOrder α] {r s : Rect α} {axis : Axis}
    (h : r.far axis ≤ s.near axis) (p : Point α) : ¬ (r.contains p ∧ s.contains p) := by
  simp only [Rect.contains, Bool.and_eq_true, decide_eq_true_eq]
  rintro ⟨⟨⟨-, hx⟩, -, hy⟩, ⟨hx', -⟩, hy', -⟩
  cases axis with
  | horizontal => exact absurd (hx.trans_le h) (not_lt.mpr hx')
  | vertical => exact absurd (hy.trans_le h) (not_lt.mpr hy')

section Exact

variable {α : Type} [Field α] [LinearOrder α]

/-- What all gutters need together. -/
def gaps (α : Type) [Field α] (c : Columns) : α :=
  (c.gutter : α) * ((c.count : α) - 1)

/-- Cells fill the bounds: equal extents, a gutter between neighbours, from one side to the other,
and so one after the other, with no point in two of them, inside the bounds. -/
structure Fills (c : Columns) (bounds : Rect α) (cells : List (Rect α)) : Prop where
  extent_eq : ∀ r ∈ cells, r.far c.orientation.axis - r.near c.orientation.axis =
    (c.total bounds - c.gaps α) / c.count
  next_eq : cells.IsChain fun r s =>
    s.near c.orientation.axis = r.far c.orientation.axis + (c.gutter : α)
  last_eq : ∀ r ∈ cells.getLast?, r.far c.orientation.axis = bounds.far c.orientation.axis
  ordered : cells.Pairwise fun r s => r.far c.orientation.axis ≤ s.near c.orientation.axis
  disjoint : cells.Pairwise fun r s => ∀ p, ¬ (r.contains p ∧ s.contains p)
  inside : ∀ r ∈ cells, bounds.near c.orientation.axis ≤ r.near c.orientation.axis ∧
    r.far c.orientation.axis ≤ bounds.far c.orientation.axis

/-- Cells without any extent, which begin one gutter apart. -/
structure Collapses (c : Columns) (cells : List (Rect α)) : Prop where
  extent_eq : ∀ r ∈ cells, r.far c.orientation.axis - r.near c.orientation.axis = 0
  next_eq : cells.IsChain fun r s =>
    s.near c.orientation.axis = r.near c.orientation.axis + (c.gutter : α)

/-- The cells of columns or rows: as many as are asked for, each across the whole bounds, the first
at the near side.  They fill the bounds if the gutters have room, and collapse otherwise. -/
structure Tiles (c : Columns) (bounds : Rect α) (cells : List (Rect α)) : Prop where
  length_eq : cells.length = c.count
  across : ∀ r ∈ cells, r.along c.orientation.axis.other = bounds.along c.orientation.axis.other
  first_eq : ∀ r ∈ cells.head?, r.near c.orientation.axis = bounds.near c.orientation.axis
  fills : c.gaps α ≤ c.total bounds → c.Fills bounds cells
  collapses : c.total bounds < c.gaps α → c.Collapses cells

variable {c : Columns} {bounds : Rect α}

/-- A cell begins a gutter after the end of the one before. -/
theorem isChain_cells (c : Columns) (bounds : Rect α) :
    (c.cells bounds).IsChain fun r s =>
      s.near c.orientation.axis = r.far c.orientation.axis + (c.gutter : α) := by
  rw [cells_eq, List.isChain_map, List.isChain_range]
  intro k _
  rw [far_cellAt, near_cellAt, near_cellAt]
  push_cast
  ring

/-- What is left beside the gutters, in equal parts, and zero if nothing is left. -/
theorem cellExtentIn_eq (c : Columns) (bounds : Rect α) :
    c.cellExtentIn bounds = max ((c.total bounds - c.gaps α) / c.count) 0 := by
  rw [cellExtentIn, cellExtent, larger_eq_max, gaps, Int.cast_natCast, Int.cast_one, Int.cast_zero]

theorem cellExtentIn_nonneg (c : Columns) (bounds : Rect α) : 0 ≤ c.cellExtentIn bounds := by
  rw [cellExtentIn_eq]
  exact le_max_right _ _

variable [IsStrictOrderedRing α]

theorem cellExtentIn_of_le (h : c.gaps α ≤ c.total bounds) :
    c.cellExtentIn bounds = (c.total bounds - c.gaps α) / c.count := by
  rw [cellExtentIn_eq, max_eq_left]
  exact div_nonneg (sub_nonneg.mpr h) c.count.cast_nonneg

theorem cellExtentIn_of_lt (h : c.total bounds < c.gaps α) : c.cellExtentIn bounds = 0 := by
  rw [cellExtentIn_eq, max_eq_right]
  exact div_nonpos_of_nonpos_of_nonneg (sub_nonpos.mpr h.le) c.count.cast_nonneg

/-- **Extents and gutters add up**: the last cell ends where the bounds end. -/
theorem far_last (hcount : 1 ≤ c.count) (h : c.gaps α ≤ c.total bounds) :
    (c.cellAt bounds (c.count - 1)).far c.orientation.axis = bounds.far c.orientation.axis := by
  have hne : (c.count : α) ≠ 0 := Nat.cast_ne_zero.mpr (by omega)
  rw [far_cellAt, near_cellAt, cellExtentIn_of_le h, Int.cast_natCast, Nat.cast_sub hcount,
    Nat.cast_one]
  field_simp
  rw [gaps, total]
  ring

/-- Cells are one after the other. -/
theorem far_le_near (hgutter : 0 ≤ c.gutter) {j k : ℕ} (h : j < k) :
    (c.cellAt bounds j).far c.orientation.axis ≤ (c.cellAt bounds k).near c.orientation.axis := by
  have hgutter' : (0 : α) ≤ (c.gutter : α) := by exact_mod_cast hgutter
  have hextent := c.cellExtentIn_nonneg bounds
  have hpitch : ((j : α) + 1) * (c.cellExtentIn bounds + (c.gutter : α)) ≤
      k * (c.cellExtentIn bounds + (c.gutter : α)) :=
    mul_le_mul_of_nonneg_right (by exact_mod_cast h) (add_nonneg hextent hgutter')
  rw [far_cellAt, near_cellAt, near_cellAt, Int.cast_natCast, Int.cast_natCast]
  linarith

theorem pairwise_cells (hgutter : 0 ≤ c.gutter) :
    (c.cells bounds).Pairwise fun r s =>
      r.far c.orientation.axis ≤ s.near c.orientation.axis := by
  rw [cells_eq, List.pairwise_map]
  exact List.pairwise_lt_range.imp fun h => far_le_near hgutter h

theorem fills_cells (hcount : 1 ≤ c.count) (hgutter : 0 ≤ c.gutter)
    (h : c.gaps α ≤ c.total bounds) : c.Fills bounds (c.cells bounds) where
  extent_eq r hr := by
    obtain ⟨k, -, rfl⟩ := exists_of_mem_cells hr
    rw [far_cellAt, add_sub_cancel_left, cellExtentIn_of_le h]
  next_eq := c.isChain_cells bounds
  last_eq r hr := by
    rw [cells_eq, List.getLast?_map, List.getLast?_range, if_neg (by omega)] at hr
    obtain rfl := Option.some.inj hr
    exact far_last hcount h
  ordered := pairwise_cells hgutter
  disjoint := (pairwise_cells hgutter).imp not_contains_of_far_le
  inside r hr := by
    obtain ⟨k, hk, rfl⟩ := exists_of_mem_cells hr
    have hextent := c.cellExtentIn_nonneg bounds
    refine ⟨?_, ?_⟩
    · have hgutter' : (0 : α) ≤ (c.gutter : α) := by exact_mod_cast hgutter
      rw [near_cellAt, Int.cast_natCast]
      exact le_add_of_nonneg_right (mul_nonneg k.cast_nonneg (add_nonneg hextent hgutter'))
    · rw [← far_last hcount h]
      rcases (Nat.le_sub_one_of_lt hk).eq_or_lt with rfl | hlt
      · exact le_rfl
      · refine (far_le_near hgutter hlt).trans ?_
        rw [far_cellAt]
        exact le_add_of_nonneg_right hextent

theorem collapses_cells (h : c.total bounds < c.gaps α) : c.Collapses (c.cells bounds) where
  extent_eq r hr := by
    obtain ⟨k, -, rfl⟩ := exists_of_mem_cells hr
    rw [far_cellAt, add_sub_cancel_left, cellExtentIn_of_lt h]
  next_eq := by
    rw [cells_eq, List.isChain_map, List.isChain_range]
    intro k _
    rw [near_cellAt, near_cellAt, cellExtentIn_of_lt h]
    push_cast
    ring

/-- **The cells tile the bounds**, as far as the gutters have room. -/
theorem tiles_cells (hcount : 1 ≤ c.count) (hgutter : 0 ≤ c.gutter) (bounds : Rect α) :
    c.Tiles bounds (c.cells bounds) where
  length_eq := by rw [cells_eq, List.length_map, List.length_range]
  across r hr := by
    obtain ⟨k, -, rfl⟩ := exists_of_mem_cells hr
    exact (along_cell _ _ _ _).2
  first_eq r hr := by
    rw [cells_eq, List.head?_map, List.head?_range, if_neg (by omega)] at hr
    obtain rfl := Option.some.inj hr
    rw [near_cellAt, Nat.cast_zero, Int.cast_zero, zero_mul, add_zero]
  fills := fills_cells hcount hgutter
  collapses := collapses_cells

end Exact

/-! ## Single precision -/

/-- **No operation of the split rounds**: neither the conversions, the room that the gutters leave
and its division, nor the two edges of any cell. -/
structure Unrounded (c : Columns) (bounds : Rect Float32) : Prop where
  count : value? ((c.count : ℤ) : Float32) = some ((c.count : ℤ) : ℚ)
  gutter : value? (c.gutter : Float32) = some (c.gutter : ℚ)
  index : ∀ k < c.count, value? ((k : ℤ) : Float32) = some ((k : ℤ) : ℚ)
  total : Exactly (· - ·) (· - ·) (bounds.far c.orientation.axis) (bounds.near c.orientation.axis)
  gutters : Exactly (· - ·) (· - ·) ((c.count : ℤ) : Float32) ((1 : ℤ) : Float32)
  gaps : Exactly (· * ·) (· * ·) (c.gutter : Float32)
    (((c.count : ℤ) : Float32) - ((1 : ℤ) : Float32))
  room : Exactly (· - ·) (· - ·) (c.total bounds)
    ((c.gutter : Float32) * (((c.count : ℤ) : Float32) - ((1 : ℤ) : Float32)))
  part : Exactly (· / ·) (· / ·)
    (c.total bounds - (c.gutter : Float32) * (((c.count : ℤ) : Float32) - ((1 : ℤ) : Float32)))
    ((c.count : ℤ) : Float32)
  pitch : Exactly (· + ·) (· + ·) (c.cellExtentIn bounds) (c.gutter : Float32)
  start : ∀ k < c.count, Exactly (· * ·) (· * ·) ((k : ℤ) : Float32)
    (c.cellExtentIn bounds + (c.gutter : Float32))
  near : ∀ k < c.count, Exactly (· + ·) (· + ·) (bounds.near c.orientation.axis)
    (((k : ℤ) : Float32) * (c.cellExtentIn bounds + (c.gutter : Float32)))
  far : ∀ k < c.count, Exactly (· + ·) (· + ·) ((c.cellAt bounds k).near c.orientation.axis)
    (c.cellExtentIn bounds)

section Values

variable {c : Columns} {bounds : Rect Float32} {values : Rect ℚ}

theorem value_along (hbounds : bounds.HasValues values) (axis : Axis) :
    value? (bounds.near axis) = some (values.near axis) ∧
      value? (bounds.far axis) = some (values.far axis) := by
  cases axis with
  | horizontal => exact ⟨hbounds.left, hbounds.right⟩
  | vertical => exact ⟨hbounds.top, hbounds.bottom⟩

theorem value_total (hbounds : bounds.HasValues values) (h : c.Unrounded bounds) :
    value? (c.total bounds) = some (c.total values) :=
  h.total _ (value_along hbounds _).2 _ (value_along hbounds _).1

theorem value_cellExtentIn (hbounds : bounds.HasValues values) (h : c.Unrounded bounds) :
    value? (c.cellExtentIn bounds) = some (c.cellExtentIn values) := by
  have hone : value? ((1 : ℤ) : Float32) = some ((1 : ℤ) : ℚ) := by decide +kernel
  have hzero : value? ((0 : ℤ) : Float32) = some ((0 : ℤ) : ℚ) := by decide +kernel
  have hgaps := h.gaps _ h.gutter _ (h.gutters _ h.count _ hone)
  have hroom := h.room _ (value_total hbounds h) _ hgaps
  exact Single.value_larger (h.part _ hroom _ h.count) hzero

theorem hasValues_cellAt (hbounds : bounds.HasValues values) (h : c.Unrounded bounds) {k : ℕ}
    (hk : k < c.count) : (c.cellAt bounds k).HasValues (c.cellAt values k) := by
  have hextent := value_cellExtentIn hbounds h
  have hstart := h.start k hk _ (h.index k hk) _ (h.pitch _ hextent _ h.gutter)
  have hnear : value? ((c.cellAt bounds k).near c.orientation.axis) =
      some ((c.cellAt values k).near c.orientation.axis) := by
    rw [near_cellAt, near_cellAt]
    exact h.near k hk _ (value_along hbounds _).1 _ hstart
  have hfar : value? ((c.cellAt bounds k).far c.orientation.axis) =
      some ((c.cellAt values k).far c.orientation.axis) := by
    rw [far_cellAt, far_cellAt]
    exact h.far k hk _ hnear _ hextent
  obtain ⟨hleft, htop, hright, hbottom⟩ := hbounds
  obtain ⟨o, count, gutter⟩ := c
  cases o with
  | columns => exact ⟨hnear, htop, hfar, hbottom⟩
  | rows => exact ⟨hleft, hnear, hright, hfar⟩

/-- If nothing rounds, the cells have the values of the cells in exact arithmetic. -/
theorem forall₂_cells (hbounds : bounds.HasValues values) (h : c.Unrounded bounds) :
    List.Forall₂ Rect.HasValues (c.cells bounds) (c.cells values) := by
  rw [cells_eq, cells_eq, List.forall₂_map_left_iff, List.forall₂_map_right_iff, List.forall₂_same]
  exact fun k hk => hasValues_cellAt hbounds h (List.mem_range.mp hk)

end Values

/-! ## Arguments -/

/-- Accepted arguments give at least one cell and no negative gutter. -/
theorem positive_of_ofArguments {o : Orientation} {args : Arguments} {c : Columns}
    (h : ofArguments o args = .ok c) : c.orientation = o ∧ 1 ≤ c.count ∧ 0 ≤ c.gutter := by
  obtain ⟨count, -, h⟩ := exists_of_bind h
  by_cases hcount : count ≤ 0
  · rw [if_pos hcount] at h
    cases h
  rw [if_neg hcount] at h
  obtain ⟨gutter, -, h⟩ := exists_of_bind h
  by_cases hgutter : gutter < 0
  · rw [if_pos hgutter] at h
    cases h
  rw [if_neg hgutter] at h
  obtain rfl := Except.ok.inj h
  have hpos : 1 ≤ count.toNat := by omega
  exact ⟨rfl, hpos, not_lt.mp hgutter⟩

/-- **Columns and rows tile their bounds.**  Accepted arguments give at least one cell and no
negative gutter, and then, in exact arithmetic, the cells tile the bounds.  In single precision
they have the values of cells that do, if no operation rounds.  Rows are the transposed columns of
the transposed bounds, with or without rounding. -/
theorem cells_tile :
    (∀ o args c, ofArguments o args = .ok c →
      c.orientation = o ∧ 1 ≤ c.count ∧ 0 ≤ c.gutter) ∧
    (∀ (α : Type) [Field α] [LinearOrder α] [IsStrictOrderedRing α] (c : Columns)
      (bounds : Rect α), 1 ≤ c.count → 0 ≤ c.gutter → c.Tiles bounds (c.cells bounds)) ∧
    (∀ (c : Columns) (bounds : Rect Float32) (values : Rect ℚ), 1 ≤ c.count → 0 ≤ c.gutter →
      bounds.HasValues values → c.Unrounded bounds →
      ∃ cells, List.Forall₂ Rect.HasValues (c.cells bounds) cells ∧ c.Tiles values cells) ∧
    ∀ (α : Type) [Add α] [Sub α] [Mul α] [Div α] [IntCast α] [LT α] [LE α] [DecidableLT α]
      [DecidableLE α] (count : ℕ) (gutter : ℤ) (bounds : Rect α),
      (⟨.rows, count, gutter⟩ : Columns).cells bounds =
        ((⟨.columns, count, gutter⟩ : Columns).cells bounds.transpose).map Rect.transpose := by
  refine ⟨fun _ _ _ => positive_of_ofArguments, fun _ _ _ _ _ bounds hcount hgutter =>
    tiles_cells hcount hgutter bounds, ?_, fun _ _ _ _ _ _ _ _ _ _ => cells_rows⟩
  intro c bounds values hcount hgutter hbounds h
  exact ⟨c.cells values, forall₂_cells hbounds h, tiles_cells hcount hgutter values⟩

/-- Arguments for three columns five pixels apart. -/
def threeArguments : Arguments :=
  .ofList (.ofDensity 1) [("count", .value "3"), ("gutter", .value "5px")]

/-- Three columns five pixels apart. -/
def threeColumns : Columns :=
  ⟨.columns, 3, 5⟩

/-- Inside a width of 40 they are ten wide.  Inside a width of eight the gutters have no room. -/
theorem cells_tile_of_threeColumns :
    ofArguments .columns threeArguments = .ok threeColumns ∧
      threeColumns.Tiles (⟨0, 0, 40, 10⟩ : Rect ℚ) (threeColumns.cells ⟨0, 0, 40, 10⟩) ∧
      threeColumns.cells (⟨0, 0, 40, 10⟩ : Rect ℚ) =
        [⟨0, 0, 10, 10⟩, ⟨15, 0, 25, 10⟩, ⟨30, 0, 40, 10⟩] ∧
      threeColumns.Tiles (⟨0, 0, 8, 10⟩ : Rect ℚ) (threeColumns.cells ⟨0, 0, 8, 10⟩) ∧
      threeColumns.cells (⟨0, 0, 8, 10⟩ : Rect ℚ) =
        [⟨0, 0, 0, 10⟩, ⟨5, 0, 5, 10⟩, ⟨10, 0, 10, 10⟩] ∧
      threeColumns.Unrounded ⟨0, 0, 40, 10⟩ ∧
      ∃ cells, List.Forall₂ Rect.HasValues (threeColumns.cells ⟨0, 0, 40, 10⟩) cells ∧
        threeColumns.Tiles ⟨0, 0, 40, 10⟩ cells := by
  have haccepted : ofArguments .columns threeArguments = .ok threeColumns := rfl
  obtain ⟨-, hcount, hgutter⟩ := cells_tile.1 _ _ _ haccepted
  have hbounds : (⟨0, 0, 40, 10⟩ : Rect Float32).HasValues ⟨0, 0, 40, 10⟩ :=
    ⟨by decide +kernel, by decide +kernel, by decide +kernel, by decide +kernel⟩
  have hunrounded : threeColumns.Unrounded ⟨0, 0, 40, 10⟩ :=
    ⟨by decide +kernel, by decide +kernel, by decide +kernel, by decide +kernel, by decide +kernel,
      by decide +kernel, by decide +kernel, by decide +kernel, by decide +kernel, by decide +kernel,
      by decide +kernel, by decide +kernel⟩
  exact ⟨haccepted, cells_tile.2.1 ℚ threeColumns ⟨0, 0, 40, 10⟩ hcount hgutter,
    by decide +kernel, cells_tile.2.1 ℚ threeColumns ⟨0, 0, 8, 10⟩ hcount hgutter,
    by decide +kernel, hunrounded,
    cells_tile.2.2.1 threeColumns _ _ hcount hgutter hbounds hunrounded⟩

end Columns
end SpecOverlay
