import SpecOverlay.Proofs.Dimension.Reading
import SpecOverlay.Proofs.Error.Steps
import SpecOverlay.Proofs.Gravity.Reading
import SpecOverlay.Proofs.Layer.GridMultiples

/-!
# The placement of insets

An inset places each axis on its own.  `AxisInset.Places` says where the inner interval lies:
between the margins if no extent is given, and otherwise with exactly that extent, at the side or
in the middle that gravity asks for.  The lengths are read in single precision, and the placement
is stated for whatever exact numbers they stand for (`Inset.map`).

What gravity is used is decided by the arguments alone (`gravity_along`): what the words of the
gravity argument name for the axis, if all of them are known, and otherwise what the margins ask
for.  Since reading a gravity and placing an interval treat both axes alike, arguments with all
axes exchanged give the transposed inset (`ofArguments_exchanged`).

`inner_placed` puts this together for every inset that is built from arguments.
-/

namespace SpecOverlay

open GridLines (offsetIn)

/-! ## Axes of an inset -/

namespace Axis

/-- The argument for the margin at the near side. -/
def nearKey : Axis → String
  | horizontal => "left"
  | vertical => "top"

/-- The argument for the margin at the far side. -/
def farKey : Axis → String
  | horizontal => "right"
  | vertical => "bottom"

/-- The argument for the extent. -/
def extentKey : Axis → String
  | horizontal => "width"
  | vertical => "height"

end Axis

/-- A length with other numbers. -/
def Length.map {α β : Type} (f : α → β) : Length α → Length β
  | pixels px => pixels (f px)
  | percent share => percent (f share)

/-- The margins and the extent of an axis with other numbers. -/
def AxisInset.map {α β : Type} (f : α → β) (a : AxisInset α) : AxisInset β :=
  ⟨a.near.map (Length.map f), a.far.map (Length.map f), a.extent.map (Length.map f)⟩

namespace Inset

variable {α β : Type}

/-- An inset with other numbers. -/
def map (f : α → β) (i : Inset α) : Inset β :=
  ⟨i.horizontal.map f, i.vertical.map f, i.gravity, i.clips⟩

/-- The margins and the extent along an axis. -/
def along (i : Inset α) : Axis → AxisInset α
  | .horizontal => i.horizontal
  | .vertical => i.vertical

/-- The inset with its axes exchanged. -/
def transpose (i : Inset α) : Inset α :=
  ⟨i.vertical, i.horizontal, i.gravity.transpose, i.clips⟩

@[simp] theorem along_map (f : α → β) (i : Inset α) (axis : Axis) :
    (i.map f).along axis = (i.along axis).map f := by
  cases axis <;> rfl

@[simp] theorem along_transpose (i : Inset α) (axis : Axis) :
    i.transpose.along axis = i.along axis.other := by
  cases axis <;> rfl

variable [Add α] [Sub α] [Mul α] [Div α] [IntCast α]

/-- Each axis is placed on its own. -/
theorem along_inner (i : Inset α) (bounds : Rect α) (axis : Axis) :
    (i.inner bounds).along axis =
      (i.along axis).place (bounds.near axis) (bounds.far axis) (i.gravity.along axis) := by
  cases axis <;> rfl

/-- **Both axes are placed alike.** -/
theorem inner_transpose (i : Inset α) (bounds : Rect α) :
    i.transpose.inner bounds.transpose = (i.inner bounds).transpose := rfl

end Inset

/-! ## Placement -/

namespace AxisInset

variable {α : Type} [Field α]

/-- A margin in pixels, a percentage being taken of the extent, and zero if it is not given. -/
def marginIn (extent : α) : Option (Length α) → α
  | none => 0
  | some length => offsetIn extent length

/-- Where an inner interval lies.  Without an extent it lies between the margins.  With one it has
that extent, and it begins behind the near margin, ends before the far margin, or has the middle
between them as its middle. -/
structure Places (a : AxisInset α) (start finish : α) (gravity : AxisGravity) (inner : α × α) :
    Prop where
  between : a.extent = none →
    inner = (start + marginIn (finish - start) a.near, finish - marginIn (finish - start) a.far)
  extent_eq : ∀ extent ∈ a.extent, inner.2 - inner.1 = offsetIn (finish - start) extent
  near_eq : gravity = .start ∨ gravity = .fill →
    inner.1 = start + marginIn (finish - start) a.near
  far_eq : gravity = .finish → inner.2 = finish - marginIn (finish - start) a.far
  center_eq : gravity = .center → (inner.1 + inner.2) / 2 =
    (start + marginIn (finish - start) a.near + (finish - marginIn (finish - start) a.far)) / 2

theorem margin_eq (extent : α) (length : Option (Length α)) :
    margin extent length = marginIn extent length := by
  cases length with
  | none => exact Int.cast_zero
  | some length => exact GridLines.resolve_eq extent length

/-- **Every axis is placed as its lengths and its gravity say.** -/
theorem places_place [CharZero α] (a : AxisInset α) (start finish : α) (gravity : AxisGravity) :
    a.Places start finish gravity (a.place start finish gravity) := by
  obtain ⟨near, far, extent⟩ := a
  cases extent with
  | none =>
    rw [place, margin_eq, margin_eq]
    exact ⟨fun _ => rfl, fun _ h => absurd h (Option.not_mem_none _), fun _ => rfl, fun _ => rfl,
      fun _ => rfl⟩
  | some length =>
    -- the extent is the difference of the two ends, and only one end, or the middle, is asked for
    have hextent (inner : α × α)
        (h : inner.2 - inner.1 = offsetIn (finish - start) length) :
        ∀ extent ∈ some length, inner.2 - inner.1 = offsetIn (finish - start) extent := by
      rintro extent ⟨⟩
      exact h
    simp only [place, margin_eq, GridLines.resolve_eq, Int.cast_ofNat]
    cases gravity with
    | start => exact ⟨nofun, hextent _ (add_sub_cancel_left _ _), fun _ => rfl, nofun, nofun⟩
    | fill => exact ⟨nofun, hextent _ (add_sub_cancel_left _ _), fun _ => rfl, nofun, nofun⟩
    | finish => exact ⟨nofun, hextent _ (sub_sub_cancel _ _), nofun, fun _ => rfl, nofun⟩
    | center =>
      refine ⟨nofun, hextent _ ?_, nofun, nofun, fun _ => ?_⟩
      · ring
      · ring

end AxisInset

/-! ## Arguments -/

namespace Arguments

variable {args args' : Arguments} {key key' : String} {rounding : Rounding}
  {length : Option (Length Float32)}

theorem scale_ofList (scale : Scale) (entries : List (String × Argument)) :
    (ofList scale entries).scale = scale := by
  induction entries using List.reverseRecOn with
  | nil => rfl
  | append_singleton entries e ih =>
    rw [ofList, List.foldl_append]
    exact ih

end Arguments

namespace Inset

variable {args args' : Arguments} {i : Inset Float32}

/-- **An inset is built** from the lengths of both axes, a gravity, and a truth value, if all of
them can be read. -/
theorem ofArguments_eq_ok_iff :
    ofArguments args = .ok i ↔
      (∀ axis : Axis, args.length? axis.nearKey .offset = .ok (i.along axis).near ∧
        args.length? axis.farKey .offset = .ok (i.along axis).far ∧
        args.length? axis.extentKey .size = .ok (i.along axis).extent) ∧
      i.gravity = args.gravity "gravity" ⟨i.horizontal.impliedGravity, i.vertical.impliedGravity⟩ ∧
      args.bool "no-clip" false true = .ok (!i.clips) := by
  constructor
  · intro h
    obtain ⟨left, hleft, h⟩ := exists_of_bind h
    obtain ⟨right, hright, h⟩ := exists_of_bind h
    obtain ⟨width, hwidth, h⟩ := exists_of_bind h
    obtain ⟨top, htop, h⟩ := exists_of_bind h
    obtain ⟨bottom, hbottom, h⟩ := exists_of_bind h
    obtain ⟨height, hheight, h⟩ := exists_of_bind h
    obtain ⟨unclipped, hunclipped, h⟩ := exists_of_bind h
    obtain rfl := Except.ok.inj h
    refine ⟨fun axis => ?_, rfl, ?_⟩
    · cases axis with
      | horizontal => exact ⟨hleft, hright, hwidth⟩
      | vertical => exact ⟨htop, hbottom, hheight⟩
    · rw [hunclipped, Bool.not_not]
  · rintro ⟨hlengths, hgravity, hclips⟩
    obtain ⟨⟨left, right, width⟩, ⟨top, bottom, height⟩, gravity, clips⟩ := i
    obtain ⟨hleft, hright, hwidth⟩ : args.length? "left" .offset = .ok left ∧
      args.length? "right" .offset = .ok right ∧ args.length? "width" .size = .ok width :=
      hlengths .horizontal
    obtain ⟨htop, hbottom, hheight⟩ : args.length? "top" .offset = .ok top ∧
      args.length? "bottom" .offset = .ok bottom ∧ args.length? "height" .size = .ok height :=
      hlengths .vertical
    have hunclipped : args.bool "no-clip" false true = .ok (!clips) := hclips
    obtain rfl : gravity = args.gravity "gravity"
      ⟨AxisInset.impliedGravity ⟨left, right, width⟩,
        AxisInset.impliedGravity ⟨top, bottom, height⟩⟩ := hgravity
    rw [ofArguments, hleft, hright, hwidth, htop, hbottom, hheight, hunclipped]
    simp only [bind, Except.bind, pure, Except.pure, Bool.not_not]

/-! ## Gravity -/

/-- What the gravity argument names for an axis, if it has a value and knows all words of it. -/
def gravityNamed (args : Arguments) (axis : Axis) : Option AxisGravity :=
  (args.text? "gravity").bind fun raw =>
    if ∀ w ∈ Gravity.words raw, w ∈ Gravity.knownWords then
      Gravity.named axis (Gravity.words raw)
    else none

theorem gravity_along (args : Arguments) (base : Gravity) (axis : Axis) :
    (args.gravity "gravity" base).along axis = (gravityNamed args axis).getD (base.along axis) := by
  rw [Arguments.gravity, gravityNamed]
  cases args.text? "gravity" with
  | none => rfl
  | some raw =>
    rw [Option.bind_some, Option.bind_some]
    cases hread : Gravity.read? base raw.toList with
    | none =>
      obtain ⟨w, hw, hunknown⟩ := Gravity.read?_eq_none_iff.mp hread
      rw [if_neg fun hknown => hunknown (hknown w hw)]
      rfl
    | some g =>
      rw [if_pos (Gravity.read?_eq_some_iff.mp hread).1]
      exact Gravity.along_of_read? hread axis

/-- The gravity that the margins ask for. -/
theorem impliedGravity_eq {axis : Axis} {a : AxisInset Float32}
    (hnear : args.length? axis.nearKey .offset = .ok a.near)
    (hfar : args.length? axis.farKey .offset = .ok a.far) :
    a.impliedGravity =
      if args.text? axis.nearKey = none ∧ args.text? axis.farKey ≠ none then .finish
      else .start := by
  have hiff : (a.near.isNone && a.far.isSome) = true ↔
      args.text? axis.nearKey = none ∧ args.text? axis.farKey ≠ none := by
    rw [Bool.and_eq_true, ← Option.not_isSome, Arguments.isSome_of_length? hnear,
      Arguments.isSome_of_length? hfar, Option.not_isSome, Option.isNone_iff_eq_none,
      Option.isSome_iff_ne_none]
  rw [AxisInset.impliedGravity, if_congr hiff rfl rfl]

/-! ## Exchanged axes -/

/-- Arguments that say of each axis what other arguments say of the other one. -/
structure Exchanges (args args' : Arguments) : Prop where
  scale : args'.scale = args.scale
  near : ∀ axis : Axis, args'.text? axis.nearKey = args.text? axis.other.nearKey
  far : ∀ axis : Axis, args'.text? axis.farKey = args.text? axis.other.farKey
  extent : ∀ axis : Axis, args'.text? axis.extentKey = args.text? axis.other.extentKey
  gravity : (args'.text? "gravity").map Gravity.words =
    (args.text? "gravity").map fun raw => (Gravity.words raw).map Gravity.transposeWord
  noClip : args'.get? "no-clip" = args.get? "no-clip"

theorem gravity_exchanged (h : Exchanges args args') (base : Gravity) :
    args'.gravity "gravity" base.transpose = (args.gravity "gravity" base).transpose := by
  have hgravity := h.gravity
  rw [Arguments.gravity, Arguments.gravity]
  cases htext : args.text? "gravity" with
  | none =>
    rw [htext, Option.map_none, Option.map_eq_none_iff] at hgravity
    rw [hgravity]
    rfl
  | some raw =>
    rw [htext, Option.map_some] at hgravity
    obtain ⟨raw', htext', hwords⟩ := Option.map_eq_some_iff.mp hgravity
    rw [htext', Option.bind_some, Option.bind_some, Gravity.read?_transposed hwords,
      Option.getD_map]

/-- **Arguments with the axes exchanged** build the inset with its axes exchanged. -/
theorem ofArguments_exchanged (h : ofArguments args = .ok i) (hexchanged : Exchanges args args') :
    ofArguments args' = .ok i.transpose := by
  obtain ⟨hlengths, hgravity, hclips⟩ := ofArguments_eq_ok_iff.mp h
  refine ofArguments_eq_ok_iff.mpr ⟨fun axis => ?_, ?_, ?_⟩
  · obtain ⟨hnear, hfar, hextent⟩ := hlengths axis.other
    rw [along_transpose]
    exact ⟨Arguments.length?_congr hexchanged.scale (hexchanged.near axis) hnear,
      Arguments.length?_congr hexchanged.scale (hexchanged.far axis) hfar,
      Arguments.length?_congr hexchanged.scale (hexchanged.extent axis) hextent⟩
  · exact (congrArg Gravity.transpose hgravity).trans (gravity_exchanged hexchanged _).symm
  · rw [Arguments.bool, hexchanged.noClip]
    exact hclips

/-! ## Insets from arguments -/

/-- **An inset keeps its margins and its explicit extents.**  For every inset that is built from
arguments:

* The margins and the extent of each axis are those of the arguments.
* The gravity of an axis is what the gravity argument names for it, and otherwise it follows the
  margins.
* For all bounds the inner interval of each axis lies as these lengths and this gravity say.
* Arguments with the axes exchanged transpose the inner bounds. -/
theorem inner_placed (h : ofArguments args = .ok i) :
    (∀ axis : Axis, args.length? axis.nearKey .offset = .ok (i.along axis).near ∧
      args.length? axis.farKey .offset = .ok (i.along axis).far ∧
      args.length? axis.extentKey .size = .ok (i.along axis).extent) ∧
    (∀ axis, i.gravity.along axis = (gravityNamed args axis).getD
      (if args.text? axis.nearKey = none ∧ args.text? axis.farKey ≠ none then .finish
        else .start)) ∧
    (∀ (α : Type) [Field α] [CharZero α] (f : Float32 → α) (bounds : Rect α) (axis : Axis),
      ((i.along axis).map f).Places (bounds.near axis) (bounds.far axis) (i.gravity.along axis)
        (((i.map f).inner bounds).along axis)) ∧
    ∀ args', Exchanges args args' → ∃ i', ofArguments args' = .ok i' ∧
      ∀ (α : Type) [Add α] [Sub α] [Mul α] [Div α] [IntCast α] (f : Float32 → α)
        (bounds : Rect α),
        (i'.map f).inner bounds.transpose = ((i.map f).inner bounds).transpose := by
  obtain ⟨hlengths, hgravity, -⟩ := ofArguments_eq_ok_iff.mp h
  refine ⟨hlengths, fun axis => ?_, fun α _ _ f bounds axis => ?_, fun args' hexchanged => ?_⟩
  · obtain ⟨hnear, hfar, -⟩ := hlengths axis
    rw [hgravity, gravity_along, ← impliedGravity_eq hnear hfar]
    cases axis <;> rfl
  · rw [along_inner, along_map]
    exact AxisInset.places_place _ _ _ _
  · exact ⟨i.transpose, ofArguments_exchanged h hexchanged,
      fun _ _ _ _ _ _ f bounds => inner_transpose (i.map f) bounds⟩

/-- Arguments for half of the width, in the middle, and for ten pixels of the height. -/
def middleArguments : Arguments :=
  .ofList (.ofDensity 2) [("left", .value "8dp"), ("width", .value "50%"),
    ("bottom", .value "1dp"), ("height", .value "10px"), ("gravity", .value " center_horizontal")]

/-- The same with the axes exchanged. -/
def exchangedArguments : Arguments :=
  .ofList (.ofDensity 2) [("top", .value "8dp"), ("height", .value "50%"),
    ("right", .value "1dp"), ("width", .value "10px"), ("gravity", .value "center_vertical")]

/-- Of a width of 100 the half lies in the middle between 16 and 100.  Nothing is named for the
other axis, where only the far margin is given, so the ten pixels keep to that margin. -/
theorem inner_placed_of_middle :
    ∃ i, ofArguments middleArguments = .ok i ∧ i.gravity = ⟨.center, .finish⟩ ∧
      ((i.along .horizontal).map fun x => (Single.value? x).getD 0).Places 0 100 .center
        (33, 83) ∧
      ((i.along .vertical).map fun x => (Single.value? x).getD 0).Places 0 200 .finish
        (188, 198) ∧
      ∃ i', ofArguments exchangedArguments = .ok i' ∧
        (i'.map fun x => (Single.value? x).getD 0).inner ⟨0, 0, 200, 100⟩ = ⟨188, 33, 198, 83⟩ := by
  let i : Inset Float32 := ⟨⟨some (.pixels 16), none, some (.percent 50)⟩,
    ⟨none, some (.pixels 2), some (.pixels 10)⟩, ⟨.center, .finish⟩, true⟩
  let bounds : Rect ℚ := ⟨0, 0, 100, 200⟩
  have h : ofArguments middleArguments = .ok i := rfl
  have hexchanges : Exchanges middleArguments exchangedArguments :=
    ⟨(Arguments.scale_ofList _ _).trans (Arguments.scale_ofList _ _).symm,
      by rintro (_ | _) <;> decide +kernel, by rintro (_ | _) <;> decide +kernel,
      by rintro (_ | _) <;> decide +kernel, by decide +kernel, by decide +kernel⟩
  have hinner : (i.map fun x => (Single.value? x).getD 0).inner bounds = ⟨33, 188, 83, 198⟩ := by
    decide +kernel
  obtain ⟨-, -, hplaces, hexchanged⟩ := inner_placed h
  have hhorizontal := hplaces ℚ (fun x => (Single.value? x).getD 0) bounds .horizontal
  have hvertical := hplaces ℚ (fun x => (Single.value? x).getD 0) bounds .vertical
  rw [hinner] at hhorizontal hvertical
  obtain ⟨i', hi', htransposed⟩ := hexchanged _ hexchanges
  refine ⟨i, h, rfl, hhorizontal, hvertical, i', hi', ?_⟩
  exact (htransposed ℚ (fun x => (Single.value? x).getD 0) bounds).trans
    (congrArg Rect.transpose hinner)

end Inset

end SpecOverlay
