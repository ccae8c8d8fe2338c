import SpecOverlay.Proofs.Dimension.Reading
import SpecOverlay.Proofs.Error.Steps
import SpecOverlay.Proofs.Layer.GridLimit
import SpecOverlay.Proofs.Number.NotANumber
import SpecOverlay.Registry.BuiltIn

/-!
# Layers that can be drawn

Arguments are checked before a layer is made of them, so that nothing of it is without extent: steps,
thicknesses, limits and numbers of cells are at least one, gutters are not negative, and the parts
of a ratio are greater than zero.  This is derived for one layer type after the other, along the
checks in the order in which they are made.

The size of a label is the exception.  It is refused if it is at most zero, and what is not a number
is not at most zero.  A size becomes that by scaling only (`DimensionUnit.isNaN_toPixels_iff`): if
the factor of its unit is not a number itself, or if a zero meets an infinity.
`drawable_iff_of_built` has this as the exact condition.
-/

namespace SpecOverlay

open Single (value? NoProduct lt_of_not_le not_isNaN_of_lt)

/-- Nothing of the shape is without extent. -/
def Shape.Drawable : Shape → Prop
  | leaf (.gridLines g) => 1 ≤ g.step ∧ 1 ≤ g.thickness ∧ ∀ n ∈ g.limit, 1 ≤ n
  | leaf (.keyline k) => 1 ≤ k.thickness
  | leaf (.fill _) => True
  | leaf (.dimensionsLabel l) => 0 < l.textSize
  | leaf (.ratioKeyline k) => 1 ≤ k.thickness ∧ 0 < k.widthPart ∧ 0 < k.heightPart
  | group (.inset _) => True
  | group (.columns c) => 1 ≤ c.count ∧ 0 ≤ c.gutter

/-! ## Numbers lost by scaling -/

/-- Every factor is finite and not zero. -/
def Scale.Regular (scale : Scale) : Prop :=
  ∀ f ∈ [scale.density, scale.scaledDensity, scale.xdpi], ∃ q, value? f = some q ∧ q ≠ 0

namespace DimensionUnit

variable {u : DimensionUnit} {x : Float32} {scale : Scale}

/-- The factor of a unit. -/
def factor? (scale : Scale) : DimensionUnit → Option Float32
  | px => none
  | dp => some scale.density
  | sp => some scale.scaledDensity
  | pt => some scale.xdpi
  | inch => some scale.xdpi
  | mm => some scale.xdpi
  | percent => none
  | bare => none

/-- The factor of the unit is not a number, or of number and factor one is a zero and the other an
infinity. -/
def Loses (x : Float32) (scale : Scale) (u : DimensionUnit) : Prop :=
  ∃ f, u.factor? scale = some f ∧ (f.isNaN = true ∨ NoProduct x f)

/-- **A number is lost by the factor of its unit**, and not by what the product is divided by. -/
theorem isNaN_toPixels_iff (hx : x.isNaN ≠ true) :
    (u.toPixels x scale).isNaN = true ↔ u.Loses x scale := by
  have hfactor (f : Float32) :
      (x * f).isNaN = true ↔ ∃ f', some f = some f' ∧ (f'.isNaN = true ∨ NoProduct x f') := by
    rw [Single.isNaN_mul_iff, or_iff_right hx]
    exact ⟨fun h => ⟨f, rfl, h⟩, fun ⟨_, heq, h⟩ => Option.some.inj heq ▸ h⟩
  have hpoint : value? 72 = some 72 := by decide +kernel
  have hmillimeter : ∃ q, value? 25.4 = some q ∧ q ≠ 0 := ⟨13316915 / 2 ^ 19, by decide +kernel⟩
  obtain ⟨q, hq, hne⟩ := hmillimeter
  cases u with
  | px | percent | bare => exact iff_of_false hx fun ⟨_, h, _⟩ => nomatch h
  | dp | sp | inch => exact hfactor _
  | pt => exact (Single.isNaN_div_iff hpoint (by norm_num)).trans (hfactor _)
  | mm => exact (Single.isNaN_div_iff hq hne).trans (hfactor _)

theorem not_loses_of_regular (h : scale.Regular) (x : Float32) : ¬ u.Loses x scale := by
  rintro ⟨f, hf, hlost⟩
  obtain ⟨q, hq, hne⟩ : ∃ q, value? f = some q ∧ q ≠ 0 := by
    refine h f ?_
    cases u <;> simp only [factor?, Option.some.injEq, reduceCtorEq] at hf <;> simp [hf]
  rcases hlost with hnan | ⟨-, hinf⟩ | ⟨-, hzero⟩
  · exact Single.not_isNaN_of_value hq hnan
  · exact hinf.value?_ne hq
  · exact hne (Option.some.inj (hq.symm.trans hzero))

end DimensionUnit

/-! ## The size of a label -/

namespace DimensionsLabel

variable {args : Arguments} {l : DimensionsLabel}

/-- The text size before it is scaled: the number and the unit of its argument, twelve
scale-independent pixels without a value, and nothing if the value cannot be read. -/
def unscaledSize? (args : Arguments) : Option (Float32 × DimensionUnit) :=
  match args.text? "text-size" with
  | none => some (12, .sp)
  | some raw =>
    (Dimension.readNumber? (Text.trim raw.toList)).map fun x => (x, .of raw.toList)

/-- The text size is lost by scaling. -/
def SizeLost (args : Arguments) : Prop :=
  ∃ x u, unscaledSize? args = some (x, u) ∧ u.Loses x args.scale

theorem not_isNaN_twelve : (12 : Float32).isNaN ≠ true := by decide

/-- The size of an accepted label is a number, scaled. -/
theorem exists_unscaledSize {size : Float32}
    (h : args.exactPixels "text-size" (DimensionUnit.sp.toPixels 12 args.scale) = .ok size) :
    ∃ x u, unscaledSize? args = some (x, u) ∧ x.isNaN ≠ true ∧ size = u.toPixels x args.scale := by
  rw [Arguments.exactPixels, Arguments.pixels?] at h
  rw [unscaledSize?]
  cases hraw : args.text? "text-size" with
  | none =>
    rw [hraw] at h
    exact ⟨12, .sp, rfl, not_isNaN_twelve, (Except.ok.inj h).symm⟩
  | some raw =>
    rw [hraw] at h
    cases hpx : Dimension.readPixels args.scale "text-size" raw with
    | error e => simp [hpx, Except.map] at h
    | ok px =>
      simp only [hpx] at h
      obtain rfl : px = size := Except.ok.inj h
      obtain ⟨x, hx, rfl⟩ := Option.map_eq_some_iff.mp (Dimension.readPixels_eq_ok_iff.mp hpx)
      obtain ⟨n, -, -, hrounds⟩ := Dimension.readNumber?_eq_some_iff.mp hx
      refine ⟨x, .of raw.toList, ?_, hrounds.not_isNaN, rfl⟩
      simp only [hx, Option.map_some]

theorem textSize_of_ofArguments (h : ofArguments args = .ok l) :
    ¬ l.textSize ≤ 0 ∧
      args.exactPixels "text-size" (DimensionUnit.sp.toPixels 12 args.scale) = .ok l.textSize := by
  rw [ofArguments] at h
  obtain ⟨inPixels, -, h⟩ := exists_of_bind h
  obtain ⟨textSize, hsize, h⟩ := exists_of_bind h
  obtain ⟨hpos, h⟩ := of_unless h
  obtain ⟨color, -, h⟩ := exists_of_bind h
  obtain rfl := Except.ok.inj h
  exact ⟨hpos, hsize⟩

/-- **The size of an accepted label is greater than zero unless it is lost by scaling.** -/
theorem textSize_pos_iff (h : ofArguments args = .ok l) : 0 < l.textSize ↔ ¬ SizeLost args := by
  obtain ⟨hpos, hsize⟩ := textSize_of_ofArguments h
  obtain ⟨x, u, hunscaled, hx, heq⟩ := exists_unscaledSize hsize
  have hlost : SizeLost args ↔ l.textSize.isNaN = true := by
    rw [heq, DimensionUnit.isNaN_toPixels_iff hx]
    constructor
    · rintro ⟨x', u', hunscaled', hloses⟩
      obtain ⟨rfl, rfl⟩ := Prod.mk.inj (Option.some.inj (hunscaled.symm.trans hunscaled'))
      exact hloses
    · exact fun hloses => ⟨x, u, hunscaled, hloses⟩
  rw [hlost]
  exact ⟨not_isNaN_of_lt, fun hnan => lt_of_not_le hnan (by decide) hpos⟩

/-- The size that a label has without an argument is lost only if the factor is not a number. -/
theorem sizeLost_iff_of_default (h : args.text? "text-size" = none) :
    SizeLost args ↔ args.scale.scaledDensity.isNaN = true := by
  have hvalue : value? 12 = some 12 := by decide +kernel
  constructor
  · rintro ⟨x, u, hunscaled, f, hf, hlost⟩
    rw [unscaledSize?, h] at hunscaled
    obtain ⟨rfl, rfl⟩ := Prod.mk.inj (Option.some.inj hunscaled)
    obtain rfl := Option.some.inj hf
    rcases hlost with hnan | ⟨hzero, -⟩ | ⟨hinf, -⟩
    · exact hnan
    · exact absurd (Option.some.inj (hvalue.symm.trans hzero)) (by norm_num)
    · exact absurd hvalue hinf.value?_ne
  · intro hnan
    exact ⟨12, .sp, by rw [unscaledSize?, h], args.scale.scaledDensity, rfl, .inl hnan⟩

end DimensionsLabel

/-! ## The checks of the other layers -/

variable {args : Arguments}

theorem GridLines.drawable_of_ofArguments {g : GridLines Float32} (h : ofArguments args = .ok g) :
    (Shape.leaf (.gridLines g)).Drawable := by
  obtain ⟨⟨hstep, -⟩, hthickness⟩ := positive_of_ofArguments h
  refine ⟨hstep, hthickness, fun n hn => ?_⟩
  have hlimit := readLimit_of_ofArguments h
  rw [Option.mem_def.mp hn] at hlimit
  exact (readLimit_eq_some hlimit).1

theorem Keyline.drawable_of_ofArguments {k : Keyline Float32} (h : ofArguments args = .ok k) :
    (Shape.leaf (.keyline k)).Drawable := by
  rw [ofArguments] at h
  cases hedge : args.edge? "from" none with
  | none =>
    rw [hedge] at h
    cases h
  | some edge =>
    rw [hedge] at h
    obtain ⟨distance, -, h⟩ := exists_of_bind h
    cases distance with
    | none => cases h
    | some distance =>
      obtain ⟨thickness, -, h⟩ := exists_of_bind h
      obtain ⟨hpos, h⟩ := of_unless h
      obtain ⟨outside, -, h⟩ := exists_of_bind h
      obtain ⟨color, -, h⟩ := exists_of_bind h
      obtain rfl := Except.ok.inj h
      exact not_le.mp hpos

theorem RatioKeyline.pos_of_readRatio? {raw : List Char} {width height : Float32}
    (h : readRatio? raw = some (width, height)) : 0 < width ∧ 0 < height := by
  obtain ⟨⟨before, after⟩, -, h⟩ := Option.bind_eq_some_iff.mp h
  obtain ⟨w, -, h⟩ := Option.bind_eq_some_iff.mp h
  obtain ⟨w', -, h⟩ := Option.bind_eq_some_iff.mp h
  split at h
  case isTrue hpos =>
    obtain ⟨rfl, rfl⟩ := Prod.mk.inj (Option.some.inj h)
    exact hpos
  case isFalse => nomatch h

theorem RatioKeyline.drawable_of_ofArguments {k : RatioKeyline} (h : ofArguments args = .ok k) :
    (Shape.leaf (.ratioKeyline k)).Drawable := by
  rw [ofArguments] at h
  cases hratio : (args.text? "ratio").bind fun raw => readRatio? raw.toList with
  | none =>
    rw [hratio] at h
    cases h
  | some ratio =>
    obtain ⟨width, height⟩ := ratio
    obtain ⟨raw, -, hread⟩ := Option.bind_eq_some_iff.mp hratio
    rw [hratio] at h
    cases hedge : args.edge? "from" none with
    | none =>
      rw [hedge] at h
      cases h
    | some edge =>
      rw [hedge] at h
      obtain ⟨thickness, -, h⟩ := exists_of_bind h
      obtain ⟨hpos, h⟩ := of_unless h
      obtain ⟨color, -, h⟩ := exists_of_bind h
      obtain rfl := Except.ok.inj h
      exact ⟨not_le.mp hpos, pos_of_readRatio? hread⟩

theorem Columns.drawable_of_ofArguments {orientation : Orientation} {c : Columns}
    (h : ofArguments orientation args = .ok c) : (Shape.group (.columns c)).Drawable := by
  rw [ofArguments] at h
  obtain ⟨count, -, h⟩ := exists_of_bind h
  obtain ⟨hpos, h⟩ := of_unless h
  obtain ⟨gutter, -, h⟩ := exists_of_bind h
  obtain ⟨hnonneg, h⟩ := of_unless h
  obtain rfl := Except.ok.inj h
  have hcount : 1 ≤ count.toNat := by omega
  exact ⟨hcount, not_lt.mp hnonneg⟩

/-! ## The built-in layer types -/

variable {spec : LayerSpec} {shape : Shape}

theorem exists_of_ofLeaf {α : Type} {make : Arguments → Except Error α} {leaf : α → Leaf}
    (h : Factory.ofLeaf make leaf spec = .ok shape) :
    ∃ a, make spec.arguments = .ok a ∧ shape = .leaf (leaf a) := by
  rw [Factory.ofLeaf] at h
  cases hmake : make spec.arguments with
  | error e =>
    rw [hmake] at h
    nomatch h
  | ok a =>
    rw [hmake] at h
    exact ⟨a, rfl, (Except.ok.inj h).symm⟩

theorem exists_of_ofGroup {α : Type} {make : Arguments → Except Error α} {group : α → Group}
    (h : Factory.ofGroup make group spec = .ok shape) :
    ∃ a, make spec.arguments = .ok a ∧ shape = .group (group a) := by
  rw [Factory.ofGroup] at h
  cases hmake : make spec.arguments with
  | error e =>
    rw [hmake] at h
    nomatch h
  | ok a =>
    rw [hmake] at h
    exact ⟨a, rfl, (Except.ok.inj h).symm⟩

/-- What is built of arguments is drawable, or it is a label. -/
theorem drawable_or_label {b : BuiltIn} (hb : b ∈ BuiltIn.all) (h : b.factory spec = .ok shape) :
    (shape.Drawable ∧ ∀ l, shape ≠ .leaf (.dimensionsLabel l)) ∨
      ∃ l, DimensionsLabel.ofArguments spec.arguments = .ok l ∧
        shape = .leaf (.dimensionsLabel l) := by
  simp only [BuiltIn.all, List.mem_cons, List.not_mem_nil, or_false] at hb
  rcases hb with rfl | rfl | rfl | rfl | rfl | rfl | rfl | rfl | rfl
  · obtain ⟨g, hg, rfl⟩ := exists_of_ofLeaf h
    exact .inl ⟨GridLines.drawable_of_ofArguments hg, nofun⟩
  · obtain ⟨k, hk, rfl⟩ := exists_of_ofLeaf h
    exact .inl ⟨Keyline.drawable_of_ofArguments hk, nofun⟩
  · obtain ⟨k, hk, rfl⟩ := exists_of_ofLeaf h
    exact .inl ⟨Keyline.drawable_of_ofArguments hk, nofun⟩
  · obtain ⟨f, -, rfl⟩ := exists_of_ofLeaf h
    exact .inl ⟨trivial, nofun⟩
  · obtain ⟨i, -, rfl⟩ := exists_of_ofGroup h
    exact .inl ⟨trivial, nofun⟩
  · obtain ⟨c, hc, rfl⟩ := exists_of_ofGroup h
    exact .inl ⟨Columns.drawable_of_ofArguments hc, nofun⟩
  · obtain ⟨c, hc, rfl⟩ := exists_of_ofGroup h
    exact .inl ⟨Columns.drawable_of_ofArguments hc, nofun⟩
  · exact .inr (exists_of_ofLeaf h)
  · obtain ⟨k, hk, rfl⟩ := exists_of_ofLeaf h
    exact .inl ⟨RatioKeyline.drawable_of_ofArguments hk, nofun⟩

/-- **What a built-in factory makes is drawable**, unless it is a label whose size is lost by
scaling.  A size is not lost if every factor of the scale is finite and not zero, and without a
value it is lost only if the factor of scale-independent pixels is not a number. -/
theorem drawable_iff_of_built {b : BuiltIn} (hb : b ∈ BuiltIn.all)
    (h : b.factory spec = .ok shape) :
    (shape.Drawable ↔ ∀ l, shape = .leaf (.dimensionsLabel l) →
      ¬ DimensionsLabel.SizeLost spec.arguments) ∧
    (spec.arguments.scale.Regular → shape.Drawable) ∧
    (spec.arguments.text? "text-size" = none →
      spec.arguments.scale.scaledDensity.isNaN ≠ true → shape.Drawable) := by
  rcases drawable_or_label hb h with ⟨hdrawable, hno⟩ | ⟨l, hl, rfl⟩
  · exact ⟨iff_of_true hdrawable fun l hl => absurd hl (hno l), fun _ => hdrawable,
      fun _ _ => hdrawable⟩
  · have hiff : (Shape.leaf (.dimensionsLabel l)).Drawable ↔
        ¬ DimensionsLabel.SizeLost spec.arguments :=
      DimensionsLabel.textSize_pos_iff hl
    refine ⟨⟨fun hdrawable _ _ => hiff.mp hdrawable, fun hall => hiff.mpr (hall l rfl)⟩,
      fun hregular => hiff.mpr ?_, fun hnone hnan => hiff.mpr ?_⟩
    · rintro ⟨x, u, -, hloses⟩
      exact DimensionUnit.not_loses_of_regular hregular x hloses
    · exact fun hlost => hnan ((DimensionsLabel.sizeLost_iff_of_default hnone).mp hlost)

/-- The layer type of labels. -/
def labelType : BuiltIn :=
  ⟨DimensionsLabel.token, Factory.dimensionsLabel, false⟩

theorem labelType_mem : labelType ∈ BuiltIn.all := by
  simp [BuiltIn.all, labelType]

/-- A label without arguments, where scale-independent pixels have a factor. -/
def labelSpec (scaledDensity : Float32) : LayerSpec :=
  ⟨DimensionsLabel.token, 0, .empty ⟨1, scaledDensity, 160⟩⟩

/-- A black label with a text size. -/
def blackLabel (textSize : Float32) : Shape :=
  .leaf (.dimensionsLabel ⟨Color.black, textSize, DimensionsLabel.defaultGravity, false, 1⟩)

/-- With two pixels to the unit a label is drawable. -/
theorem drawable_of_doubled_label :
    labelType ∈ BuiltIn.all ∧ labelType.factory (labelSpec 2) = .ok (blackLabel (12 * 2)) ∧
      (blackLabel (12 * 2)).Drawable := by
  have hbuilt : labelType.factory (labelSpec 2) = .ok (blackLabel (12 * 2)) := rfl
  have hnumber : (2 : Float32).isNaN ≠ true := by decide
  exact ⟨labelType_mem, hbuilt, (drawable_iff_of_built labelType_mem hbuilt).2.2 rfl hnumber⟩

/-- With a factor that is not a number a label is made all the same, and its size is not greater than
zero. -/
theorem not_drawable_of_lost_size :
    labelType ∈ BuiltIn.all ∧
      labelType.factory (labelSpec Single.notANumber) =
        .ok (blackLabel (12 * Single.notANumber)) ∧
      (12 * Single.notANumber).isNaN = true ∧
      ¬ (blackLabel (12 * Single.notANumber)).Drawable := by
  have hnan : (12 * Single.notANumber).isNaN = true := Single.isNaN_mul_right (by decide)
  exact ⟨labelType_mem, rfl, hnan, fun h => not_isNaN_of_lt h hnan⟩

end SpecOverlay
