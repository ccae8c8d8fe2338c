import SpecOverlay.Proofs.Registry.History

/-!
# Shared layers and scales

Two specifications are equal if their types and their arguments are, and the scale that
their dimensions are read at does not count.  So a leaf that was made at one scale is used
again for an equal specification at another scale, where its factory would make something
else of it: `create_ne_own_scale` has grid lines with a step of 8 pixels that should be 16
pixels apart.

`create_after_creations` says what a creation gives in general, after creations at any
scales.  A type that is not shared is made of the specification itself.  A shared one is
made at the scale of the first equal specification that the factory made a leaf of
(`source`).  Only a dimension whose unit is scaled has other pixels at another scale, so a
specification without such dimensions gives what it says.

* `kept?_afterCreations`: what is kept for a key is what the factory made of the first
  specification that has it.
* `Factory.ReadsScaleFor`: a factory reads the scale for the dimensions under some keys
  only.  `readsScaleFor_of_shared` says which these are for the shared built-in types.
-/

namespace SpecOverlay

variable {args : Arguments} {key : String} {scale : Scale}

/-! ## Units that are scaled -/

/-- Units whose size in pixels depends on the scale. -/
def DimensionUnit.isScaled : DimensionUnit → Bool
  | dp | sp | pt | inch | mm => true
  | px | percent | bare => false

theorem DimensionUnit.toPixels_eq_of_not_scaled {unit : DimensionUnit}
    (h : unit.isScaled = false) (value : Float32) (scale scale' : Scale) :
    unit.toPixels value scale = unit.toPixels value scale' := by
  cases unit with
  | px | percent | bare => rfl
  | dp | sp | pt | inch | mm => exact absurd h (by simp [isScaled])

namespace Arguments

/-- The arguments with their dimensions read at another scale. -/
def atScale (args : Arguments) (scale : Scale) : Arguments :=
  { args with scale }

/-- A key has no value with a scaled unit. -/
def Unscaled (args : Arguments) (key : String) : Prop :=
  ∀ unit ∈ args.unit? key, unit.isScaled = false

instance (args : Arguments) (key : String) : Decidable (args.Unscaled key) :=
  inferInstanceAs (Decidable (∀ unit ∈ args.unit? key, unit.isScaled = false))

@[simp] theorem edge?_atScale (default : Option Edge) :
    (args.atScale scale).edge? key default = args.edge? key default := rfl

@[simp] theorem int_atScale (default : Int) :
    (args.atScale scale).int key default = args.int key default := rfl

@[simp] theorem bool_atScale (absent bare : Bool) :
    (args.atScale scale).bool key absent bare = args.bool key absent bare := rfl

@[simp] theorem color_atScale (default : Color) :
    (args.atScale scale).color key default = args.color key default := rfl

@[simp] theorem unit?_atScale : (args.atScale scale).unit? key = args.unit? key := rfl

/-- **A dimension without a scaled unit is the same at every scale.** -/
theorem pixels?_atScale (h : args.Unscaled key) (scale : Scale) :
    (args.atScale scale).pixels? key = args.pixels? key := by
  have htext : (args.atScale scale).text? key = args.text? key := rfl
  rw [pixels?, pixels?, htext]
  cases hraw : args.text? key with
  | none => rfl
  | some raw =>
    have hunit := h (DimensionUnit.of raw.toList) (by simp [unit?, hraw])
    have hread : Dimension.readPixels? (args.atScale scale).scale raw.toList =
        Dimension.readPixels? args.scale raw.toList := by
      rw [Dimension.readPixels?, Dimension.readPixels?]
      exact congrArg (Option.map · _) (funext fun value =>
        DimensionUnit.toPixels_eq_of_not_scaled hunit value _ _)
    simp only [Dimension.readPixels, hread]

theorem size_atScale (h : args.Unscaled key) (scale : Scale) (default : Int) :
    (args.atScale scale).size key default = args.size key default := by
  rw [size, size, pixels?_atScale h]

theorem length?_atScale (h : args.Unscaled key) (scale : Scale) (rounding : Rounding) :
    (args.atScale scale).length? key rounding = args.length? key rounding := by
  rw [length?, length?, pixels?_atScale h, unit?_atScale]

end Arguments

/-- The specification with its dimensions read at another scale. -/
def LayerSpec.atScale (spec : LayerSpec) (scale : Scale) : LayerSpec :=
  { spec with arguments := spec.arguments.atScale scale }

/-! ## What the factories read at a scale -/

/-- The keys of the dimensions of grid lines. -/
def GridLines.dimensionKeys : List String :=
  ["step", "thickness", "offset"]

/-- The keys of the dimensions of a keyline. -/
def Keyline.dimensionKeys : List String :=
  ["distance", "thickness"]

theorem GridLines.ofArguments_atScale (h : ∀ key ∈ dimensionKeys, args.Unscaled key)
    (scale : Scale) : ofArguments (args.atScale scale) = ofArguments args := by
  have hstep := Arguments.size_atScale (h "step" (by decide)) scale
  have hthickness := Arguments.size_atScale (h "thickness" (by decide)) scale
  have hoffset := Arguments.length?_atScale (h "offset" (by decide)) scale
  simp only [ofArguments, hstep, hthickness, hoffset, Arguments.edge?_atScale,
    Arguments.int_atScale, Arguments.color_atScale]

theorem Keyline.ofArguments_atScale (h : ∀ key ∈ dimensionKeys, args.Unscaled key)
    (scale : Scale) : ofArguments (args.atScale scale) = ofArguments args := by
  have hdistance := Arguments.length?_atScale (h "distance" (by decide)) scale
  have hthickness := Arguments.size_atScale (h "thickness" (by decide)) scale
  simp only [ofArguments, hdistance, hthickness, Arguments.edge?_atScale,
    Arguments.bool_atScale, Arguments.color_atScale]

theorem Fill.ofArguments_atScale (args : Arguments) (scale : Scale) :
    ofArguments (args.atScale scale) = ofArguments args := rfl

/-- A factory whose result depends on the scale only if one of some keys has a dimension
with a scaled unit. -/
def Factory.ReadsScaleFor (keys : List String) (f : Factory) : Prop :=
  ∀ (spec : LayerSpec) (scale : Scale), (∀ key ∈ keys, spec.arguments.Unscaled key) →
    f (spec.atScale scale) = f spec

theorem Factory.readsScaleFor_ofLeaf {α : Type} {make : Arguments → Except Error α}
    {keys : List String}
    (h : ∀ (args : Arguments) (scale : Scale), (∀ key ∈ keys, args.Unscaled key) →
      make (args.atScale scale) = make args) (leaf : α → Leaf) :
    (Factory.ofLeaf make leaf).ReadsScaleFor keys := by
  intro spec scale hkeys
  simp only [Factory.ofLeaf, LayerSpec.atScale, h spec.arguments scale hkeys]

/-- The keys of the dimensions of a shared built-in type. -/
def BuiltIn.dimensionKeys (token : String) : List String :=
  if token = GridLines.token then GridLines.dimensionKeys
  else if token = Keyline.token ∨ token = Keyline.guideToken then Keyline.dimensionKeys
  else []

namespace Registry

/-- **The shared built-in types read the scale for their dimensions only.** -/
theorem readsScaleFor_of_shared {token : String} {registration : Registration}
    (h : builtIn.registrations.get? token = some registration)
    (hshared : registration.shared = true) :
    registration.factory.ReadsScaleFor (BuiltIn.dimensionKeys token) := by
  have hall : ∀ b ∈ BuiltIn.all, b.shared = true →
      b.factory.ReadsScaleFor (BuiltIn.dimensionKeys b.token) := by
    have hgridLines : Factory.gridLines.ReadsScaleFor GridLines.dimensionKeys :=
      Factory.readsScaleFor_ofLeaf (fun _ scale hkeys =>
        GridLines.ofArguments_atScale hkeys scale) _
    have hkeyline : Factory.keyline.ReadsScaleFor Keyline.dimensionKeys :=
      Factory.readsScaleFor_ofLeaf (fun _ scale hkeys =>
        Keyline.ofArguments_atScale hkeys scale) _
    have hfill : Factory.fill.ReadsScaleFor [] :=
      Factory.readsScaleFor_ofLeaf (fun args scale _ => Fill.ofArguments_atScale args scale) _
    simp only [BuiltIn.all, List.forall_mem_cons, List.not_mem_nil, false_implies, implies_true,
      and_true, Bool.false_eq_true]
    exact ⟨fun _ => hgridLines, fun _ => hkeyline, fun _ => hkeyline, fun _ => hfill⟩
  obtain ⟨b, hb, rfl, rfl⟩ := exists_builtIn_of_get? h
  exact hall b hb hshared

/-! ## What creations keep -/

/-- The registry after creations, made in order. -/
def afterCreations (r : Registry) (specs : List LayerSpec) : Registry :=
  r.afterAll (specs.map .create)

/-- A factory makes a leaf of a specification. -/
def makesLeaf (f : Factory) (spec : LayerSpec) : Bool :=
  match f spec with
  | .ok (.leaf _) => true
  | _ => false

/-- The first specification with a key that a factory makes a leaf of. -/
def firstLeaf? (f : Factory) (specs : List LayerSpec) (key : LayerKey) : Option LayerSpec :=
  specs.find? fun spec => spec.key = key && makesLeaf f spec

/-- The specification that the leaf of a specification is made for: the first equal one
that gave a leaf, and else itself. -/
def source (f : Factory) (specs : List LayerSpec) (spec : LayerSpec) : LayerSpec :=
  (firstLeaf? f specs spec.key).getD spec

variable {r : Registry} {specs : List LayerSpec} {spec : LayerSpec} {f : Factory}
  {key : LayerKey}

theorem afterCreations_concat (r : Registry) (specs : List LayerSpec) (spec : LayerSpec) :
    r.afterCreations (specs ++ [spec]) = ((r.afterCreations specs).create spec).2 := by
  rw [afterCreations, List.map_append, List.map_singleton, afterAll_concat]
  rfl

/-- Creations change no registration. -/
theorem registrations_afterCreations (r : Registry) (specs : List LayerSpec) :
    (r.afterCreations specs).registrations = r.registrations := by
  induction specs using List.reverseRecOn with
  | nil => rfl
  | append_singleton specs spec ih => rw [afterCreations_concat, registrations_create, ih]

theorem makesLeaf_iff : makesLeaf f spec = true ↔ ∃ leaf, f spec = .ok (.leaf leaf) := by
  rw [makesLeaf]
  split
  · rename_i leaf hmade
    exact ⟨fun _ => ⟨leaf, hmade⟩, fun _ => rfl⟩
  · rename_i hnot
    exact ⟨fun h => absurd h Bool.false_ne_true, fun ⟨leaf, hmade⟩ => absurd hmade (hnot leaf)⟩

theorem firstLeaf?_concat :
    firstLeaf? f (specs ++ [spec]) key = (firstLeaf? f specs key).or
      (if spec.key = key && makesLeaf f spec then some spec else none) := by
  rw [firstLeaf?, List.find?_append, List.find?_singleton, firstLeaf?]

/-- **What is kept for a key of a shared type is what the factory made of the first
specification with this key.** -/
theorem kept?_afterCreations (hkept : r.kept = []) (key : LayerKey)
    (hget : r.registrations.get? key.kind = some ⟨f, true⟩) (specs : List LayerSpec) :
    ((r.afterCreations specs).kept? key).map (fun s => .ok (.leaf s.leaf)) =
      (firstLeaf? f specs key).map f := by
  induction specs using List.reverseRecOn with
  | nil =>
    rw [afterCreations, List.map_nil, afterAll_nil, kept?, hkept]
    rfl
  | append_singleton specs spec ih =>
    have hget' : (r.afterCreations specs).registrations.get? key.kind = some ⟨f, true⟩ := by
      rw [registrations_afterCreations, hget]
    rw [afterCreations_concat, firstLeaf?_concat]
    rcases kept?_create (r.afterCreations specs) spec key with
      ⟨hsame, hstores⟩ | ⟨g, leaf, s, rfl, hnone, hget'', hmade, hsome, hs⟩
    · rw [hsame, ih]
      cases hfirst : firstLeaf? f specs key with
      | some first => rfl
      | none =>
        rw [hfirst, Option.map_none, Option.map_eq_none_iff] at ih
        -- the new specification would be kept if it gave a leaf for the key
        have hnot : ¬ (spec.key = key && makesLeaf f spec) = true := by
          intro h
          rw [Bool.and_eq_true, decide_eq_true_eq] at h
          obtain ⟨rfl, hleaf⟩ := h
          exact hstores rfl ih f ⟨hget', makesLeaf_iff.mp hleaf⟩
        rw [if_neg hnot, Option.none_or]
    · obtain rfl : g = f :=
        (Registration.mk.inj (Option.some.inj (hget''.symm.trans hget'))).1
      rw [hnone, Option.map_none] at ih
      have hfirst : firstLeaf? g specs spec.key = none := Option.map_eq_none_iff.mp ih.symm
      rw [hsome, hfirst, if_pos (by simp [makesLeaf_iff.mpr ⟨leaf, hmade⟩]), Option.none_or,
        Option.map_some, Option.map_some, hs, hmade]

/-! ## Creation after creations -/

/-- A creation without a kept leaf that succeeds has the shape that the factory makes. -/
theorem made_of_unkept {registration : Registration} {node : Node}
    (h : (r.create spec).1 = .ok node)
    (found : r.registrations.get? spec.kind = some registration)
    (unkept : registration.shared = true → r.kept? spec.key = none) :
    registration.factory spec = .ok node.shape := by
  have hmade := create_of_unkept found unkept
  rw [h] at hmade
  cases hfactory : registration.factory spec with
  | error e => simp [hfactory, Except.map] at hmade
  | ok shape =>
    rw [hfactory] at hmade
    exact congrArg Except.ok (Except.ok.inj hmade).symm

theorem of_firstLeaf? {first : LayerSpec} (h : firstLeaf? f specs key = some first) :
    first.key = key ∧ ∃ leaf, f first = .ok (.leaf leaf) := by
  have hfound := List.find?_some h
  rw [Bool.and_eq_true, decide_eq_true_eq, makesLeaf_iff] at hfound
  exact hfound

/-- The leaf of the first equal specification is used again. -/
theorem create_of_firstLeaf? {first : LayerSpec} {leaf : Leaf} (hkept : r.kept = [])
    (hget : r.registrations.get? spec.kind = some ⟨f, true⟩)
    (hfirst : firstLeaf? f specs spec.key = some first) (hmade : f first = .ok (.leaf leaf)) :
    ∃ id, ((r.afterCreations specs).create spec).1 = .ok ⟨id, .leaf leaf⟩ := by
  have hslot := kept?_afterCreations hkept spec.key hget specs
  rw [hfirst, Option.map_some, hmade] at hslot
  obtain ⟨s, hs, hleaf⟩ := Option.map_eq_some_iff.mp hslot
  obtain rfl := Shape.leaf.inj (Except.ok.inj hleaf)
  rw [← registrations_afterCreations r specs] at hget
  exact ⟨s.id, create_of_kept hget rfl hs⟩

/-- A creation of a shared type that succeeds has the shape that the factory makes at the
scale of the source. -/
theorem made_of_shared {node : Node} (hkept : r.kept = []) (hr : r.IgnoresIndent)
    (hget : r.registrations.get? spec.kind = some ⟨f, true⟩)
    (h : ((r.afterCreations specs).create spec).1 = .ok node) :
    f (spec.atScale (source f specs spec).arguments.scale) = .ok node.shape := by
  cases hfirst : firstLeaf? f specs spec.key with
  | none =>
    have hslot := kept?_afterCreations hkept spec.key hget specs
    rw [hfirst, Option.map_none, Option.map_eq_none_iff] at hslot
    rw [source, hfirst]
    rw [← registrations_afterCreations r specs] at hget
    exact made_of_unkept h hget fun _ => hslot
  | some first =>
    obtain ⟨hkey, leaf, hmade⟩ := of_firstLeaf? hfirst
    obtain ⟨id, hcreate⟩ := create_of_firstLeaf? hkept hget hfirst hmade
    rw [source, hfirst, Option.getD_some, ← Except.ok.inj (hcreate.symm.trans h), ← hmade]
    exact hr spec.kind _ hget _ _ hkey.symm rfl

/-- **What a creation gives after creations at any scales.**  A type that is not shared is
made of the specification.  A shared one is made of its arguments at the scale of the first
equal specification that gave a leaf, so it is made of the specification too if its
dimensions have no scaled units. -/
theorem create_after_creations {node : Node}
    (h : ((builtIn.afterCreations specs).create spec).1 = .ok node) :
    ∃ registration, builtIn.find spec.kind = .ok registration ∧
      (registration.shared = false → registration.factory spec = .ok node.shape) ∧
      (registration.shared = true →
        registration.factory
            (spec.atScale (source registration.factory specs spec).arguments.scale) =
          .ok node.shape) ∧
      (registration.shared = true →
        (∀ key ∈ BuiltIn.dimensionKeys spec.kind, spec.arguments.Unscaled key) →
        registration.factory spec = .ok node.shape) := by
  cases hget : builtIn.registrations.get? spec.kind with
  | none =>
    have hmissing : (builtIn.afterCreations specs).registrations.get? spec.kind = none := by
      rw [registrations_afterCreations, hget]
    rw [create, find, hmissing] at h
    exact absurd h (by simp)
  | some registration =>
    obtain ⟨f, shared⟩ := registration
    refine ⟨⟨f, shared⟩, by rw [find, hget], ?_, ?_, ?_⟩
    · rintro rfl
      refine made_of_unkept h ?_ fun hshared => absurd hshared (by simp)
      rw [registrations_afterCreations, hget]
    · rintro rfl
      exact made_of_shared rfl ignoresIndent_builtIn hget h
    · rintro rfl hkeys
      rw [← readsScaleFor_of_shared hget rfl spec (source f specs spec).arguments.scale hkeys]
      exact made_of_shared rfl ignoresIndent_builtIn hget h

/-- Grid lines from the top, with a step. -/
def gridAt (density : Float32) (step : String) : LayerSpec :=
  ⟨GridLines.token, 0,
    .ofList (.ofDensity density) [("from", .value "top"), ("step", .value step)]⟩

/-- What grid lines from the top with a step of so many pixels are. -/
def gridOf (step : Int) : GridLines Float32 :=
  ⟨.top, step, 1, .pixels 0, none, GridLines.defaultColor⟩

theorem key_gridAt (density density' : Float32) (step : String) :
    (gridAt density step).key = (gridAt density' step).key := rfl

section
variable {density : Float32} {step : String} {g : GridLines Float32}

theorem firstLeaf?_gridAt
    (hmade : Factory.gridLines (gridAt density step) = .ok (.leaf (.gridLines g)))
    (density' : Float32) :
    firstLeaf? Factory.gridLines [gridAt density step] (gridAt density' step).key =
      some (gridAt density step) := by
  rw [firstLeaf?, List.find?_cons_of_pos]
  rw [Bool.and_eq_true, decide_eq_true_eq]
  exact ⟨key_gridAt density density' step, makesLeaf_iff.mpr ⟨_, hmade⟩⟩

/-- Grid lines at one density are used again at another. -/
theorem create_gridAt
    (hmade : Factory.gridLines (gridAt density step) = .ok (.leaf (.gridLines g)))
    (density' : Float32) :
    ∃ id, ((builtIn.afterCreations [gridAt density step]).create (gridAt density' step)).1 =
      .ok ⟨id, .leaf (.gridLines g)⟩ :=
  create_of_firstLeaf? rfl rfl (firstLeaf?_gridAt hmade density') hmade

end

theorem create_after_creation_of_grid :
    (∃ node, ((builtIn.afterCreations [gridAt 1 "8dp"]).create (gridAt 2 "8dp")).1 = .ok node ∧
      Factory.gridLines ((gridAt 2 "8dp").atScale (gridAt 1 "8dp").arguments.scale) =
        .ok node.shape) ∧
    ∃ node, ((builtIn.afterCreations [gridAt 1 "8px"]).create (gridAt 2 "8px")).1 = .ok node ∧
      Factory.gridLines (gridAt 2 "8px") = .ok node.shape := by
  have hfind : builtIn.find GridLines.token = .ok ⟨Factory.gridLines, true⟩ := rfl
  constructor
  · have hmade : Factory.gridLines (gridAt 1 "8dp") = .ok (.leaf (.gridLines (gridOf 8))) := rfl
    obtain ⟨id, hcreate⟩ := create_gridAt hmade 2
    obtain ⟨registration, hregistration, -, hsource, -⟩ := create_after_creations hcreate
    obtain rfl := Except.ok.inj (hregistration.symm.trans hfind)
    have hfirst : source Factory.gridLines [gridAt 1 "8dp"] (gridAt 2 "8dp") = gridAt 1 "8dp" := by
      rw [source, firstLeaf?_gridAt hmade 2, Option.getD_some]
    dsimp only at hsource
    rw [hfirst] at hsource
    exact ⟨_, hcreate, hsource rfl⟩
  · have hmade : Factory.gridLines (gridAt 1 "8px") = .ok (.leaf (.gridLines (gridOf 8))) := rfl
    obtain ⟨id, hcreate⟩ := create_gridAt hmade 2
    obtain ⟨registration, hregistration, -, -, hown⟩ := create_after_creations hcreate
    obtain rfl := Except.ok.inj (hregistration.symm.trans hfind)
    exact ⟨_, hcreate, hown rfl (by decide)⟩

/-- **A creation need not give what the factory makes at the own scale.**  The grid lines
that are made for a density of 1 are used again for equal ones at a density of 2, whose
step has twice as many pixels. -/
theorem create_ne_own_scale :
    gridAt 1 "8dp" == gridAt 2 "8dp" ∧
      ∃ registration made own,
        builtIn.find (gridAt 2 "8dp").kind = .ok registration ∧
        ((builtIn.afterCreations [gridAt 1 "8dp"]).create (gridAt 2 "8dp")).1.map Node.shape =
          .ok (.leaf (.gridLines made)) ∧
        registration.factory (gridAt 2 "8dp") = .ok (.leaf (.gridLines own)) ∧
        made.step = 8 ∧ own.step = 16 := by
  have hmade : Factory.gridLines (gridAt 1 "8dp") = .ok (.leaf (.gridLines (gridOf 8))) := rfl
  obtain ⟨id, hcreate⟩ := create_gridAt hmade 2
  refine ⟨decide_eq_true (key_gridAt 1 2 "8dp"), ⟨Factory.gridLines, true⟩, gridOf 8, gridOf 16,
    rfl, ?_, rfl, rfl, rfl⟩
  rw [hcreate]
  rfl

end Registry
end SpecOverlay
