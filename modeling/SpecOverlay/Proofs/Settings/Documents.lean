import SpecOverlay.Proofs.Toml.Laws
import SpecOverlay.Settings

/-!
# Settings in a document

Loading asks a document for five values.  It takes each as it is given, and the default for one that
is not given (`Takes`).  For the default it does not matter whether a section is missing or only a
key in it, although the two sections have their defaults in different ways: a missing section stands
for the default section, whose parts are the defaults of the keys (`readScale?_iff`,
`readSurface?_iff`).

So a text whose sections are tables gives exactly the settings that its document says (`load_iff`),
however it is written and by whatever lawful codec it is read.
-/

namespace SpecOverlay
namespace Settings

open Toml (IsSingle IsWord)

variable {c : Toml.Codec} {α : Type} {read? : Toml.Value → Option α}
  {means : Toml.Value → α → Prop} {key : String} {default x : α}
  {fields : List (String × Toml.Value)} {scale : Scale} {surface : Surface} {path text : String}

/-! ## Fields -/

/-- What is taken for a value that may be given. -/
def Takes (means : Toml.Value → α → Prop) (given : Option Toml.Value) (default x : α) : Prop :=
  match given with
  | none => x = default
  | some v => means v x

theorem readField?_iff (hc : c.Lawful) (h : ∀ v, read? v = some x ↔ means v x) :
    readField? c read? key default fields = some x ↔
      Takes means (fields.lookup key) default x := by
  rw [readField?]
  cases fields.lookup key with
  | none =>
    rw [hc.optional_none]
    exact Option.some_inj.trans eq_comm
  | some v =>
    rw [hc.optional_some]
    exact h v

/-! ## Tables -/

/-- A table is read as a scale if its factors are taken. -/
theorem readScale?_table (hc : c.Lawful) : readScale? c (.table fields) = some scale ↔
    Takes IsSingle (fields.lookup "density") Scale.standard.density scale.density ∧
    Takes IsSingle (fields.lookup "scaled_density") Scale.standard.scaledDensity
      scale.scaledDensity ∧
    Takes IsSingle (fields.lookup "xdpi") Scale.standard.xdpi scale.xdpi := by
  have hsingle (x : Float32) (v : Toml.Value) := hc.single_iff v x
  simp only [← readField?_iff hc (hsingle _), readScale?, hc.fields_table, Option.bind_eq_bind,
    Option.bind_some]
  constructor
  · intro h
    obtain ⟨density, hdensity, h⟩ := Option.bind_eq_some_iff.mp h
    obtain ⟨scaledDensity, hscaled, h⟩ := Option.bind_eq_some_iff.mp h
    obtain ⟨xdpi, hxdpi, h⟩ := Option.bind_eq_some_iff.mp h
    obtain rfl := Option.some.inj h
    exact ⟨hdensity, hscaled, hxdpi⟩
  · rintro ⟨hdensity, hscaled, hxdpi⟩
    exact Option.bind_eq_some_iff.mpr ⟨_, hdensity, Option.bind_eq_some_iff.mpr
      ⟨_, hscaled, Option.bind_eq_some_iff.mpr ⟨_, hxdpi, rfl⟩⟩⟩

theorem readSurface?_table (hc : c.Lawful) : readSurface? c (.table fields) = some surface ↔
    Takes IsWord (fields.lookup "width") Surface.defaultWidth surface.width ∧
    Takes IsWord (fields.lookup "height") Surface.defaultHeight surface.height := by
  have hword (n : UInt32) (v : Toml.Value) := hc.word_iff v n
  simp only [← readField?_iff hc (hword _), readSurface?, hc.fields_table, Option.bind_eq_bind,
    Option.bind_some]
  constructor
  · intro h
    obtain ⟨width, hwidth, h⟩ := Option.bind_eq_some_iff.mp h
    obtain ⟨height, hheight, h⟩ := Option.bind_eq_some_iff.mp h
    obtain rfl := Option.some.inj h
    exact ⟨hwidth, hheight⟩
  · rintro ⟨hwidth, hheight⟩
    exact Option.bind_eq_some_iff.mpr ⟨_, hwidth, Option.bind_eq_some_iff.mpr ⟨_, hheight, rfl⟩⟩

/-! ## Sections -/

/-- The sections of a document are tables, as far as it has them. -/
def HasTables (fields : List (String × Toml.Value)) : Prop :=
  ∀ name ∈ ["scale", "surface"], ∀ v ∈ fields.lookup name, ∃ inner, v = .table inner

/-- The value that a document gives for a key of a section. -/
def given? (fields : List (String × Toml.Value)) (name key : String) : Option Toml.Value :=
  match fields.lookup name with
  | some (.table inner) => inner.lookup key
  | _ => none

/-- **The scale is taken key by key**, also where its section is missing. -/
theorem readScale?_iff (hc : c.Lawful) (h : HasTables fields) :
    readField? c (readScale? c) "scale" .standard fields = some scale ↔
      Takes IsSingle (given? fields "scale" "density") Scale.standard.density scale.density ∧
      Takes IsSingle (given? fields "scale" "scaled_density") Scale.standard.scaledDensity
        scale.scaledDensity ∧
      Takes IsSingle (given? fields "scale" "xdpi") Scale.standard.xdpi scale.xdpi := by
  have htable := h "scale" (by decide)
  rw [readField?, given?, given?, given?]
  cases hlookup : fields.lookup "scale" with
  | none =>
    rw [hc.optional_none]
    obtain ⟨density, scaledDensity, xdpi⟩ := scale
    constructor
    · rintro ⟨⟩
      exact ⟨rfl, rfl, rfl⟩
    · rintro ⟨rfl, rfl, rfl⟩
      rfl
  | some v =>
    obtain ⟨inner, rfl⟩ := htable v hlookup
    rw [hc.optional_some]
    exact readScale?_table hc

/-- **The size is taken key by key**, also where its section is missing. -/
theorem readSurface?_iff (hc : c.Lawful) (h : HasTables fields) :
    readField? c (readSurface? c) "surface" .standard fields = some surface ↔
      Takes IsWord (given? fields "surface" "width") Surface.defaultWidth surface.width ∧
      Takes IsWord (given? fields "surface" "height") Surface.defaultHeight surface.height := by
  have htable := h "surface" (by decide)
  rw [readField?, given?, given?]
  cases hlookup : fields.lookup "surface" with
  | none =>
    rw [hc.optional_none]
    obtain ⟨width, height⟩ := surface
    constructor
    · rintro ⟨⟩
      exact ⟨rfl, rfl⟩
    · rintro ⟨rfl, rfl⟩
      rfl
  | some v =>
    obtain ⟨inner, rfl⟩ := htable v hlookup
    rw [hc.optional_some]
    exact readSurface?_table hc

/-! ## Files -/

/-- A file is loaded if the document that it is read as has settings. -/
theorem load_eq_ok_iff {s : Settings} (hread : c.read? text = some fields) :
    load c path (some text) = .ok s ↔ ofFields? c path fields = some s := by
  rw [load, hread, Option.bind_some]
  cases ofFields? c path fields with
  | none => exact ⟨nofun, nofun⟩
  | some s' => simp only [Except.ok.injEq, Option.some.injEq]

/-- The settings in a document are those of its sections. -/
theorem ofFields?_eq_some_iff {negated : List String} :
    ofFields? c path fields = some ⟨scale, surface, some path, negated⟩ ↔
      readField? c (readScale? c) "scale" .standard fields = some scale ∧
        readField? c (readSurface? c) "surface" .standard fields = some surface ∧
        negated = ((fields.lookup "scale").map (negatedKeys c)).getD [] := by
  constructor
  · intro h
    obtain ⟨scale, hscale, h⟩ := Option.bind_eq_some_iff.mp h
    obtain ⟨surface, hsurface, h⟩ := Option.bind_eq_some_iff.mp h
    obtain ⟨rfl, rfl, -, rfl⟩ := Settings.mk.inj (Option.some.inj h)
    exact ⟨hscale, hsurface, rfl⟩
  · rintro ⟨hscale, hsurface, rfl⟩
    exact Option.bind_eq_some_iff.mpr ⟨_, hscale, Option.bind_eq_some_iff.mpr ⟨_, hsurface, rfl⟩⟩

/-- **Settings are loaded if they are what the document gives**, and the defaults where it gives
nothing. -/
theorem load_iff (hc : c.Lawful) (hread : c.read? text = some fields) (htables : HasTables fields) :
    (∃ negated, load c path (some text) = .ok ⟨scale, surface, some path, negated⟩) ↔
      (Takes IsSingle (given? fields "scale" "density") Scale.standard.density scale.density ∧
        Takes IsSingle (given? fields "scale" "scaled_density") Scale.standard.scaledDensity
          scale.scaledDensity ∧
        Takes IsSingle (given? fields "scale" "xdpi") Scale.standard.xdpi scale.xdpi) ∧
      Takes IsWord (given? fields "surface" "width") Surface.defaultWidth surface.width ∧
      Takes IsWord (given? fields "surface" "height") Surface.defaultHeight surface.height := by
  rw [← readScale?_iff hc htables, ← readSurface?_iff hc htables]
  simp only [load_eq_ok_iff hread, ofFields?_eq_some_iff]
  constructor
  · rintro ⟨negated, hscale, hsurface, -⟩
    exact ⟨hscale, hsurface⟩
  · rintro ⟨hscale, hsurface⟩
    exact ⟨_, hscale, hsurface, rfl⟩

end Settings
end SpecOverlay
