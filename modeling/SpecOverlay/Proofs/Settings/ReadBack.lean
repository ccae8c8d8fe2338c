import SpecOverlay.Proofs.Number.Double
import SpecOverlay.Proofs.Settings.Documents
import SpecOverlay.Proofs.Toml.Plain

/-!
# Settings are read back

A file need not give all settings.  `Given` says which ones it gives, and `Given.records` are the
records to be written for such a file; a file that gives all of them is the one that is written for
settings.  Whatever is given is read, and all the rest keeps its default, whether a key is missing
in its section or the section itself (`load_given`).  A factor is widened when it is written and
narrowed when it is read, and that gives the factor back (`takes_single`).

How a file is written does not matter for any of this, since the same is known about every document
whose sections are tables; `settings_read_back` says it all together, for every lawful codec.
-/

namespace SpecOverlay
namespace Settings

open Toml (IsBare IsSingle IsWord Number)

variable {c : Toml.Codec} {α β γ : Type} {key : String} {o : Option β}

/-! ## Files that give some of the settings -/

/-- The factors that a file gives. -/
structure GivenScale where
  density : Option Float32
  scaledDensity : Option Float32
  xdpi : Option Float32

/-- The numbers of pixels that a file gives. -/
structure GivenSurface where
  width : Option UInt32
  height : Option UInt32

/-- The sections that a file has, and what it gives in them. -/
structure Given where
  scale : Option GivenScale
  surface : Option GivenSurface

/-- The entry of a key that may be given. -/
def entry (key : String) (o : Option β) : List (String × β) :=
  (o.map (key, ·)).toList

/-- The factors given, in their order. -/
def GivenScale.factors (g : GivenScale) : List Float32 :=
  g.density.toList ++ g.scaledDensity.toList ++ g.xdpi.toList

/-- The entry of a factor that may be given.  It has a minus sign if it is not a number and its key
is among those named. -/
def factorEntry (negated : List String) (key : String) (o : Option Float32) :
    List (String × Number) :=
  entry key (o.map (.single (negated.contains key)))

/-- The record of the factors given. -/
def GivenScale.record (g : GivenScale) (negated : List String) : List (String × Number) :=
  factorEntry negated "density" g.density ++ factorEntry negated "scaled_density" g.scaledDensity ++
    factorEntry negated "xdpi" g.xdpi

/-- The record of the numbers of pixels given. -/
def GivenSurface.record (g : GivenSurface) : List (String × Number) :=
  entry "width" (g.width.map .word) ++ entry "height" (g.height.map .word)

namespace Given

/-- The records of a file that gives these settings. -/
def records (g : Given) (negated : List String) : Toml.Records :=
  entry "scale" (g.scale.map fun scale => scale.record negated) ++
    entry "surface" (g.surface.map GivenSurface.record)

/-- The factors given, in their order. -/
def factors (g : Given) : List Float32 :=
  (g.scale.map GivenScale.factors).getD []

/-- The scale with the factors given, and the default for each other one. -/
def toScale (g : Given) : Scale where
  density := (g.scale.bind GivenScale.density).getD Scale.standard.density
  scaledDensity := (g.scale.bind GivenScale.scaledDensity).getD Scale.standard.scaledDensity
  xdpi := (g.scale.bind GivenScale.xdpi).getD Scale.standard.xdpi

/-- The surface with the size given, and the default for each other number of pixels. -/
def toSurface (g : Given) : Surface where
  width := (g.surface.bind GivenSurface.width).getD Surface.defaultWidth
  height := (g.surface.bind GivenSurface.height).getD Surface.defaultHeight

/-- All settings, given. -/
def all (s : Settings) : Given where
  scale := some ⟨some s.scale.density, some s.scale.scaledDensity, some s.scale.xdpi⟩
  surface := some ⟨some s.surface.width, some s.surface.height⟩

/-- The records of settings give all of them. -/
theorem records_all (s : Settings) : (all s).records s.negated = s.records := rfl

end Given

/-! ## Entries -/

theorem lookup_entry (key key' : String) (o : Option β) :
    (entry key o).lookup key' = if key' = key then o else none := by
  cases o with
  | none =>
    split <;> rfl
  | some x =>
    rw [entry, Option.map_some, Option.toList_some, List.lookup_cons, List.lookup_nil]
    by_cases h : key' = key
    · rw [h, beq_self_eq_true, if_pos rfl]
    · rw [beq_false_of_ne h, if_neg h]

theorem keys_entry (key : String) (o : Option β) :
    ((entry key o).map Prod.fst).Sublist [key] := by
  cases o with
  | none => exact List.nil_sublist _
  | some x => exact List.Sublist.refl _

theorem mem_entry {f : String × β} : f ∈ entry key o ↔ f.1 = key ∧ f.2 ∈ o := by
  obtain ⟨key', x⟩ := f
  simp [entry, and_comm, eq_comm]

/-- What is looked up in changed fields is the changed field. -/
theorem lookup_map (change : β → γ) (key : String) (fields : List (String × β)) :
    (fields.map fun f => (f.1, change f.2)).lookup key = (fields.lookup key).map change := by
  induction fields with
  | nil => rfl
  | cons f fields ih =>
    rw [List.map_cons, List.lookup_cons, List.lookup_cons, ih]
    split <;> rfl

/-! ## Plain records -/

variable {g : Given} {negated : List String}

theorem isBare_of_mem {key : String} (h : key ∈ ["scale", "surface"] ++ factorKeys ++ pixelKeys) :
    IsBare key.toList := by
  have hall : ∀ key ∈ ["scale", "surface"] ++ factorKeys ++ pixelKeys,
      (!key.toList.isEmpty && key.toList.all Toml.isBareChar) = true := by decide
  exact .of_all (hall key h)

theorem GivenScale.keys_sublist (g : GivenScale) (negated : List String) :
    ((g.record negated).map Prod.fst).Sublist factorKeys := by
  rw [record, List.map_append, List.map_append]
  exact ((keys_entry _ _).append (keys_entry _ _)).append (keys_entry _ _)

theorem GivenSurface.keys_sublist (g : GivenSurface) :
    (g.record.map Prod.fst).Sublist pixelKeys := by
  rw [record, List.map_append]
  exact (keys_entry _ _).append (keys_entry _ _)

theorem GivenScale.mem_factors {g : GivenScale} {x : Float32} :
    x ∈ g.factors ↔ x ∈ g.density ∨ x ∈ g.scaledDensity ∨ x ∈ g.xdpi := by
  simp only [factors, List.mem_append, Option.mem_toList, Option.mem_def, or_assoc]

theorem GivenScale.isNumber {g : GivenScale} (h : ∀ x ∈ g.factors, x.isNaN ≠ true) :
    ∀ f ∈ g.record negated, f.2.IsNumber := by
  have hfactor {key : String} {o : Option Float32} (ho : ∀ x ∈ o, x ∈ g.factors) :
      ∀ f ∈ factorEntry negated key o, f.2.IsNumber := by
    intro f hf
    obtain ⟨x, hx, hnumber⟩ := Option.map_eq_some_iff.mp (mem_entry.mp hf).2
    exact hnumber ▸ h x (ho x hx)
  refine List.forall_mem_append.mpr ⟨List.forall_mem_append.mpr ⟨hfactor fun x hx => ?_,
    hfactor fun x hx => ?_⟩, hfactor fun x hx => ?_⟩
  · exact mem_factors.mpr (.inl hx)
  · exact mem_factors.mpr (.inr (.inl hx))
  · exact mem_factors.mpr (.inr (.inr hx))

theorem GivenSurface.isNumber (g : GivenSurface) : ∀ f ∈ g.record, f.2.IsNumber := by
  have hword {key : String} {o : Option UInt32} :
      ∀ f ∈ entry key (o.map Number.word), f.2.IsNumber := by
    intro f hf
    obtain ⟨n, -, hnumber⟩ := Option.map_eq_some_iff.mp (mem_entry.mp hf).2
    exact hnumber ▸ trivial
  exact List.forall_mem_append.mpr ⟨hword, hword⟩

/-- A record that is written is that of one of the two sections. -/
theorem Given.mem_records {t : String × List (String × Number)} (h : t ∈ g.records negated) :
    (∃ scale ∈ g.scale, t = ("scale", scale.record negated)) ∨
      ∃ surface ∈ g.surface, t = ("surface", surface.record) := by
  obtain ⟨name, fields⟩ := t
  rcases List.mem_append.mp h with h | h
  · obtain ⟨rfl, hfields⟩ := mem_entry.mp h
    obtain ⟨scale, hscale, rfl⟩ := Option.map_eq_some_iff.mp hfields
    exact .inl ⟨scale, hscale, rfl⟩
  · obtain ⟨rfl, hfields⟩ := mem_entry.mp h
    obtain ⟨surface, hsurface, rfl⟩ := Option.map_eq_some_iff.mp hfields
    exact .inr ⟨surface, hsurface, rfl⟩

/-- What is asked of one record. -/
theorem Given.record_plain (h : ∀ x ∈ g.factors, x.isNaN ≠ true)
    {t : String × List (String × Number)} (ht : t ∈ g.records negated) :
    t.1 ∈ ["scale", "surface"] ∧ (t.2.map Prod.fst).Nodup ∧
      (∀ f ∈ t.2, f.1 ∈ factorKeys ++ pixelKeys) ∧ ∀ f ∈ t.2, f.2.IsNumber := by
  rcases mem_records ht with ⟨scale, hscale, rfl⟩ | ⟨surface, -, rfl⟩
  · have hkeys := scale.keys_sublist negated
    refine ⟨List.mem_cons_self, hkeys.nodup (by decide), fun f hf => ?_,
      GivenScale.isNumber fun x hx => ?_⟩
    · exact List.mem_append_left _ (hkeys.subset (List.mem_map_of_mem hf))
    · refine h x ?_
      rw [factors, Option.mem_def.mp hscale]
      exact hx
  · have hkeys := surface.keys_sublist
    refine ⟨List.mem_cons_of_mem _ List.mem_cons_self, hkeys.nodup (by decide), fun f hf => ?_,
      surface.isNumber⟩
    exact List.mem_append_right _ (hkeys.subset (List.mem_map_of_mem hf))

/-- **Records of settings are plain**, if the factors are numbers. -/
theorem Given.isPlain (h : ∀ x ∈ g.factors, x.isNaN ≠ true) : (g.records negated).IsPlain where
  names := by
    have hsublist : ((g.records negated).map Prod.fst).Sublist ["scale", "surface"] := by
      rw [records, List.map_append]
      exact (keys_entry _ _).append (keys_entry _ _)
    exact hsublist.nodup (by decide)
  bare_name t ht := isBare_of_mem (List.mem_append_left _
    (List.mem_append_left _ (record_plain h ht).1))
  keys t ht := (record_plain h ht).2.1
  bare_key t ht f hf := isBare_of_mem (by
    rw [List.append_assoc]
    exact List.mem_append_right _ ((record_plain h ht).2.2.1 f hf))
  number t ht := (record_plain h ht).2.2.2

/-! ## What is read -/

/-- Records that are read back are tables. -/
theorem hasTables_toFields (r : Toml.Records) : HasTables r.toFields := by
  intro name _ v hv
  rw [Toml.Records.toFields, lookup_map fun numbers => Toml.Value.table _] at hv
  obtain ⟨numbers, -, rfl⟩ := Option.map_eq_some_iff.mp hv
  exact ⟨_, rfl⟩

/-- What such a document gives for a key is the value of its number. -/
theorem given?_toFields (r : Toml.Records) (name key : String) :
    given? r.toFields name key = ((r.lookup name).bind (·.lookup key)).map Number.toValue := by
  rw [given?, Toml.Records.toFields, lookup_map fun numbers => Toml.Value.table _]
  cases r.lookup name with
  | none => rfl
  | some numbers => exact lookup_map Number.toValue key numbers

/-- So the value of a number that a file may give in a section that it may have. -/
theorem given?_of_lookup {r : Toml.Records} {name : String} {o : Option β}
    {record : β → List (String × Number)} {part : β → Option α} {number : α → Number}
    (hname : r.lookup name = o.map record)
    (hkey : ∀ x, (record x).lookup key = (part x).map number) :
    given? r.toFields name key = ((o.bind part).map number).map Number.toValue := by
  rw [given?_toFields, hname]
  cases o with
  | none => rfl
  | some x => exact congrArg (Option.map Number.toValue) (hkey x)

/-- None of the values is `-nan`. -/
theorem negatedKeys_toFields (hc : c.Lawful) (r : Toml.Records) :
    ((r.toFields.lookup "scale").map (negatedKeys c)).getD [] = [] := by
  rw [Toml.Records.toFields, lookup_map fun numbers => Toml.Value.table _]
  cases r.lookup "scale" with
  | none => rfl
  | some numbers =>
    refine List.filter_eq_nil_iff.mpr fun key _ => ?_
    rw [hc.fields_table, Option.getD_some, lookup_map Number.toValue]
    cases numbers.lookup key with
    | none => exact Bool.false_ne_true
    | some number => cases number <;> exact Bool.false_ne_true

/-- **A factor that is given is taken**: what has been widened is narrowed to the same number. -/
theorem takes_single (o : Option Float32) (negative : Bool) (default : Float32) :
    Takes IsSingle ((o.map (Number.single negative)).map Number.toValue) default
      (o.getD default) := by
  cases o with
  | none => exact rfl
  | some x =>
    have hfloat := IsSingle.float (Single.toDouble x)
    rw [Double.ofDouble_toDouble] at hfloat
    exact hfloat

theorem takes_word (o : Option UInt32) (default : UInt32) :
    Takes IsWord ((o.map Number.word).map Number.toValue) default (o.getD default) := by
  cases o with
  | none => exact rfl
  | some n => exact .integer n

/-- The numbers of a record of factors, key by key. -/
theorem GivenScale.lookup_record (g : GivenScale) (negated : List String) :
    (g.record negated).lookup "density" =
        g.density.map (.single (negated.contains "density")) ∧
      (g.record negated).lookup "scaled_density" =
        g.scaledDensity.map (.single (negated.contains "scaled_density")) ∧
      (g.record negated).lookup "xdpi" = g.xdpi.map (.single (negated.contains "xdpi")) := by
  simp [record, factorEntry, List.lookup_append, lookup_entry]

theorem GivenSurface.lookup_record (g : GivenSurface) :
    g.record.lookup "width" = g.width.map .word ∧
      g.record.lookup "height" = g.height.map .word := by
  simp [record, List.lookup_append, lookup_entry]

/-- The sections of a file, name by name. -/
theorem Given.lookup_records (g : Given) (negated : List String) :
    (g.records negated).lookup "scale" = g.scale.map (·.record negated) ∧
      (g.records negated).lookup "surface" = g.surface.map GivenSurface.record := by
  simp [records, List.lookup_append, lookup_entry]

/-- **What a file gives is read, and all the rest has its default.** -/
theorem load_given (hc : c.Lawful) (g : Given) (negated : List String) (path : String)
    (h : ∀ x ∈ g.factors, x.isNaN ≠ true) :
    ∃ text, c.write? (g.records negated) = some text ∧
      load c path (some text) = .ok ⟨g.toScale, g.toSurface, some path, []⟩ := by
  have hplain : (g.records negated).IsPlain := Given.isPlain h
  obtain ⟨text, hwrite, hread⟩ := hc.read_write _ hplain
  have htables := hasTables_toFields (g.records negated)
  refine ⟨text, hwrite, (load_eq_ok_iff hread).mpr (ofFields?_eq_some_iff.mpr
    ⟨(readScale?_iff hc htables).mpr ⟨?_, ?_, ?_⟩, (readSurface?_iff hc htables).mpr ⟨?_, ?_⟩,
      (negatedKeys_toFields hc _).symm⟩)⟩
  · rw [given?_of_lookup (g.lookup_records negated).1 fun x => (x.lookup_record negated).1]
    exact takes_single _ _ _
  · rw [given?_of_lookup (g.lookup_records negated).1 fun x => (x.lookup_record negated).2.1]
    exact takes_single _ _ _
  · rw [given?_of_lookup (g.lookup_records negated).1 fun x => (x.lookup_record negated).2.2]
    exact takes_single _ _ _
  · rw [given?_of_lookup (g.lookup_records negated).2 fun x => x.lookup_record.1]
    exact takes_word _ _
  · rw [given?_of_lookup (g.lookup_records negated).2 fun x => x.lookup_record.2]
    exact takes_word _ _

/-! ## Saved settings and other files -/

/-- The factors of a scale. -/
def factorsOf (scale : Scale) : List Float32 :=
  [scale.density, scale.scaledDensity, scale.xdpi]

/-- **Settings are read back, and missing ones have their defaults**, with every lawful codec.  The
first part is about the text that is written for settings, where only what is not a number is
excluded; the second one is about files with any of the keys, in sections that may be missing, too;
and the third one is about any text that is read as a document of tables. -/
theorem settings_read_back {c : Toml.Codec} (hc : c.Lawful) :
    (∀ (s : Settings) (path : String), (∀ x ∈ factorsOf s.scale, x.isNaN ≠ true) →
      ∃ text, save? c s = some text ∧
        load c path (some text) = .ok ⟨s.scale, s.surface, some path, []⟩) ∧
    (∀ (g : Given) (negated : List String) (path : String), (∀ x ∈ g.factors, x.isNaN ≠ true) →
      ∃ text, c.write? (g.records negated) = some text ∧
        load c path (some text) = .ok ⟨g.toScale, g.toSurface, some path, []⟩) ∧
    ∀ (fields : List (String × Toml.Value)) (text path : String),
      c.read? text = some fields → HasTables fields → ∀ scale surface,
        (∃ negated, load c path (some text) = .ok ⟨scale, surface, some path, negated⟩) ↔
          (Takes IsSingle (given? fields "scale" "density") Scale.standard.density scale.density ∧
            Takes IsSingle (given? fields "scale" "scaled_density") Scale.standard.scaledDensity
              scale.scaledDensity ∧
            Takes IsSingle (given? fields "scale" "xdpi") Scale.standard.xdpi scale.xdpi) ∧
          Takes IsWord (given? fields "surface" "width") Surface.defaultWidth surface.width ∧
          Takes IsWord (given? fields "surface" "height") Surface.defaultHeight surface.height := by
  refine ⟨fun s path h => ?_, fun g negated path h => load_given hc g negated path h,
    fun fields text path hread htables scale surface => load_iff hc hread htables⟩
  obtain ⟨text, hwrite, hload⟩ := load_given hc (.all s) s.negated path h
  rw [Given.records_all] at hwrite
  exact ⟨text, hwrite, hload⟩

/-- An infinite factor, a negative zero and the least positive number. -/
def extreme : Settings :=
  ⟨⟨Single.infinity, -0, Single.encode (.finite .positive 1 (-149) (by decide))⟩, ⟨4294967295, 0⟩,
    none, []⟩

/-- A density and an empty section of the surface. -/
def onlyDensity : Given :=
  ⟨some ⟨some 2, none, none⟩, some ⟨none, none⟩⟩

/-- The plain codec reads these settings back; a file that gives only a density, and one with an
inline table, leave the rest at its default. -/
theorem read_back_of_extreme :
    ofFile "rhythm.toml" (some extreme.toText) =
        .ok ⟨extreme.scale, extreme.surface, some "rhythm.toml", []⟩ ∧
      ofFile "rhythm.toml" (some (Toml.write (onlyDensity.records []))) =
        .ok ⟨{ Scale.standard with density := 2 }, .standard, some "rhythm.toml", []⟩ ∧
      ∃ negated, ofFile "rhythm.toml" (some "surface = \x7b width = 720 \x7d\n") =
        .ok ⟨.standard, ⟨720, 640⟩, some "rhythm.toml", negated⟩ := by
  have hread : Toml.plain.read? "surface = \x7b width = 720 \x7d\n" =
      some [("surface", .table [("width", .integer 720)])] := by
    rw [Toml.plain_read?]
    cbv
  have htables : HasTables [("surface", .table [("width", .integer 720)])] := by
    intro name hname v hv
    rcases List.mem_pair.mp hname with rfl | rfl
    · exact absurd hv.symm (Option.some_ne_none v)
    · exact ⟨_, (Option.some.inj hv).symm⟩
  obtain ⟨hsaved, hgiven, htext⟩ := settings_read_back Toml.plain_lawful
  obtain ⟨saved, hsome, hextreme⟩ := hsaved extreme "rhythm.toml" (by decide +kernel)
  have hsaved : extreme.toText = saved := Option.some.inj hsome
  obtain ⟨written, hsome, hdensity⟩ := hgiven onlyDensity [] "rhythm.toml" (by decide +kernel)
  have hwritten : Toml.write (onlyDensity.records []) = written := Option.some.inj hsome
  rw [hsaved, hwritten]
  exact ⟨hextreme, hdensity, (htext _ _ "rhythm.toml" hread htables .standard ⟨720, 640⟩).mpr
    ⟨⟨rfl, rfl, rfl⟩, .integer 720, rfl⟩⟩

end Settings
end SpecOverlay
