import SpecOverlay.Arguments
import SpecOverlay.Proofs.Dimension.Numeral

/-!
# Reading dimensions

Number and unit of a dimension are read from opposite ends of the text.  Each end is settled on its
own: the number by the longest numeral that the text begins with (`readNumber?_eq_some_iff`), the
unit by the ending (`HasUnit`).  The endings of different units exclude each other, so the order in
which they are tried does not matter (`of_eq_iff`).

* `readPixels?_eq_some_iff`: a dimension is the number in its unit, and what stands between the two
  is ignored.
* `length?_eq_ok_iff`: a length is such a dimension, rounded unless it is a percentage.
* `reads_dimension` puts this together for every text and every scale.
-/

namespace SpecOverlay

open Single (SignedRoundsTo)

/-! ## Units -/

namespace DimensionUnit

variable {u u' : DimensionUnit} {s t : List Char}

/-- The endings that stand for a unit. -/
def endings : DimensionUnit → List String
  | px => ["px"]
  | dp => ["dip", "dp"]
  | sp => ["sp"]
  | pt => ["pt"]
  | inch => ["in"]
  | mm => ["mm"]
  | percent => ["%"]
  | bare => []

/-- A text ends with one of the endings of a unit. -/
def EndsIn (t : List Char) (u : DimensionUnit) : Prop :=
  ∃ ending ∈ u.endings, ending.toList <:+ t

/-- The unit of a text: the one whose ending it has, and none if it has no such ending. -/
def HasUnit (t : List Char) (u : DimensionUnit) : Prop :=
  EndsIn t u ∨ u = bare ∧ ∀ u', ¬ EndsIn t u'

theorem mem_suffixes_iff {ending : String} : (ending, u) ∈ suffixes ↔ ending ∈ u.endings := by
  cases u <;> simp [suffixes, endings]

/-- **The endings of different units exclude each other.** -/
theorem EndsIn.unique (h : EndsIn t u) (h' : EndsIn t u') : u = u' := by
  have htable : ∀ a ∈ suffixes, ∀ b ∈ suffixes, a.1.toList <:+ b.1.toList → a.2 = b.2 := by
    decide +kernel
  obtain ⟨ending, hmem, hsuffix⟩ := h
  obtain ⟨ending', hmem', hsuffix'⟩ := h'
  have hmem := mem_suffixes_iff.mpr hmem
  have hmem' := mem_suffixes_iff.mpr hmem'
  rcases List.suffix_or_suffix_of_suffix hsuffix hsuffix' with h | h
  · exact htable _ hmem _ hmem' h
  · exact (htable _ hmem' _ hmem h).symm

/-- A text has one unit only. -/
theorem HasUnit.unique (h : HasUnit t u) (h' : HasUnit t u') : u = u' := by
  rcases h with h | ⟨rfl, hno⟩
  · rcases h' with h' | ⟨-, hno⟩
    · exact h.unique h'
    · exact absurd h (hno u)
  · rcases h' with h' | ⟨rfl, -⟩
    · exact absurd h' (hno u')
    · rfl

theorem hasUnit_of (s : List Char) : HasUnit (Text.trim s) (of s) := by
  rw [of]
  split
  case h_1 r h =>
    have hsuffix := List.find?_some h
    exact .inl ⟨r.1, mem_suffixes_iff.mp (List.mem_of_find?_eq_some h),
      List.isSuffixOf_iff_suffix.mp hsuffix⟩
  case h_2 h =>
    refine .inr ⟨rfl, fun u ⟨ending, hmem, hsuffix⟩ => ?_⟩
    exact List.find?_eq_none.mp h _ (mem_suffixes_iff.mpr hmem)
      (List.isSuffixOf_iff_suffix.mpr hsuffix)

/-- **The unit of a text is the one of its ending.** -/
theorem of_eq_iff : of s = u ↔ HasUnit (Text.trim s) u :=
  ⟨fun h => h ▸ hasUnit_of s, (hasUnit_of s).unique⟩

/-- A text has the percent sign for its unit if it ends with one, blanks aside. -/
theorem hasUnit_percent_iff : HasUnit (Text.trim s) percent ↔
    ∃ before blanks, s = before ++ '%' :: blanks ∧ Text.Blanks blanks := by
  have hends : HasUnit (Text.trim s) percent ↔ ['%'] <:+ Text.trim s := by
    simp [HasUnit, EndsIn, endings]
  obtain ⟨lead, tail, hlead, htail, hs⟩ := Text.exists_trim s
  rw [hends]
  constructor
  · rintro ⟨before, hbefore⟩
    refine ⟨lead ++ before, tail, ?_, htail⟩
    rw [← hbefore] at hs
    rw [hs]
    simp
  · rintro ⟨before, blanks, rfl, hblanks⟩
    have hword : Text.IsWord ['%'] := by decide
    rw [List.append_cons, Text.trim_append_blanks hblanks]
    exact Text.suffix_trim_append hword before

/-- A number without a factor is kept. -/
theorem toPixels_of_unscaled (hu : u = px ∨ u = percent ∨ u = bare) (x : Float32) (scale : Scale) :
    u.toPixels x scale = x := by
  rcases hu with rfl | rfl | rfl <;> rfl

end DimensionUnit

/-! ## Dimensions -/

namespace Dimension

variable {scale : Scale} {argument raw : String} {s : List Char} {px : Float32}

/-- The text of a dimension has a number: the longest numeral that it begins with has no digits but
ASCII digits. -/
def HasNumeral (s : List Char) (n : Numeral) : Prop :=
  n.Longest (Text.trim s) ∧ n.IsAscii

/-- **A dimension is the number in its unit.** -/
theorem readPixels?_eq_some_iff :
    readPixels? scale s = some px ↔ ∃ n x u, HasNumeral s n ∧ SignedRoundsTo x n.sign n.value ∧
      DimensionUnit.HasUnit (Text.trim s) u ∧ u.toPixels x scale = px := by
  rw [readPixels?, Option.map_eq_some_iff]
  constructor
  · rintro ⟨x, hx, rfl⟩
    obtain ⟨n, hlongest, hascii, hrounds⟩ := readNumber?_eq_some_iff.mp hx
    exact ⟨n, x, _, ⟨hlongest, hascii⟩, hrounds, DimensionUnit.hasUnit_of s, rfl⟩
  · rintro ⟨n, x, u, ⟨hlongest, hascii⟩, hrounds, hunit, rfl⟩
    refine ⟨x, readNumber?_eq_some_iff.mpr ⟨n, hlongest, hascii, hrounds⟩, ?_⟩
    rw [DimensionUnit.of_eq_iff.mpr hunit]

theorem isSome_readPixels?_iff :
    (∃ px, readPixels? scale s = some px) ↔ ∃ n, HasNumeral s n := by
  constructor
  · rintro ⟨px, h⟩
    obtain ⟨n, x, u, hn, -⟩ := readPixels?_eq_some_iff.mp h
    exact ⟨n, hn⟩
  · rintro ⟨n, hn⟩
    exact ⟨_, readPixels?_eq_some_iff.mpr
      ⟨n, _, _, hn, n.signedRoundsTo_decimal, DimensionUnit.hasUnit_of s, rfl⟩⟩

theorem readPixels_eq_ok_iff :
    readPixels scale argument raw = .ok px ↔ readPixels? scale raw.toList = some px := by
  rw [readPixels]
  cases readPixels? scale raw.toList with
  | none => exact ⟨nofun, nofun⟩
  | some px' => rw [Except.ok.injEq, Option.some.injEq]

theorem readPixels_of_not_readable (hno : ¬ ∃ n, HasNumeral raw.toList n) :
    readPixels scale argument raw =
      .error ⟨.malformedArgument argument raw "a dimension", none⟩ := by
  have hnone : readPixels? scale raw.toList = none :=
    Option.eq_none_iff_forall_ne_some.mpr fun px h => hno (isSome_readPixels?_iff.mp ⟨px, h⟩)
  rw [readPixels, hnone]

/-- Numeral and unit are all that is read of a text. -/
theorem readPixels?_congr {n : Numeral} {u : DimensionUnit} {s' : List Char}
    (hn : n.Longest (Text.trim s)) (hn' : n.Longest (Text.trim s'))
    (hu : DimensionUnit.HasUnit (Text.trim s) u) (hu' : DimensionUnit.HasUnit (Text.trim s') u)
    (scale : Scale) : readPixels? scale s = readPixels? scale s' := by
  have hnumber : readNumber? (Text.trim s) = readNumber? (Text.trim s') := by
    rw [readNumber?, readNumber?, spanNumeral_eq_some_iff.mpr ⟨n, hn, rfl⟩,
      spanNumeral_eq_some_iff.mpr ⟨n, hn', rfl⟩]
  rw [readPixels?, readPixels?, hnumber, DimensionUnit.of_eq_iff.mpr hu,
    DimensionUnit.of_eq_iff.mpr hu']

/-- Without a factor the scale is not used. -/
theorem readPixels?_of_unscaled {u : DimensionUnit} (hu : u = .px ∨ u = .percent ∨ u = .bare)
    (hunit : DimensionUnit.HasUnit (Text.trim s) u) (scale scale' : Scale) :
    readPixels? scale s = readPixels? scale' s := by
  rw [readPixels?, readPixels?, DimensionUnit.of_eq_iff.mpr hunit]
  simp only [DimensionUnit.toPixels_of_unscaled hu]

end Dimension

/-! ## Lengths -/

/-- The length that the value of an argument stands for, if it can be read.  Without a value there
is no length. -/
def Length.ofValue? (scale : Scale) (rounding : Rounding) :
    Option String → Option (Option (Length Float32))
  | none => some none
  | some raw =>
    (Dimension.readPixels? scale raw.toList).map fun px =>
      some (if DimensionUnit.of raw.toList = .percent then .percent px
        else .pixels (rounding.apply px))

namespace Arguments

variable {args args' : Arguments} {key key' : String} {rounding : Rounding}
  {length : Option (Length Float32)}

theorem length?_eq_ok_iff :
    args.length? key rounding = .ok length ↔
      Length.ofValue? args.scale rounding (args.text? key) = some length := by
  rw [length?, pixels?, unit?]
  cases args.text? key with
  | none => simp [Length.ofValue?, Except.map]
  | some raw =>
    simp only [Dimension.readPixels, Length.ofValue?]
    cases Dimension.readPixels? args.scale raw.toList with
    | none => exact ⟨nofun, nofun⟩
    | some px => simp [Except.map]

/-- **A percentage is the number of a text that ends with a percent sign**, whatever the
rounding. -/
theorem length?_eq_percent_iff {x : Float32} :
    args.length? key rounding = .ok (some (.percent x)) ↔ ∃ raw n before blanks,
      args.text? key = some raw ∧ Dimension.HasNumeral raw.toList n ∧
        SignedRoundsTo x n.sign n.value ∧ raw.toList = before ++ '%' :: blanks ∧
          Text.Blanks blanks := by
  have hvalue (raw : String) :
      Length.ofValue? args.scale rounding (some raw) = some (some (.percent x)) ↔
        Dimension.readPixels? args.scale raw.toList = some x ∧
          DimensionUnit.of raw.toList = .percent := by
    rw [Length.ofValue?, Option.map_eq_some_iff]
    by_cases hunit : DimensionUnit.of raw.toList = .percent <;> simp [hunit]
  rw [length?_eq_ok_iff]
  cases args.text? key with
  | none => simp [Length.ofValue?]
  | some raw =>
    rw [hvalue, Dimension.readPixels?_eq_some_iff, DimensionUnit.of_eq_iff]
    constructor
    · rintro ⟨⟨n, x, u, hn, hrounds, hunit, rfl⟩, hpercent⟩
      obtain rfl := hunit.unique hpercent
      obtain ⟨before, blanks, hraw, hblanks⟩ := DimensionUnit.hasUnit_percent_iff.mp hpercent
      exact ⟨raw, n, before, blanks, rfl, hn, hrounds, hraw, hblanks⟩
    · rintro ⟨raw', n, before, blanks, hraw', hn, hrounds, hraw, hblanks⟩
      obtain rfl := Option.some.inj hraw'
      have hpercent := DimensionUnit.hasUnit_percent_iff.mpr ⟨before, blanks, hraw, hblanks⟩
      exact ⟨⟨n, x, _, hn, hrounds, hpercent, rfl⟩, hpercent⟩

/-- A length is given if its argument has a value. -/
theorem isSome_of_length? (h : args.length? key rounding = .ok length) :
    length.isSome = (args.text? key).isSome := by
  rw [length?_eq_ok_iff] at h
  cases htext : args.text? key with
  | none =>
    rw [htext] at h
    obtain rfl := Option.some.inj h
    rfl
  | some raw =>
    rw [htext] at h
    obtain ⟨px, -, rfl⟩ := Option.map_eq_some_iff.mp h
    rfl

/-- A length depends only on the value of its argument and on the scale. -/
theorem length?_congr (hscale : args'.scale = args.scale)
    (htext : args'.text? key' = args.text? key) (h : args.length? key rounding = .ok length) :
    args'.length? key' rounding = .ok length := by
  rw [length?_eq_ok_iff] at h ⊢
  rwa [hscale, htext]

end Arguments

namespace Dimension

/-- **Dimensions are read exactly as they are written.**

* A dimension can be read if the longest numeral that it begins with, blanks aside, has no digits
  but ASCII digits.  The result is the number nearest to the value of that numeral, with the sign
  that is written, in the unit that the text ends with.  Otherwise the complaint has code 154.
* What stands between the numeral and the unit is ignored.
* Pixels, percentages and bare numbers do not depend on the scale.
* A length is a percentage if its argument has a value that can be read and, blanks aside, ends
  with a percent sign.  It is the number as it is written, whatever the rounding. -/
theorem reads_dimension :
    (∀ (scale : Scale) (argument raw : String),
      (∀ px, readPixels scale argument raw = .ok px ↔ ∃ n x u, HasNumeral raw.toList n ∧
        SignedRoundsTo x n.sign n.value ∧ DimensionUnit.HasUnit (Text.trim raw.toList) u ∧
          u.toPixels x scale = px) ∧
      ((∃ px, readPixels scale argument raw = .ok px) ↔ ∃ n, HasNumeral raw.toList n) ∧
      ((¬ ∃ n, HasNumeral raw.toList n) → ∃ complaint,
        readPixels scale argument raw = .error complaint ∧ complaint.cause.code = 154 ∧
          complaint = ⟨.malformedArgument argument raw "a dimension", none⟩)) ∧
    (∀ (n : Numeral) (u : DimensionUnit) (raw raw' : String),
      n.Longest (Text.trim raw.toList) → n.Longest (Text.trim raw'.toList) →
      DimensionUnit.HasUnit (Text.trim raw.toList) u →
      DimensionUnit.HasUnit (Text.trim raw'.toList) u →
        ∀ scale argument px, readPixels scale argument raw = .ok px ↔
          readPixels scale argument raw' = .ok px) ∧
    (∀ (u : DimensionUnit) (raw : String), u = .px ∨ u = .percent ∨ u = .bare →
      DimensionUnit.HasUnit (Text.trim raw.toList) u →
        ∀ scale scale' argument, readPixels scale argument raw = readPixels scale' argument raw) ∧
    ∀ (args : Arguments) (key : String) (rounding : Rounding) (x : Float32),
      args.length? key rounding = .ok (some (.percent x)) ↔ ∃ raw n before blanks,
        args.text? key = some raw ∧ HasNumeral raw.toList n ∧
          SignedRoundsTo x n.sign n.value ∧ raw.toList = before ++ '%' :: blanks ∧
            Text.Blanks blanks := by
  refine ⟨fun scale argument raw => ⟨fun px => ?_, ?_, fun hno => ?_⟩,
    fun n u raw raw' hn hn' hu hu' scale argument px => ?_,
    fun u raw hunscaled hu scale scale' argument => ?_,
    fun args key rounding x => Arguments.length?_eq_percent_iff⟩
  · exact readPixels_eq_ok_iff.trans readPixels?_eq_some_iff
  · simp only [readPixels_eq_ok_iff, isSome_readPixels?_iff]
  · exact ⟨_, readPixels_of_not_readable hno, rfl, rfl⟩
  · rw [readPixels_eq_ok_iff, readPixels_eq_ok_iff, readPixels?_congr hn hn' hu hu']
  · rw [readPixels, readPixels, readPixels?_of_unscaled hunscaled hu scale scale']

/-- A numeral without digits before its point. -/
def minusHalf : Numeral :=
  ⟨true, [], some ['5'], nofun, by simp [Text.isDecimalDigit, Text.digitZeros], by decide⟩

/-- Two pixels to the unit. -/
def double : Scale :=
  .ofDensity 2

/-- A margin in percent. -/
def fivePercent : Arguments :=
  .ofList double [("left", .value " 5.% ")]

/-- Half a unit below zero with something between the numeral and the unit, a plus sign, and a
percentage with a point at the end of its numeral. -/
theorem reads_dimension_of_half :
    (readPixels double "left" " -.5 of a dp" = .ok (-1) ∧
      readPixels double "left" "-.5dip" = .ok (-1)) ∧
    (readPixels double "left" "5.%" = readPixels .standard "left" "5.%") ∧
    (¬ ∃ n, HasNumeral "+5".toList n) ∧
    (∃ complaint, readPixels double "left" "+5" = .error complaint ∧ complaint.cause.code = 154) ∧
    fivePercent.length? "left" .offset = .ok (some (.percent 5)) ∧
    ∃ n, HasNumeral " 5.% ".toList n ∧ SignedRoundsTo 5 n.sign n.value := by
  obtain ⟨hreads, hbetween, hunscaled, hpercent⟩ := reads_dimension
  have hok : readPixels double "left" " -.5 of a dp" = .ok (-1) :=
    readPixels_eq_ok_iff.mpr (by decide +kernel)
  have hunit (raw : String) (h : DimensionUnit.of raw.toList = .dp) :=
    DimensionUnit.of_eq_iff.mp h
  have hsame := hbetween minusHalf .dp " -.5 of a dp" "-.5dip"
    (Numeral.longest_of_parts (by decide) (by decide +kernel))
    (Numeral.longest_of_parts (by decide) (by decide +kernel))
    (hunit _ (by decide +kernel)) (hunit _ (by decide +kernel)) double "left" (-1)
  have hno : ¬ ∃ n, HasNumeral "+5".toList n := by
    have hnone : readPixels? double "+5".toList = none := by decide +kernel
    intro hn
    obtain ⟨px, hpx⟩ := isSome_readPixels?_iff.mpr hn
    rw [hnone] at hpx
    nomatch hpx
  obtain ⟨complaint, hcomplaint, hcode, -⟩ := (hreads double "left" "+5").2.2 hno
  have hpercentage : DimensionUnit.of "5.%".toList = .percent := by decide +kernel
  have hlength : fivePercent.length? "left" .offset = .ok (some (.percent 5)) :=
    Arguments.length?_eq_ok_iff.mpr (by decide +kernel)
  obtain ⟨raw, n, -, -, hraw, hn, hrounds, -⟩ := (hpercent fivePercent "left" .offset 5).mp hlength
  have htext : fivePercent.text? "left" = some " 5.% " := by decide +kernel
  obtain rfl := Option.some.inj (htext.symm.trans hraw)
  refine ⟨⟨hok, hsame.mp hok⟩, ?_, hno, ⟨complaint, hcomplaint, hcode⟩, hlength, n, hn, hrounds⟩
  exact hunscaled .percent "5.%" (.inr (.inl rfl)) (DimensionUnit.of_eq_iff.mp hpercentage) _ _ _

end Dimension

end SpecOverlay
