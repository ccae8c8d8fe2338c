import Mathlib
import SpecOverlay.Color
import SpecOverlay.Proofs.Text.Digits
import SpecOverlay.Text.Blank

/-!
# The spellings of colors

A color is spelled with eight hexadecimal digits, with six if it is fully opaque, or with a
name.  Letters may stand in either case.  A digit is worth its place in the alphabet of digits
(`worth`), and digits denote a number in base sixteen (`denoted`).

* `ofHex?_eq`: digits are read as the number they denote, and other characters are refused.
* `lookup_eq_some_iff`: a name is found by the texts with the same letters.
* `read?_eq_some_iff`: **exactly the spellings are read**, each as its color.
* `exists_toText`: the text of a color is its spelling with eight capital digits.

A spelling consists of ASCII letters, digits and the number sign (`Spells.isPlain`).  This is what
excludes signs, blanks and the characters of other scripts.
-/

namespace SpecOverlay
namespace Color

/-! ## Digits -/

/-- The sixteen hexadecimal digits, ascending, with capital letters. -/
def alphabet : List Char :=
  ['0', '1', '2', '3', '4', '5', '6', '7', '8', '9', 'A', 'B', 'C', 'D', 'E', 'F']

/-- A character of the alphabet of digits, in either case. -/
def IsHexDigit (d : Char) : Prop :=
  d.toUpper ∈ alphabet

instance (d : Char) : Decidable (IsHexDigit d) :=
  inferInstanceAs (Decidable (d.toUpper ∈ alphabet))

/-- What a digit is worth: its place in the alphabet. -/
def worth (d : Char) : ℕ :=
  alphabet.idxOf d.toUpper

/-- The number that digits denote in base sixteen, the first digit being worth most. -/
def denoted (digits : List Char) : ℕ :=
  Nat.ofDigits 16 (digits.reverse.map worth)

variable {c : Color} {d : Char} {s h : List Char}

theorem IsHexDigit.worth_lt (hd : IsHexDigit d) : worth d < 16 :=
  List.idxOf_lt_length_of_mem hd

theorem denoted_append (h h' : List Char) :
    denoted (h ++ h') = denoted h * 16 ^ h'.length + denoted h' := by
  simp only [denoted, List.map_reverse, List.map_append, Text.ofDigits_reverse_append,
    List.length_map]

theorem denoted_lt (hhex : ∀ d ∈ h, IsHexDigit d) : denoted h < 16 ^ h.length := by
  have hlength : (h.reverse.map worth).length = h.length := by simp
  rw [denoted, ← hlength]
  refine Nat.ofDigits_lt_base_pow_length (by decide) fun v hv => ?_
  obtain ⟨d, hd, rfl⟩ := List.mem_map.mp hv
  exact (hhex d (List.mem_reverse.mp hd)).worth_lt

theorem toUpper_of_not_ascii (hd : 128 ≤ d.toNat) : d.toUpper = d := by
  refine Char.toUpper_eq_of_not_isLower fun hlower => ?_
  rw [Char.isLower, Bool.and_eq_true, decide_eq_true_eq, decide_eq_true_eq] at hlower
  exact absurd hd (not_le.mpr (lt_of_le_of_lt (UInt32.le_iff_toNat_le.mp hlower.2) (by decide)))

theorem hexValue?_of_not_ascii (hd : 128 ≤ d.toNat) : hexValue? d = none := by
  have hle {a b : Char} : a ≤ b ↔ a.toNat ≤ b.toNat := UInt32.le_iff_toNat_le
  have hdigit : d.isDigit = true ↔ '0' ≤ d ∧ d ≤ '9' := by
    rw [Char.isDigit, Bool.and_eq_true, decide_eq_true_eq, decide_eq_true_eq]
    rfl
  have hlast : ('9').toNat < 128 ∧ ('f').toNat < 128 ∧ ('F').toNat < 128 := by decide
  simp only [hexValue?, hdigit, hle]
  rw [if_neg (by omega), if_neg (by omega), if_neg (by omega)]

/-- **A character is read as a digit for what it is worth.** -/
theorem hexValue?_eq (d : Char) : hexValue? d = if IsHexDigit d then some (worth d) else none := by
  have hascii : ∀ n : Fin 128, hexValue? (Char.ofNat n) =
      if IsHexDigit (Char.ofNat n) then some (worth (Char.ofNat n)) else none := by
    decide +kernel
  rcases lt_or_ge d.toNat 128 with hlt | hge
  · have hd := hascii ⟨d.toNat, hlt⟩
    rwa [Char.ofNat_toNat] at hd
  · have hno : ¬ IsHexDigit d := by
      have hall : ∀ a ∈ alphabet, a.toNat < 128 := by simp [alphabet]
      rw [IsHexDigit, toUpper_of_not_ascii hge]
      exact fun hmem => absurd hge (not_le.mpr (hall d hmem))
    rw [if_neg hno, hexValue?_of_not_ascii hge]

/-- **Digits are read as the number they denote.** -/
theorem ofHex?_eq (h : List Char) :
    ofHex? h = if ∀ d ∈ h, IsHexDigit d then some (denoted h) else none := by
  have hvalues : h.mapM hexValue? = if ∀ d ∈ h, IsHexDigit d then some (h.map worth) else none := by
    induction h with
    | nil => simp
    | cons d h ih =>
      rw [List.mapM_cons, ih, hexValue?_eq]
      simp only [List.forall_mem_cons]
      by_cases hd : IsHexDigit d
      · by_cases hh : ∀ d ∈ h, IsHexDigit d
        · rw [if_pos hd, if_pos hh, if_pos ⟨hd, hh⟩]
          rfl
        · rw [if_pos hd, if_neg hh, if_neg (mt And.right hh)]
          rfl
      · rw [if_neg hd, if_neg (mt And.left hd)]
        rfl
  rw [ofHex?, hvalues]
  split
  · rw [Option.map_some, Text.foldl_eq_ofDigits, denoted, List.map_reverse]
  · rfl

/-! ## Names -/

/-- Two texts have the same letters, in whichever case. -/
def SameLetters (s t : List Char) : Prop :=
  s.map Char.toUpper = t.map Char.toUpper

instance (s t : List Char) : Decidable (SameLetters s t) :=
  inferInstanceAs (Decidable (s.map Char.toUpper = t.map Char.toUpper))

/-- What is written in small letters has the same letters as exactly the texts that become it. -/
theorem sameLetters_iff {w : List Char} (hw : w.map Char.toLower = w) :
    SameLetters s w ↔ s.map Char.toLower = w := by
  constructor
  · intro hsame
    have hlower := congrArg (List.map Char.toLower) hsame
    rw [List.map_map, List.map_map] at hlower
    have hcomp : Char.toLower ∘ Char.toUpper = Char.toLower :=
      funext Char.toLower_toUpper_eq_toLower
    rwa [hcomp, hw] at hlower
  · rintro rfl
    have hcomp : Char.toUpper ∘ Char.toLower = Char.toUpper :=
      funext Char.toUpper_toLower_eq_toUpper
    rw [SameLetters, List.map_map, hcomp]

/-- **A name is found by the texts with its letters.** -/
theorem lookup_eq_some_iff :
    named.lookup (String.ofList (s.map Char.toLower)) = some c ↔
      ∃ word, (word, c) ∈ named ∧ SameLetters s word.toList := by
  have hsmall : ∀ p ∈ named, p.1.toList.map Char.toLower = p.1.toList := by decide +kernel
  have hself : ∀ p ∈ named, named.lookup p.1 = some p.2 := by decide +kernel
  constructor
  · intro hlookup
    obtain ⟨before, after, hsplit, -⟩ := List.lookup_eq_some_iff.mp hlookup
    have hmem : (String.ofList (s.map Char.toLower), c) ∈ named :=
      hsplit ▸ List.mem_append_right before List.mem_cons_self
    exact ⟨_, hmem, (sameLetters_iff (hsmall _ hmem)).mpr String.toList_ofList.symm⟩
  · rintro ⟨word, hmem, hsame⟩
    rw [(sameLetters_iff (hsmall _ hmem)).mp hsame, String.ofList_toList]
    exact hself _ hmem

/-! ## Spellings -/

/-- The texts that stand for a color. -/
inductive Spells : List Char → Color → Prop where
  | eight (h : List Char) (c : Color) :
      h.length = 8 → (∀ d ∈ h, IsHexDigit d) → c.argb.toNat = denoted h → Spells ('#' :: h) c
  | six (h : List Char) (c : Color) :
      h.length = 6 → (∀ d ∈ h, IsHexDigit d) → c.argb.toNat = denoted ('F' :: 'F' :: h) →
      Spells ('#' :: h) c
  | name (s : List Char) (word : String) (c : Color) :
      (word, c) ∈ named → SameLetters s word.toList → Spells s c

theorem not_sameLetters_of_number_sign {word : String} (hmem : (word, c) ∈ named) :
    ¬ SameLetters ('#' :: h) word.toList := by
  have hall : ∀ p ∈ named, '#' ∉ p.1.toList.map Char.toUpper := by decide +kernel
  intro hsame
  refine hall _ hmem ?_
  rw [← hsame]
  exact List.mem_cons_self

theorem argb_eq_iff {n : ℕ} (hn : n < 2 ^ 32) :
    (⟨UInt32.ofNat n⟩ : Color) = c ↔ c.argb.toNat = n := by
  obtain ⟨argb⟩ := c
  rw [Color.mk.injEq, ← UInt32.toNat_inj, UInt32.toNat_ofNat_of_lt' hn, eq_comm]

theorem denoted_full (h : List Char) (hlength : h.length = 6) :
    denoted ('F' :: 'F' :: h) = 0xFF000000 + denoted h := by
  rw [show 'F' :: 'F' :: h = ['F', 'F'] ++ h from rfl, denoted_append, hlength]
  rfl

/-- What follows a number sign is read if it has the length of a spelling and denotes a number. -/
theorem read?_number_sign :
    read? ('#' :: h) = some c ↔ (∀ d ∈ h, IsHexDigit d) ∧
      (h.length = 8 ∧ c.argb.toNat = denoted h ∨
        h.length = 6 ∧ c.argb.toNat = denoted ('F' :: 'F' :: h)) := by
  rw [read?, ofHex?_eq]
  by_cases hhex : ∀ d ∈ h, IsHexDigit d
  · have hlt := denoted_lt hhex
    rw [if_pos hhex, and_iff_right hhex]
    split
    case h_1 hlength =>
      rw [hlength] at hlt
      rw [Option.map_some, Option.some.injEq, argb_eq_iff (by omega), denoted_full h hlength]
      simp [hlength]
    case h_2 hlength =>
      rw [hlength] at hlt
      rw [Option.map_some, Option.some.injEq, argb_eq_iff (by omega)]
      simp [hlength]
    case h_3 hsix height => simp [show h.length ≠ 6 from hsix, show h.length ≠ 8 from height]
  · rw [if_neg hhex]
    split <;> simp [hhex]

/-- **Exactly the spellings of a color are read as the color.** -/
theorem read?_eq_some_iff : read? s = some c ↔ Spells s c := by
  by_cases hsign : ∃ h, s = '#' :: h
  · obtain ⟨h, rfl⟩ := hsign
    rw [read?_number_sign]
    constructor
    · rintro ⟨hhex, ⟨hlength, hvalue⟩ | ⟨hlength, hvalue⟩⟩
      · exact .eight h c hlength hhex hvalue
      · exact .six h c hlength hhex hvalue
    · rintro (⟨_, _, hlength, hhex, hvalue⟩ | ⟨_, _, hlength, hhex, hvalue⟩ |
        ⟨_, word, _, hmem, hsame⟩)
      · exact ⟨hhex, .inl ⟨hlength, hvalue⟩⟩
      · exact ⟨hhex, .inr ⟨hlength, hvalue⟩⟩
      · exact absurd hsame (not_sameLetters_of_number_sign hmem)
  · have hname : read? s = named.lookup (String.ofList (s.map Char.toLower)) := by
      rw [read?]
      exact fun h hs => hsign ⟨h, hs⟩
    rw [hname, lookup_eq_some_iff]
    constructor
    · rintro ⟨word, hmem, hsame⟩
      exact .name s word c hmem hsame
    · rintro (⟨h, _, -⟩ | ⟨h, _, -⟩ | ⟨_, word, _, hmem, hsame⟩)
      · exact absurd ⟨h, rfl⟩ hsign
      · exact absurd ⟨h, rfl⟩ hsign
      · exact ⟨word, hmem, hsame⟩

/-! ## Writing -/

/-- The last digits of a number denote what is left of it. -/
theorem hexDigits_spec (count n : ℕ) :
    (hexDigits count n).length = count ∧ (∀ d ∈ hexDigits count n, d ∈ alphabet) ∧
      denoted (hexDigits count n) = n % 16 ^ count := by
  have hdigit : ∀ v : Fin 16, hexDigit v ∈ alphabet ∧ denoted [hexDigit v] = v := by
    decide +kernel
  induction count generalizing n with
  | zero => exact ⟨rfl, by simp [hexDigits], by rw [pow_zero, Nat.mod_one]; rfl⟩
  | succ count ih =>
    obtain ⟨hlength, hmem, hvalue⟩ := ih (n / 16)
    obtain ⟨hlast, hworth⟩ := hdigit ⟨n % 16, Nat.mod_lt n (by decide)⟩
    rw [hexDigits]
    refine ⟨by rw [List.length_append, hlength, List.length_singleton], fun d hd => ?_, ?_⟩
    · rcases List.mem_append.mp hd with hd | hd
      · exact hmem d hd
      · rwa [List.mem_singleton.mp hd]
    · rw [denoted_append, hvalue, hworth, List.length_singleton, pow_one, pow_succ', Nat.mod_mul,
        Nat.mul_comm, Nat.add_comm]

theorem isHexDigit_of_mem (hd : d ∈ alphabet) : IsHexDigit d := by
  have hall : alphabet.all fun a => decide (IsHexDigit a) := by decide +kernel
  exact of_decide_eq_true (List.all_eq_true.mp hall d hd)

/-- **A color is written with eight capital digits**, which denote it. -/
theorem exists_toText (c : Color) :
    ∃ h, c.toText.toList = '#' :: h ∧ h.length = 8 ∧ (∀ d ∈ h, d ∈ alphabet) ∧
      c.argb.toNat = denoted h := by
  obtain ⟨hlength, hmem, hvalue⟩ := hexDigits_spec 8 c.argb.toNat
  refine ⟨_, by rw [toText, String.toList_ofList], hlength, hmem, ?_⟩
  have hlt : c.argb.toNat < 16 ^ 8 := c.argb.toNat_lt
  rw [hvalue, Nat.mod_eq_of_lt hlt]

theorem spells_toText (c : Color) : Spells c.toText.toList c := by
  obtain ⟨h, htext, hlength, hmem, hvalue⟩ := exists_toText c
  rw [htext]
  exact .eight h c hlength (fun d hd => isHexDigit_of_mem (hmem d hd)) hvalue

/-! ## What no spelling holds -/

/-- The characters that spellings consist of. -/
def IsPlain (d : Char) : Prop :=
  d.toNat < 128 ∧ (d = '#' ∨ d.isAlphanum = true)

theorem isPlain_of_toUpper (hd : (d.toUpper.toNat < 128 && d.toUpper.isAlphanum) = true) :
    IsPlain d := by
  rw [Bool.and_eq_true, decide_eq_true_eq] at hd
  have hall : ∀ n : Fin 128, (Char.ofNat n).toUpper.isAlphanum = true →
      (Char.ofNat n).isAlphanum = true := by decide +kernel
  have hascii : d.toNat < 128 := by
    by_contra hge
    rw [toUpper_of_not_ascii (not_lt.mp hge)] at hd
    exact hge hd.1
  have hd' := hall ⟨d.toNat, hascii⟩
  rw [Char.ofNat_toNat] at hd'
  exact ⟨hascii, .inr (hd' hd.2)⟩

/-- **A spelling consists of ASCII letters, digits and the number sign.** -/
theorem Spells.isPlain (hspells : Spells s c) : ∀ d ∈ s, IsPlain d := by
  have hdigits : alphabet.all fun a => a.toNat < 128 && a.isAlphanum := by decide +kernel
  have hnames : ∀ p ∈ named,
      (p.1.toList.map Char.toUpper).all fun a => a.toNat < 128 && a.isAlphanum := by
    decide +kernel
  rw [List.all_eq_true] at hdigits
  have hsign : IsPlain '#' := ⟨by decide, .inl rfl⟩
  intro d hd
  rcases hspells with ⟨h, _, -, hhex, -⟩ | ⟨h, _, -, hhex, -⟩ | ⟨_, word, _, hmem, hsame⟩
  · rcases List.mem_cons.mp hd with rfl | hd
    · exact hsign
    · exact isPlain_of_toUpper (hdigits _ (hhex d hd))
  · rcases List.mem_cons.mp hd with rfl | hd
    · exact hsign
    · exact isPlain_of_toUpper (hdigits _ (hhex d hd))
  · have hupper : d.toUpper ∈ word.toList.map Char.toUpper := hsame ▸ List.mem_map_of_mem hd
    exact isPlain_of_toUpper (List.all_eq_true.mp (hnames _ hmem) _ hupper)

/-- A sign, a blank or a character beyond ASCII. -/
def IsForeign (d : Char) : Prop :=
  d = '+' ∨ d = '-' ∨ Text.isBlank d = true ∨ 128 ≤ d.toNat

theorem IsPlain.not_isForeign (hd : IsPlain d) : ¬ IsForeign d := by
  have hblank : ∀ n : Fin 128, Text.isBlank (Char.ofNat n) = true →
      Char.ofNat n ≠ '#' ∧ (Char.ofNat n).isAlphanum = false := by decide +kernel
  obtain ⟨hascii, hplain⟩ := hd
  rintro (rfl | rfl | hd | hd)
  · exact absurd hplain (by decide)
  · exact absurd hplain (by decide)
  · have hd' := hblank ⟨d.toNat, hascii⟩
    rw [Char.ofNat_toNat] at hd'
    rcases hplain with hplain | hplain
    · exact (hd' hd).1 hplain
    · exact absurd hplain (Bool.eq_false_iff.mp (hd' hd).2)
  · exact absurd hascii (not_lt.mpr hd)

/-! ## The spellings together -/

theorem eq_none_of_not_spells (hno : ∀ c, ¬ Spells s c) : read? s = none := by
  cases hread : read? s with
  | none => rfl
  | some c => exact absurd (read?_eq_some_iff.mp hread) (hno c)

theorem exists_argb {n : ℕ} (hn : n < 2 ^ 32) : ∃ c : Color, c.argb.toNat = n :=
  ⟨⟨UInt32.ofNat n⟩, (argb_eq_iff hn).mp rfl⟩

/-- Digits of the right number always stand for some color. -/
theorem exists_read?_iff :
    (∃ c, read? s = some c) ↔
      (∃ h, s = '#' :: h ∧ (h.length = 6 ∨ h.length = 8) ∧ ∀ d ∈ h, IsHexDigit d) ∨
        ∃ word c, (word, c) ∈ named ∧ SameLetters s word.toList := by
  constructor
  · rintro ⟨c, hread⟩
    rcases read?_eq_some_iff.mp hread with ⟨h, _, hlength, hhex, -⟩ | ⟨h, _, hlength, hhex, -⟩ |
      ⟨_, word, _, hmem, hsame⟩
    · exact .inl ⟨h, rfl, .inr hlength, hhex⟩
    · exact .inl ⟨h, rfl, .inl hlength, hhex⟩
    · exact .inr ⟨word, c, hmem, hsame⟩
  · rintro (⟨h, rfl, hlength | hlength, hhex⟩ | ⟨word, c, hmem, hsame⟩)
    · have hlt := denoted_lt hhex
      rw [hlength] at hlt
      obtain ⟨c, hc⟩ := exists_argb (n := denoted ('F' :: 'F' :: h))
        (by rw [denoted_full h hlength]; omega)
      exact ⟨c, read?_eq_some_iff.mpr (.six h c hlength hhex hc)⟩
    · have hlt := denoted_lt hhex
      rw [hlength] at hlt
      obtain ⟨c, hc⟩ := exists_argb (n := denoted h) (by omega)
      exact ⟨c, read?_eq_some_iff.mpr (.eight h c hlength hhex hc)⟩
    · exact ⟨c, read?_eq_some_iff.mpr (.name s word c hmem hsame)⟩

/-- Six digits stand for the same color with two digits for full alpha before them. -/
theorem read?_six (hlength : h.length = 6) : read? ('#' :: h) = read? ('#' :: 'F' :: 'F' :: h) := by
  have hfull : IsHexDigit 'F' := isHexDigit_of_mem (by decide)
  refine Option.ext fun c => ?_
  rw [read?_number_sign, read?_number_sign]
  simp [hlength, hfull]

/-- **Colors are written and read by their spellings, and nothing else is read.**

* The text of a color is the number sign and eight capital digits that denote the color, and it is
  read as the color again.
* A text is read if and only if it is the number sign and six or eight digits of either case, or a
  name in letters of either case, and it is read as the color that it spells.
* Six digits are read as the same digits after `FF`.
* A text with a sign, a blank or a character beyond ASCII is refused, and so are digits of another
  number. -/
theorem spelled_exactly :
    (∀ c : Color, (∃ h, c.toText.toList = '#' :: h ∧ h.length = 8 ∧ (∀ d ∈ h, d ∈ alphabet) ∧
      c.argb.toNat = denoted h) ∧ read? c.toText.toList = some c) ∧
    (∀ s : String, (∃ c, read? s.toList = some c) ↔
      (∃ h, s.toList = '#' :: h ∧ (h.length = 6 ∨ h.length = 8) ∧ ∀ d ∈ h, IsHexDigit d) ∨
        ∃ word c, (word, c) ∈ named ∧ SameLetters s.toList word.toList) ∧
    (∀ (s : String) (c : Color), read? s.toList = some c ↔ Spells s.toList c) ∧
    (∀ h : List Char, h.length = 6 → read? ('#' :: h) = read? ('#' :: 'F' :: 'F' :: h)) ∧
    (∀ s : String, (∃ d ∈ s.toList, IsForeign d) → read? s.toList = none) ∧
    ∀ h : List Char, h.length ≠ 6 → h.length ≠ 8 → read? ('#' :: h) = none := by
  refine ⟨fun c => ⟨exists_toText c, read?_eq_some_iff.mpr (spells_toText c)⟩,
    fun s => exists_read?_iff, fun s c => read?_eq_some_iff, fun h => read?_six, ?_, ?_⟩
  · rintro s ⟨d, hd, hforeign⟩
    exact eq_none_of_not_spells fun c hspells => (hspells.isPlain d hd).not_isForeign hforeign
  · intro h hsix height
    refine Option.eq_none_iff_forall_ne_some.mpr fun c hread => ?_
    rcases (read?_number_sign.mp hread).2 with ⟨hlength, -⟩ | ⟨hlength, -⟩
    · exact height hlength
    · exact hsix hlength

/-- Six digits in letters of both cases, a sign before digits, and five digits. -/
theorem spelled_exactly_of_short_digits :
    read? "#00aBcD".toList = read? "#FF00aBcD".toList ∧
      read? "#FF00aBcD".toList = some ⟨0xFF00ABCD⟩ ∧
      read? "#+00ABCD".toList = none ∧ read? "#00ABC".toList = none :=
  ⟨spelled_exactly.2.2.2.1 "00aBcD".toList (by decide +kernel), by decide +kernel,
    spelled_exactly.2.2.2.2.1 "#+00ABCD" ⟨'+', by decide +kernel, .inl rfl⟩,
    spelled_exactly.2.2.2.2.2 "00ABC".toList (by decide +kernel) (by decide +kernel)⟩

end Color
end SpecOverlay
