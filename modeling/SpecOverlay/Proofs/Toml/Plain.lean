import SpecOverlay.Proofs.Dimension.WholePixels
import SpecOverlay.Proofs.Number.Double
import SpecOverlay.Proofs.Toml.Sections
import SpecOverlay.Toml.Plain

/-!
# The plain codec is lawful

A number that is written is read as the value that it is written for (`spells_text`).  For a finite
single-precision number this is so because the digits that are written lie in the interval of the
widened number, and what lies there is read as that number.  The infinities and the zeros have texts
of their own.

The records of a document are its sections (`toList_write`), so all numbers together are read back
(`plain_lawful`).
-/

namespace SpecOverlay
namespace Toml

open Float.Model UnpackedFloat
open Double (decode decode_inj)
open Shortest (positionalOfDouble)

variable {x : Float32} {s : Sign} {m : ℕ} {e : ℤ} {hm : 0 < m} {number : Number} {records : Records}

/-! ## Numbers -/

/-- A sign is written as it is read. -/
theorem exists_signText (s : Sign) : ∃ negative, Shortest.signText s = signText negative ∧
    ∀ whole fraction, (decimalOf negative whole fraction).sign = s := by
  cases s with
  | positive => exact ⟨false, rfl, fun _ _ => rfl⟩
  | negative => exact ⟨true, rfl, fun _ _ => rfl⟩

/-- **The digits of a finite number are read as the number.** -/
theorem spells_finite (hx : Single.decode x = .finite s m e hm) :
    Spells (positionalOfDouble (Single.toDouble x)).toList (.float (Single.toDouble x)) := by
  obtain ⟨m', e', hinside, hdecode, -⟩ := Double.exists_decode_toDouble hx
  obtain ⟨c, k, hdigits, hc, howns⟩ :=
    Shortest.exists_digits Format.binary64 hinside.full.pos e'
  obtain ⟨whole, fraction, htext, hdenotes⟩ := Shortest.exists_positional hc k
  obtain ⟨negative, hsignText, hsign⟩ := exists_signText s
  have hvalue : ((decimalOf negative whole fraction).coefficient : ℚ) *
      10 ^ (decimalOf negative whole fraction).exponent = c * 10 ^ k := hdenotes.value_eq
  have hcoefficient : 0 < (decimalOf negative whole fraction).coefficient := by
    refine Nat.pos_of_ne_zero fun hzero => ?_
    have hpos : (0 : ℚ) < c * 10 ^ k := by positivity
    rw [← hvalue, hzero, Nat.cast_zero, zero_mul] at hpos
    exact lt_irrefl 0 hpos
  have hread := Double.decode_decimal hinside (decimalOf negative whole fraction) hcoefficient
    (hvalue ▸ howns)
  rw [hsign, ← hdecode] at hread
  have hspells := spells_numeral hdenotes.toIsNumeral negative
    (Double.beq_infinity_of_decode (hread.trans hdecode))
  rw [decode_inj.mp hread] at hspells
  have hdouble : positionalOfDouble (Single.toDouble x) =
      String.ofList (signText negative ++ (whole ++ '.' :: fraction)) := by
    rw [positionalOfDouble, ← decode, hdecode]
    simp only [hdigits, htext, hsignText]
  rwa [hdouble, String.toList_ofList]

theorem spells_zero (hx : Single.decode x = .zero s) :
    Spells (positionalOfDouble (Single.toDouble x)).toList (.float (Single.toDouble x)) := by
  have hdecode : decode (Single.toDouble x) = .zero s := by
    rw [Double.decode_toDouble, hx]
    cases s <;> rfl
  have hzero : Shortest.IsNumeral ['0'] ['0'] :=
    ⟨nofun, Shortest.isDigit_of_mem_zeros 1, fun _ => rfl, nofun, Shortest.isDigit_of_mem_zeros 1⟩
  rw [positionalOfDouble, ← decode, hdecode, String.toList_ofList]
  cases s with
  | positive =>
    have hread : (decimalOf false ['0'] ['0']).toDouble = Single.toDouble x :=
      decode_inj.mp (hdecode ▸ rfl)
    exact hread ▸ spells_numeral hzero false rfl
  | negative =>
    have hread : (decimalOf true ['0'] ['0']).toDouble = Single.toDouble x :=
      decode_inj.mp (hdecode ▸ rfl)
    exact hread ▸ spells_numeral hzero true rfl

theorem spells_infinite (hx : Single.decode x = .infinity s) :
    Spells (positionalOfDouble (Single.toDouble x)).toList (.float (Single.toDouble x)) := by
  have hdecode : decode (Single.toDouble x) = .infinity s := by
    rw [Double.decode_toDouble, hx]
    cases s <;> rfl
  rw [positionalOfDouble, ← decode, hdecode, String.toList_ofList]
  cases s with
  | positive =>
    have hread : (1 / 0 : Float) = Single.toDouble x := decode_inj.mp (hdecode ▸ rfl)
    exact hread ▸ spells_infinity false
  | negative =>
    have hread : (-1 / 0 : Float) = Single.toDouble x := decode_inj.mp (hdecode ▸ rfl)
    exact hread ▸ spells_infinity true

/-- **A number is read from its text.** -/
theorem spells_text (h : number.IsNumber) : Spells number.text.toList number.toValue := by
  cases number with
  | single negative x =>
    have htext : (Number.single negative x).text = positionalOfDouble (Single.toDouble x) := by
      rw [Number.text, Bool.eq_false_of_not_eq_true h]
      rfl
    rw [htext]
    cases hx : Single.decode x with
    | notANumber => exact absurd (Dimension.isNaN_iff.mpr hx) h
    | infinity s => exact spells_infinite hx
    | zero s => exact spells_zero hx
    | finite s m e hm => exact spells_finite hx
  | word n =>
    have htext : (Number.word n).text.toList = Nat.toDigits 10 n.toNat := String.toList_ofList
    have hlt := n.toNat_lt
    rw [htext]
    exact spells_integer (by omega)

/-! ## Records -/

/-- A number with its key as a field. -/
def fieldOf (f : String × Number) : Field :=
  ⟨f.1, f.2.text.toList, f.2.toValue⟩

/-- A record as a section. -/
def sectionOf (gap : Bool) (r : String × List (String × Number)) : TableSection :=
  ⟨gap, r.1, r.2.map fieldOf⟩

/-- Records as sections, with a blank line in front of each but the first. -/
def sectionsOf : Records → List TableSection
  | [] => []
  | r :: records => sectionOf false r :: records.map (sectionOf true)

theorem toList_tableText (gap : Bool) (r : String × List (String × Number)) :
    (if gap then ['\n'] else []) ++ (tableText r.1 r.2).toList =
      (sectionOf gap r).lines.flatMap Line.text := by
  have hfields : (String.join (r.2.map fun f => assignment f.1 f.2.text)).toList =
      ((sectionOf gap r).fields.map Field.line).flatMap Line.text := by
    simp [sectionOf, fieldOf, Field.line, Line.text, assignment, List.flatMap_map]
  rw [tableText, String.toList_append, hfields, TableSection.lines, List.flatMap_cons]
  simp only [Line.text, sectionOf, String.toList_append, List.append_assoc, List.cons_append]
  rfl

/-- **What is written for records are their sections.** -/
theorem toList_write (records : Records) :
    (write records).toList = sectionsText (sectionsOf records) := by
  cases records with
  | nil => rfl
  | cons r records =>
    have hrest : (String.join (records.map fun r => "\n" ++ tableText r.1 r.2)).toList =
        sectionsText (records.map (sectionOf true)) := by
      rw [String.toList_join, List.flatMap_map, sectionsText, List.flatMap_map,
        List.flatMap_assoc]
      refine List.flatMap_congr fun r _ => ?_
      rw [String.toList_append, ← toList_tableText true]
      rfl
    have hsections : sectionsText (sectionsOf (r :: records)) =
        (sectionOf false r).lines.flatMap Line.text ++
          sectionsText (records.map (sectionOf true)) := by
      rw [sectionsOf, sectionsText, List.flatMap_cons, List.flatMap_append, ← sectionsText]
    rw [write, String.toList_append, hrest, hsections, ← toList_tableText false]
    rfl

theorem map_sectionsOf {β : Type} {f : TableSection → β} {g : String × List (String × Number) → β}
    (h : ∀ gap r, f (sectionOf gap r) = g r) (records : Records) :
    (sectionsOf records).map f = records.map g := by
  cases records with
  | nil => rfl
  | cons r records =>
    rw [sectionsOf, List.map_cons, List.map_cons, h, List.map_map]
    exact congrArg (g r :: ·) (List.map_congr_left fun r _ => h true r)

theorem mem_sectionsOf {t : TableSection} (h : t ∈ sectionsOf records) :
    ∃ gap, ∃ r ∈ records, t = sectionOf gap r := by
  cases records with
  | nil => nomatch h
  | cons r records =>
    rcases List.mem_cons.mp h with rfl | h
    · exact ⟨false, r, List.mem_cons_self, rfl⟩
    · obtain ⟨r, hr, rfl⟩ := List.mem_map.mp h
      exact ⟨true, r, List.mem_cons_of_mem _ hr, rfl⟩

/-- Plain records are valid sections. -/
theorem Records.IsPlain.valid (h : records.IsPlain) : ∀ t ∈ sectionsOf records, t.Valid := by
  intro t ht
  obtain ⟨gap, r, hr, rfl⟩ := mem_sectionsOf ht
  refine ⟨List.forall_mem_cons.mpr ⟨h.bare_name r hr, List.forall_mem_map.mpr ?_⟩, ?_⟩
  · exact List.forall_mem_map.mpr fun f hf => ⟨h.bare_key r hr f hf, spells_text (h.number r hr f hf)⟩
  · have hkeys : ((sectionOf gap r).fields.map Field.key) = r.2.map Prod.fst := List.map_map
    rw [hkeys]
    exact h.keys r hr

theorem read?_write (h : records.IsPlain) : read? (write records) = some records.toFields := by
  have htables : (sectionsOf records).map TableSection.table = records.toFields :=
    map_sectionsOf (fun gap r => by simp [sectionOf, fieldOf, TableSection.table, Field.pair]) records
  have hnames : ((sectionsOf records).map TableSection.name).Nodup := by
    rw [map_sectionsOf (g := Prod.fst) fun gap r => rfl]
    exact h.names
  have hread := read?_sections h.valid hnames
  rwa [← toList_write, String.ofList_toList, htables] at hread

/-! ## Values -/

theorem single?_iff {v : Value} : v.single? = some x ↔ IsSingle v x := by
  constructor
  · intro h
    cases v with
    | float y =>
      obtain rfl := Option.some.inj h
      exact .float y
    | integer n =>
      obtain rfl := Option.some.inj h
      exact .integer n
    | notANumber negative =>
      obtain rfl := Option.some.inj h
      exact .notANumber negative
    | string | boolean | dateTime | array | table => nomatch h
  · rintro (_ | _ | _) <;> rfl

theorem word?_iff {v : Value} {n : UInt32} : v.word? = some n ↔ IsWord v n := by
  constructor
  · intro h
    cases v with
    | integer k =>
      rw [Value.word?] at h
      split at h
      case isTrue hk =>
        obtain rfl := Option.some.inj h
        have hvalue : ((UInt32.ofNat k.toNat).toNat : ℤ) = k := by
          rw [UInt32.toNat_ofNat']
          omega
        have hword := IsWord.integer (UInt32.ofNat k.toNat)
        rwa [hvalue] at hword
      case isFalse => nomatch h
    | float | notANumber | string | boolean | dateTime | array | table => nomatch h
  · rintro ⟨⟩
    have hlt := n.toNat_lt
    rw [Value.word?, if_pos (by omega), Int.toNat_natCast, UInt32.ofNat_toNat]

theorem plain_read? : plain.read? = read? := rfl

/-- **The plain codec does what is expected of a codec.** -/
theorem plain_lawful : plain.Lawful where
  read_write r h := ⟨write r, rfl, read?_write h⟩
  fields_table _ _ := rfl
  single_iff _ _ := single?_iff
  word_iff _ _ := word?_iff
  optional_none _ _ := rfl
  optional_some _ _ _ := rfl

end Toml
end SpecOverlay
