import SpecOverlay.Number.Decimal
import SpecOverlay.Number.Shortest
import SpecOverlay.Proofs.Number.Precision

/-!
# Shortest decimals

The search walks from coarse grids to fine ones.  A point of a grid that it takes lies in the
interval (`Interval.gridPoint?_mem`), and it finds one at the latest where the grid holds the number
exactly (`Interval.isSome_gridPoint?`, `exists_coarsest`, by induction on the steps).  So the digits
that are found make a decimal that the number owns: it is rounded to that number again
(`exists_digits`).

Written with a point, these digits are a numeral without a superfluous zero in front, and it denotes
the same decimal (`exists_positional`).
-/

namespace SpecOverlay
namespace Shortest

open Float.Model (Format)
open Precision (Owns width)

variable {i : Interval} {k b : ℤ} {c m : ℕ} {e : ℤ} {format : Format}

/-! ## Points in the interval -/

/-- What an end of an interval is multiplied with on a grid. -/
def stretch (k : ℤ) : ℕ :=
  10 ^ (-k).toNat

/-- The distance of two points of a grid. -/
def Interval.step (i : Interval) (k : ℤ) : ℕ :=
  i.unit * 10 ^ k.toNat

/-- **A point that is taken lies in the interval**, and at an end only if the ends belong to it. -/
theorem Interval.gridPoint?_mem (hunit : 0 < i.unit) (hlow : i.low < i.value)
    (hhigh : i.value < i.high) (h : i.gridPoint? k = some c) :
    i.low * stretch k ≤ c * i.step k ∧ c * i.step k ≤ i.high * stretch k ∧
      (c * i.step k = i.low * stretch k ∨ c * i.step k = i.high * stretch k → i.closed) := by
  have hstep : 0 < i.step k := Nat.mul_pos hunit (Nat.pow_pos (by decide))
  have hstretch : 0 < stretch k := Nat.pow_pos (by decide)
  have hle : i.value * stretch k / i.step k * i.step k ≤ i.value * stretch k :=
    Nat.div_mul_le_self _ _
  have hlt : i.value * stretch k < (i.value * stretch k / i.step k + 1) * i.step k := by
    rw [Nat.mul_comm (_ + 1)]
    exact Nat.lt_mul_div_succ _ hstep
  have hlow' := Nat.mul_lt_mul_of_pos_right hlow hstretch
  have hhigh' := Nat.mul_lt_mul_of_pos_right hhigh hstretch
  simp only [gridPoint?, Nat.pow_eq] at h
  rw [← stretch, ← step] at h
  -- one of the two ends is kept away from by the value, and the other one has been compared
  split_ifs at h with hlower hboth hupper <;> obtain rfl := Option.some.inj h
  · rcases hboth.1 with hupper | ⟨hclosed, hupper⟩
    · exact ⟨by omega, by omega, by omega⟩
    · exact ⟨by omega, by omega, fun _ => hclosed⟩
  · rcases hlower with hlower | ⟨hclosed, hlower⟩
    · exact ⟨by omega, by omega, by omega⟩
    · exact ⟨by omega, by omega, fun _ => hclosed⟩
  · rcases hupper with hupper | ⟨hclosed, hupper⟩
    · exact ⟨by omega, by omega, by omega⟩
    · exact ⟨by omega, by omega, fun _ => hclosed⟩

/-- A grid that holds the number itself has a point in the interval. -/
theorem Interval.isSome_gridPoint? (hlow : i.low < i.value)
    (hdvd : i.step k ∣ i.value * stretch k) : (i.gridPoint? k).isSome := by
  have hlt : i.low * stretch k < i.value * stretch k :=
    Nat.mul_lt_mul_of_pos_right hlow (Nat.pow_pos (by decide))
  have hexact : i.value * stretch k / i.step k * i.step k = i.value * stretch k :=
    Nat.div_mul_cancel hdvd
  simp only [gridPoint?, Nat.pow_eq]
  rw [← stretch, ← step, if_pos (.inl (by rw [hexact]; exact hlt))]
  split <;> rfl

/-- **The search finds a point** if it comes down to grids that have one. -/
theorem exists_coarsest (hfine : ∀ k ≤ b, (i.gridPoint? k).isSome) {steps : ℕ} (hsteps : 0 < steps)
    (hk : k + 1 - steps ≤ b) : ∃ c k', coarsest i steps k = ⟨c, k'⟩ ∧ i.gridPoint? k' = some c := by
  induction steps generalizing k with
  | zero => exact absurd hsteps (Nat.lt_irrefl 0)
  | succ steps ih =>
    rw [coarsest]
    cases hpoint : i.gridPoint? k with
    | some c => exact ⟨c, k, rfl, hpoint⟩
    | none =>
      have hcoarse : b < k := not_le.mp fun hle => by
        have hsome := hfine k hle
        rw [hpoint] at hsome
        nomatch hsome
      exact ih (by omega) (by omega)

/-! ## The interval of a number -/

/-- The common factor of an interval. -/
def factor (e : ℤ) : ℕ :=
  2 ^ (e - 2).toNat

theorem zpow_mul_toNat {a : ℚ} (ha : a ≠ 0) (j : ℤ) : a ^ j * a ^ (-j).toNat = a ^ j.toNat := by
  rw [← zpow_natCast, ← zpow_natCast, ← zpow_add₀ ha]
  congr 1
  omega

/-- How many quarters of a unit the lower end is away. -/
def lowerGap (format : Format) (m : ℕ) (e : ℤ) : ℕ :=
  if m = 2 ^ width format ∧ format.minExponent < e then 1 else 2

theorem Interval.of_eq (format : Format) (m : ℕ) (e : ℤ) :
    (Interval.of format m e).low = (4 * m - lowerGap format m e) * factor e ∧
      (Interval.of format m e).value = 4 * m * factor e ∧
      (Interval.of format m e).high = (4 * m + 2) * factor e ∧
      (Interval.of format m e).unit = 2 ^ (2 - e).toNat ∧
      (Interval.of format m e).closed = decide (m % 2 = 0) := by
  refine ⟨?_, rfl, rfl, rfl, rfl⟩
  have hwidth : Nat.pow 2 (format.mantissaBits - 1) = 2 ^ width format := by
    rw [Nat.pow_eq, Format.mantissaBits, Nat.add_sub_cancel_left]
  simp only [Interval.of, hwidth, lowerGap]
  rfl

/-- The grid of the least power of ten that is needed holds the number. -/
theorem step_dvd (hk : k ≤ min 0 e) :
    (Interval.of format m e).step k ∣ (Interval.of format m e).value * stretch k := by
  have hstep : (Interval.of format m e).step k = 2 ^ (2 - e).toNat := by
    rw [Interval.step, show k.toNat = 0 by omega, pow_zero, mul_one]
    rfl
  have hvalue : (Interval.of format m e).value * stretch k =
      2 ^ (2 + (e - 2).toNat + (-k).toNat) * (m * 5 ^ (-k).toNat) := by
    have hten : (10 : ℕ) ^ (-k).toNat = 2 ^ (-k).toNat * 5 ^ (-k).toNat := by
      rw [← mul_pow]
      norm_num
    show 4 * m * 2 ^ (e - 2).toNat * 10 ^ (-k).toNat = _
    rw [hten, pow_add, pow_add]
    ring
  rw [hstep, hvalue]
  exact Dvd.dvd.mul_right (pow_dvd_pow 2 (by omega)) _

/-- The denominator over which the ends of an interval are compared with the points of a grid. -/
def common (e k : ℤ) : ℚ :=
  2 ^ (2 - e).toNat * 10 ^ (-k).toNat

theorem common_pos (e k : ℤ) : 0 < common e k := by
  rw [common]
  positivity

theorem cast_end (n : ℕ) (e k : ℤ) :
    ((n * factor e * stretch k : ℕ) : ℚ) = n * 2 ^ (e - 2) * common e k := by
  have htwo : (2 : ℚ) ^ (e - 2) * 2 ^ (2 - e).toNat = 2 ^ (e - 2).toNat := by
    rw [← zpow_mul_toNat two_ne_zero (e - 2), neg_sub]
  rw [factor, stretch, common]
  push_cast
  rw [← htwo]
  ring

theorem cast_point (c : ℕ) (e k : ℤ) :
    ((c * (2 ^ (2 - e).toNat * 10 ^ k.toNat) : ℕ) : ℚ) = c * 10 ^ k * common e k := by
  have hten : (10 : ℚ) ^ k * 10 ^ (-k).toNat = 10 ^ k.toNat := zpow_mul_toNat (by norm_num) k
  rw [common]
  push_cast
  rw [← hten]
  ring

theorem end_le_point_iff {n : ℕ} : n * factor e * stretch k ≤ c * (2 ^ (2 - e).toNat * 10 ^ k.toNat) ↔
    (n : ℚ) * 2 ^ (e - 2) ≤ c * 10 ^ k := by
  rw [← Nat.cast_le (α := ℚ), cast_end, cast_point, mul_le_mul_iff_left₀ (common_pos e k)]

theorem point_le_end_iff {n : ℕ} : c * (2 ^ (2 - e).toNat * 10 ^ k.toNat) ≤ n * factor e * stretch k ↔
    (c : ℚ) * 10 ^ k ≤ n * 2 ^ (e - 2) := by
  rw [← Nat.cast_le (α := ℚ), cast_end, cast_point, mul_le_mul_iff_left₀ (common_pos e k)]

/-- What lies in the interval of a number is owned by it. -/
theorem owns_of_mem {v : ℚ} (hm : 0 < m)
    (hlow : ((4 * m - lowerGap format m e : ℕ) : ℚ) * 2 ^ (e - 2) ≤ v)
    (hhigh : v ≤ ((4 * m + 2 : ℕ) : ℚ) * 2 ^ (e - 2))
    (hends : v = ((4 * m - lowerGap format m e : ℕ) : ℚ) * 2 ^ (e - 2) ∨
      v = ((4 * m + 2 : ℕ) : ℚ) * 2 ^ (e - 2) → Even m) : Owns format m e v := by
  have hunit : (2 : ℚ) ^ e = 4 * 2 ^ (e - 2) := by
    rw [zpow_sub₀ two_ne_zero]
    norm_num
    ring
  have hquarter : (0 : ℚ) < 2 ^ (e - 2) := by positivity
  have hgap : lowerGap format m e = 1 ∨ lowerGap format m e = 2 := by
    rw [lowerGap]
    split
    · exact .inl rfl
    · exact .inr rfl
  have hcast : ((4 * m - lowerGap format m e : ℕ) : ℚ) = 4 * m - lowerGap format m e := by
    rw [Nat.cast_sub (by omega)]
    push_cast
    ring
  have hle : (lowerGap format m e : ℚ) ≤ 2 := by
    exact_mod_cast (by omega : lowerGap format m e ≤ 2)
  have hmul := mul_le_mul_of_nonneg_right hle hquarter.le
  rw [hcast] at hlow hends
  push_cast at hhigh hends
  constructor
  · rw [hunit]
    exact abs_le.mpr ⟨by linarith, by linarith⟩
  · intro htie
    rw [hunit] at htie
    rcases abs_eq (by positivity) |>.mp htie with habove | hbelow
    · exact hends (.inr (by linarith))
    · -- the lower end is as far away as the upper one
      refine hends (.inl ?_)
      linarith
  · intro hpower hleast
    have hone : lowerGap format m e = 1 := if_pos ⟨hpower, hleast⟩
    rw [hone] at hlow
    rw [hunit]
    push_cast at hlow
    linarith

/-- **The digits are those of a decimal that is rounded to the number.** -/
theorem exists_digits (format : Format) (hm : 0 < m) (e : ℤ) :
    ∃ c k, digits format m e = ⟨c, k⟩ ∧ 0 < c ∧ Owns format m e (c * 10 ^ k) := by
  obtain ⟨hlow, hvalue, hhigh, hunit, hclosed⟩ := Interval.of_eq format m e
  have hfactor : 0 < factor e := Nat.two_pow_pos _
  have hgap : 0 < lowerGap format m e ∧ lowerGap format m e < 4 * m := by
    rw [lowerGap]
    split <;> omega
  have hbelow : (Interval.of format m e).low < (Interval.of format m e).value := by
    rw [hlow, hvalue]
    exact Nat.mul_lt_mul_of_pos_right (by omega) hfactor
  have habove : (Interval.of format m e).value < (Interval.of format m e).high := by
    rw [hvalue, hhigh]
    exact Nat.mul_lt_mul_of_pos_right (by omega) hfactor
  have hfine (k : ℤ) (hk : k ≤ min 0 e) : ((Interval.of format m e).gridPoint? k).isSome :=
    Interval.isSome_gridPoint? hbelow (step_dvd hk)
  obtain ⟨c, k, hdigits, hpoint⟩ := exists_coarsest (k := decimalAbove (m.log2 + 1 + e))
    hfine (Nat.succ_pos (decimalAbove (m.log2 + 1 + e) - min 0 e).toNat) (by omega)
  obtain ⟨hle, hge, hends⟩ := Interval.gridPoint?_mem (by rw [hunit]; positivity) hbelow habove hpoint
  simp only [hlow, hhigh, Interval.step, hunit] at hle hge hends
  refine ⟨c, k, hdigits, Nat.pos_of_ne_zero fun hzero => ?_, ?_⟩
  · have hpos : 0 < (4 * m - lowerGap format m e) * factor e * stretch k :=
      Nat.mul_pos (Nat.mul_pos (by omega) hfactor) (Nat.pow_pos (by decide))
    rw [hzero, Nat.zero_mul] at hle
    omega
  · refine owns_of_mem hm (end_le_point_iff.mp hle) (point_le_end_iff.mp hge) fun hend => ?_
    have hinterval := hends (hend.imp
      (fun hlower => le_antisymm (point_le_end_iff.mpr hlower.le) (end_le_point_iff.mpr hlower.ge))
      fun hupper => le_antisymm (point_le_end_iff.mpr hupper.le) (end_le_point_iff.mpr hupper.ge))
    rw [hclosed, decide_eq_true_eq] at hinterval
    exact Nat.even_iff.mpr hinterval

/-! ## Digits with a point -/

/-- The digits of a numeral before and after its point.  The first digit is not a zero, unless there
is no other one before the point. -/
structure IsNumeral (whole fraction : List Char) : Prop where
  whole_ne_nil : whole ≠ []
  whole_digits : ∀ d ∈ whole, d.isDigit
  leading : whole.head? = some '0' → whole = ['0']
  fraction_ne_nil : fraction ≠ []
  fraction_digits : ∀ d ∈ fraction, d.isDigit

/-- A numeral and the decimal that it denotes. -/
structure Denotes (whole fraction : List Char) (c : ℕ) (k : ℤ) : Prop extends
    IsNumeral whole fraction where
  value_eq : (Decimal.ofDigits (whole ++ fraction) : ℚ) * 10 ^ (-(fraction.length : ℤ)) =
    c * 10 ^ k

/-- A number that is not zero has no zero in front. -/
theorem head?_toDigits_ne (hc : 0 < c) : (Nat.toDigits 10 c).head? ≠ some '0' := by
  induction c using Nat.strong_induction_on with
  | _ c ih =>
    rcases lt_or_ge c 10 with hlt | hge
    · rw [Nat.toDigits_of_lt_base hlt]
      interval_cases c <;> decide
    · have hquotient : 0 < c / 10 := Nat.div_pos hge (by decide)
      rw [Nat.toDigits_of_base_le (by decide) hge,
        List.head?_append_of_ne_nil _ Nat.toDigits_ne_nil]
      exact ih (c / 10) (Nat.div_lt_self hc (by decide)) hquotient

theorem isDigit_of_mem_toDigits (c : ℕ) : ∀ d ∈ Nat.toDigits 10 c, d.isDigit := fun _ hd =>
  Nat.isDigit_of_mem_toDigits (by decide) (by decide) hd

theorem isDigit_of_mem_zeros (n : ℕ) : ∀ d ∈ List.replicate n '0', d.isDigit := fun _ hd =>
  List.eq_of_mem_replicate hd ▸ rfl

theorem ofDigits_eq (digits : List Char) :
    Decimal.ofDigits digits = Nat.ofDigitChars 10 digits 0 :=
  Nat.ofDigitChars_eq_foldl.symm

theorem ofDigits_toDigits (c : ℕ) : Decimal.ofDigits (Nat.toDigits 10 c) = c :=
  (ofDigits_eq _).trans Nat.ofDigitChars_ten_toDigits

theorem ofDigits_zeros_append (n : ℕ) (digits : List Char) :
    Decimal.ofDigits (List.replicate n '0' ++ digits) = Decimal.ofDigits digits := by
  rw [ofDigits_eq, ofDigits_eq, Nat.ofDigitChars_append, Nat.ofDigitChars_replicate_zero,
    Nat.mul_zero]

theorem ofDigits_append_zeros (n : ℕ) (digits : List Char) :
    Decimal.ofDigits (digits ++ List.replicate n '0') = 10 ^ n * Decimal.ofDigits digits := by
  rw [ofDigits_eq, ofDigits_eq, Nat.ofDigitChars_append, Nat.ofDigitChars_replicate_zero]

/-- Below one, zeros follow the point first. -/
theorem denotes_small (hk : (Nat.toDigits 10 c).length + k ≤ 0) :
    Denotes ['0'] (List.replicate (-((Nat.toDigits 10 c).length + k)).toNat '0' ++
      Nat.toDigits 10 c) c k where
  whole_ne_nil := nofun
  whole_digits := isDigit_of_mem_zeros 1
  leading _ := rfl
  fraction_ne_nil h := Nat.toDigits_ne_nil (List.append_eq_nil_iff.mp h).2
  fraction_digits d hd :=
    (List.mem_append.mp hd).elim (isDigit_of_mem_zeros _ d) (isDigit_of_mem_toDigits c d)
  value_eq := by
    have hplaces : -((List.replicate (-((Nat.toDigits 10 c).length + k)).toNat '0' ++
        Nat.toDigits 10 c).length : ℤ) = k := by
      rw [List.length_append, List.length_replicate]
      omega
    have hzeros (n : ℕ) : ['0'] ++ (List.replicate n '0' ++ Nat.toDigits 10 c) =
      List.replicate (n + 1) '0' ++ Nat.toDigits 10 c := rfl
    rw [hplaces, hzeros, ofDigits_zeros_append, ofDigits_toDigits]

/-- The point stands between digits. -/
theorem denotes_split (hc : 0 < c) (hk : 0 < (Nat.toDigits 10 c).length + k) (hneg : k < 0) :
    Denotes ((Nat.toDigits 10 c).take ((Nat.toDigits 10 c).length + k).toNat)
      ((Nat.toDigits 10 c).drop ((Nat.toDigits 10 c).length + k).toNat) c k where
  whole_ne_nil h := by
    rcases List.take_eq_nil_iff.mp h with h | h
    · omega
    · exact Nat.toDigits_ne_nil h
  whole_digits d hd := isDigit_of_mem_toDigits c d (List.mem_of_mem_take hd)
  leading h := by
    rw [List.head?_take, if_neg (by omega)] at h
    exact absurd h (head?_toDigits_ne hc)
  fraction_ne_nil h := by
    have hle := List.drop_eq_nil_iff.mp h
    omega
  fraction_digits d hd := isDigit_of_mem_toDigits c d (List.mem_of_mem_drop hd)
  value_eq := by
    have hplaces : -(((Nat.toDigits 10 c).drop
        ((Nat.toDigits 10 c).length + k).toNat).length : ℤ) = k := by
      rw [List.length_drop]
      omega
    rw [List.take_append_drop, ofDigits_toDigits, hplaces]

/-- A whole number has a zero after the point. -/
theorem denotes_whole (hc : 0 < c) (hk : 0 ≤ k) :
    Denotes (Nat.toDigits 10 c ++ List.replicate k.toNat '0') ['0'] c k where
  whole_ne_nil h := Nat.toDigits_ne_nil (List.append_eq_nil_iff.mp h).1
  whole_digits d hd :=
    (List.mem_append.mp hd).elim (isDigit_of_mem_toDigits c d) (isDigit_of_mem_zeros _ d)
  leading h := by
    rw [List.head?_append_of_ne_nil _ Nat.toDigits_ne_nil] at h
    exact absurd h (head?_toDigits_ne hc)
  fraction_ne_nil := nofun
  fraction_digits := isDigit_of_mem_zeros 1
  value_eq := by
    have hten : (10 : ℚ) ^ k = 10 ^ k.toNat := by
      rw [← zpow_natCast, Int.toNat_of_nonneg hk]
    have hone : ['0'] = List.replicate 1 '0' := rfl
    rw [hone, ofDigits_append_zeros, ofDigits_append_zeros, ofDigits_toDigits, hten,
      List.length_replicate, zpow_neg, zpow_natCast]
    push_cast
    field_simp

/-- **The text with a point is a numeral that denotes the decimal.** -/
theorem exists_positional (hc : 0 < c) (k : ℤ) :
    ∃ whole fraction, (Digits.mk c k).positional = whole ++ '.' :: fraction ∧
      Denotes whole fraction c k := by
  have hlayout : (Digits.mk c k).layout =
    (Nat.toDigits 10 c, (Nat.toDigits 10 c).length + k) := rfl
  simp only [Digits.positional, hlayout]
  split_ifs with hsmall hinside
  · exact ⟨_, _, rfl, denotes_small hsmall⟩
  · exact ⟨_, _, rfl, denotes_split hc (by omega) (by omega)⟩
  · have hzeros : ((Nat.toDigits 10 c).length + k - (Nat.toDigits 10 c).length).toNat = k.toNat := by
      omega
    rw [hzeros, List.append_assoc, ← List.append_assoc]
    exact ⟨_, _, rfl, denotes_whole hc (by omega)⟩

end Shortest
end SpecOverlay
