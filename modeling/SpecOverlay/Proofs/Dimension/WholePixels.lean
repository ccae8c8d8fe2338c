import SpecOverlay.Dimension
import SpecOverlay.Proofs.Number.Signs

/-!
# Whole pixels

Pixels become whole by a rule for magnitudes, floor or rounding, after which the sign is put
back (`signed`).  The two policies differ only in that rule, so what they have in common is shown of
`signed` for every rule: it keeps the order if the rule does (`signed_mono`), and it commutes with
a change of sign (`signed_neg`).

* `toInt_of_value`: the number of whole pixels is the signed whole of the value, clamped.
* `toOffset_of_value`, `toSize_of_value`: **an offset is cut toward zero, and a size is rounded with
  halves away from zero**, except that what is not zero keeps a pixel.
* `cases_of_le`: between two numbers in order, an infinity is at its end of the order, so the laws
  for values extend to all numbers.

A size that would vanish is treated by a rule of its own, `visible`, which is also a rule for
magnitudes.  This is why the jump at zero needs no case of its own in the proofs.
-/

namespace SpecOverlay
namespace Dimension

open Float.Model (UnpackedFloat)
open Float.Model.UnpackedFloat (Sign)
open Single

/-! ## Signed wholes -/

/-- The whole number that a rule makes of the magnitude, with the sign put back. -/
def signed (whole : ℚ → ℤ) (q : ℚ) : ℤ :=
  if 0 ≤ q then whole q else -whole (-q)

/-- A value cut toward zero. -/
def towardZero (q : ℚ) : ℤ :=
  signed Int.floor q

/-- The whole number nearest to a value, halves away from zero. -/
def halfAway (q : ℚ) : ℤ :=
  signed round q

/-- The rule for magnitudes that leaves nothing but zero without a pixel. -/
def visible (q : ℚ) : ℤ :=
  if q ≤ 0 then 0 else max 1 (round q)

variable {whole : ℚ → ℤ} {p q : ℚ} {v w : Float32}

theorem signed_neg (hzero : whole 0 = 0) (q : ℚ) : signed whole (-q) = -signed whole q := by
  rw [signed, signed]
  rcases lt_trichotomy q 0 with hq | rfl | hq
  · rw [if_pos (by linarith), if_neg (not_le.mpr hq), Int.neg_neg]
  · simp [hzero]
  · rw [if_neg (by linarith), if_pos hq.le, Rat.neg_neg]

theorem signed_nonneg (hzero : whole 0 = 0) (hmono : Monotone whole) (hq : 0 ≤ q) :
    0 ≤ signed whole q := by
  rw [signed, if_pos hq, ← hzero]
  exact hmono hq

/-- **A signed whole keeps the order** if the rule for magnitudes does. -/
theorem signed_mono (hzero : whole 0 = 0) (hmono : Monotone whole) : Monotone (signed whole) := by
  intro p q hpq
  rcases lt_or_ge p 0 with hp | hp
  · rcases lt_or_ge q 0 with hq | hq
    · rw [signed, signed, if_neg (not_le.mpr hp), if_neg (not_le.mpr hq), neg_le_neg_iff]
      exact hmono (neg_le_neg hpq)
    · have hneg : 0 ≤ signed whole (-p) := signed_nonneg hzero hmono (by linarith)
      have hpos : 0 ≤ signed whole q := signed_nonneg hzero hmono hq
      rw [signed_neg hzero] at hneg
      linarith
  · rw [signed, signed, if_pos hp, if_pos (hp.trans hpq)]
    exact hmono hpq

theorem round_mono : Monotone (round : ℚ → ℤ) := by
  intro p q hpq
  rw [round_eq, round_eq]
  exact Int.floor_mono (by linarith)

theorem visible_mono : Monotone visible := by
  intro p q hpq
  rw [visible, visible]
  rcases le_or_gt q 0 with hq | hq
  · rw [if_pos hq, if_pos (hpq.trans hq)]
  · rw [if_neg (not_le.mpr hq)]
    split
    · exact zero_le_one.trans (le_max_left _ _)
    · exact max_le_max_left 1 (round_mono hpq)

/-! ## From magnitudes to values -/

theorem div_two_pow (m k : ℕ) : ((m / 2 ^ k : ℕ) : ℤ) = ⌊(m : ℚ) * 2 ^ (-k : ℤ)⌋ := by
  rw [zpow_neg, zpow_natCast, ← div_eq_mul_inv, ← Nat.floor_div_eq_div (K := ℚ),
    Int.natCast_floor_eq_floor (by positivity)]
  push_cast
  rfl

theorem wholePart_eq (m : ℕ) (e : ℤ) : (wholePart m e : ℤ) = ⌊(m : ℚ) * 2 ^ e⌋ := by
  rw [wholePart]
  rcases le_or_gt 0 e with he | he
  · obtain ⟨k, rfl⟩ := Int.eq_ofNat_of_zero_le he
    rw [if_pos he]
    exact_mod_cast (Int.floor_natCast (R := ℚ) (m * 2 ^ k)).symm
  · obtain ⟨k, rfl⟩ := Int.exists_eq_neg_ofNat he.le
    rw [if_neg (not_le.mpr he), Int.neg_neg, Int.toNat_natCast]
    exact div_two_pow m k

theorem nearestWhole_eq (m : ℕ) (e : ℤ) : (nearestWhole m e : ℤ) = round ((m : ℚ) * 2 ^ e) := by
  rw [nearestWhole]
  rcases le_or_gt 0 e with he | he
  · obtain ⟨k, rfl⟩ := Int.eq_ofNat_of_zero_le he
    rw [if_pos he]
    exact_mod_cast (round_natCast (α := ℚ) (m * 2 ^ k)).symm
  · obtain ⟨k, rfl⟩ := Int.exists_eq_neg_ofNat he.le
    rw [if_neg (not_le.mpr he), Int.neg_neg, Int.toNat_natCast, round_eq]
    refine (div_two_pow (2 * m + 2 ^ k) (k + 1)).trans (congrArg Int.floor ?_)
    push_cast
    rw [neg_add, zpow_add₀ two_ne_zero, zpow_neg, zpow_natCast, zpow_neg_one]
    field_simp

/-- **The whole number of pixels is the signed whole of the value, clamped.** -/
theorem toInt_of_value {wholeOf : ℕ → ℤ → ℕ}
    (hwhole : ∀ m e, (wholeOf m e : ℤ) = whole (m * 2 ^ e)) (hzero : whole 0 = 0)
    (hv : value? v = some q) : toInt wholeOf v = clamp (signed whole q) := by
  rcases decode_of_value hv with ⟨s, hu, rfl⟩ | ⟨s, m, e, hm, hu, -, -, rfl⟩
  · rw [toInt, hu, signed, if_pos le_rfl, hzero]
    rfl
  · have hpos := magnitude_pos hm e
    rw [toInt, hu]
    cases s with
    | positive => rw [apply_positive, signed, if_pos hpos.le, ← hwhole]; rfl
    | negative =>
      rw [apply_negative, neg_mul, signed_neg hzero, signed, if_pos hpos.le, ← hwhole]
      rfl

/-! ## The two policies -/

theorem toOffset_of_value (hv : value? v = some q) : toOffset v = clamp (towardZero q) :=
  toInt_of_value wholePart_eq Int.floor_zero hv

theorem roundToInt_of_value (hv : value? v = some q) : roundToInt v = clamp (halfAway q) :=
  toInt_of_value nearestWhole_eq round_zero hv

theorem clamp_eq_zero_iff {n : ℤ} : clamp n = 0 ↔ n = 0 := by
  simp only [clamp, minInt32, maxInt32]
  omega

theorem beq_iff_compare : (v == w) = true ↔ (decode v).compare (decode w) = some .eq := by
  show (decode v).compare (decode w) == some .eq ↔ _
  exact beq_iff_eq

theorem beq_iff_of_value (hv : value? v = some p) (hw : value? w = some q) :
    (v == w) = true ↔ p = q := by
  rw [beq_iff_compare, compare_eq_of_value hv hw, Option.some.injEq, compare_eq_iff_eq]

theorem value_zero : value? 0 = some 0 := rfl

/-- The nearest whole number, and a pixel on its side of zero for a value that would vanish. -/
def sizeOf (q : ℚ) : ℤ :=
  if halfAway q = 0 ∧ q ≠ 0 then if 0 < q then 1 else -1 else halfAway q

/-- **A size is the nearest whole number**, unless that is zero and the value is not. -/
theorem toSize_of_value (hv : value? v = some q) : toSize v = clamp (sizeOf q) := by
  have hone : clamp 1 = 1 ∧ clamp (-1) = -1 := by decide
  rw [toSize, sizeOf, roundToInt_of_value hv]
  simp only [ne_eq, clamp_eq_zero_iff, beq_iff_of_value hv value_zero,
    lt_iff_of_value value_zero hv]
  by_cases hround : halfAway q = 0
  · by_cases hq : q = 0
    · simp [hq]
    · by_cases hpos : 0 < q <;> simp [hround, hq, hpos, hone]
  · simp [hround]

theorem halfAway_neg (q : ℚ) : halfAway (-q) = -halfAway q :=
  signed_neg round_zero q

theorem sizeOf_neg (q : ℚ) : sizeOf (-q) = -sizeOf q := by
  rw [sizeOf, sizeOf, halfAway_neg]
  rcases lt_trichotomy q 0 with hq | rfl | hq
  · by_cases hround : halfAway q = 0 <;> simp [hround, hq.ne, hq, hq.not_gt]
  · simp
  · by_cases hround : halfAway q = 0 <;> simp [hround, hq.ne', hq, hq.not_gt]

theorem sizeOf_of_pos (hq : 0 < q) : sizeOf q = visible q := by
  have hround : 0 ≤ round q := by
    rw [← round_zero (α := ℚ)]
    exact round_mono hq.le
  rw [sizeOf, halfAway, signed, if_pos hq.le, visible, if_neg (not_le.mpr hq)]
  by_cases hvanish : round q = 0
  · simp [hvanish, hq.ne', hq]
  · rw [if_neg (fun h => hvanish h.1), max_eq_right (by omega)]

/-- The size of a value is made by one rule for magnitudes. -/
theorem sizeOf_eq : sizeOf = signed visible := by
  have hzero : visible 0 = 0 := if_pos le_rfl
  funext q
  rcases lt_trichotomy q 0 with hq | rfl | hq
  · have hpos : 0 < -q := neg_pos.mpr hq
    rw [signed, if_neg (not_le.mpr hq), ← sizeOf_of_pos hpos, sizeOf_neg, Int.neg_neg]
  · rw [signed, if_pos le_rfl, hzero]
    simp [sizeOf, halfAway, signed]
  · rw [sizeOf_of_pos hq, signed, if_pos hq.le]

/-! ## Order -/

theorem kind_cases (v : Float32) :
    decode v = .notANumber ∨ decode v = .infinity .positive ∨ decode v = .infinity .negative ∨
      ∃ q, value? v = some q := by
  rw [value?]
  rcases decode v with ⟨_ | _⟩ | _ | s | ⟨s, m, e, hm⟩ <;> simp [valueOf]

/-- **Of two numbers in order, one is an infinity at its end or both have values in order.** -/
theorem cases_of_le (h : v ≤ w) :
    decode v = .infinity .negative ∨ decode w = .infinity .positive ∨
      ∃ p q, value? v = some p ∧ value? w = some q ∧ p ≤ q := by
  have hcompare := le_iff_compare.mp h
  rcases kind_cases w with hw | hw | hw | ⟨q, hw⟩
  · rw [hw] at hcompare
    cases hv : decode v <;> simp [hv, UnpackedFloat.compare] at hcompare
  · exact .inr (.inl hw)
  · left
    rw [hw] at hcompare
    rcases hv : decode v with ⟨_ | _⟩ | _ | s | ⟨_ | _, m, e, hm⟩ <;>
      simp [hv, UnpackedFloat.compare, compare] at hcompare ⊢
  · rcases kind_cases v with hv | hv | hv | ⟨p, hv⟩
    · simp [hv, UnpackedFloat.compare] at hcompare
    · exact absurd (lt_of_le_of_lt h (lt_of_decode_infinity hw hv)) (Single.lt_irrefl v)
    · exact .inl hv
    · rw [compare_eq_of_value hv hw] at hcompare
      exact .inr (.inr ⟨p, q, hv, hw, compare_le_iff_le.mp (Ordering.isLE_iff_ne_gt.mp hcompare)⟩)

theorem clamped_mono {f : Float32 → ℤ} {rule : ℚ → ℤ} (hrule : Monotone rule)
    (hvalue : ∀ v q, value? v = some q → f v = clamp (rule q))
    (hover : ∀ v, decode v = .infinity .positive → f v = maxInt32)
    (hunder : ∀ v, decode v = .infinity .negative → f v = minInt32)
    (hmem : ∀ v, minInt32 ≤ f v ∧ f v ≤ maxInt32) (h : v ≤ w) : f v ≤ f w := by
  rcases cases_of_le h with hv | hw | ⟨p, q, hv, hw, hpq⟩
  · rw [hunder v hv]
    exact (hmem w).1
  · rw [hover w hw]
    exact (hmem v).2
  · rw [hvalue v p hv, hvalue w q hw]
    exact clamp_mono (hrule hpq)

theorem toSize_of_over (hv : decode v = .infinity .positive) : toSize v = maxInt32 := by
  have hround : roundToInt v = maxInt32 := by rw [roundToInt, toInt, hv]
  rw [toSize, hround]
  simp [maxInt32]

theorem toSize_of_under (hv : decode v = .infinity .negative) : toSize v = minInt32 := by
  have hround : roundToInt v = minInt32 := by rw [roundToInt, toInt, hv]
  rw [toSize, hround]
  simp [minInt32]

theorem toOffset_of_over (hv : decode v = .infinity .positive) : toOffset v = maxInt32 := by
  rw [toOffset, truncateToInt, toInt, hv]

theorem toOffset_of_under (hv : decode v = .infinity .negative) : toOffset v = minInt32 := by
  rw [toOffset, truncateToInt, toInt, hv]

theorem toSize_mem (v : Float32) : minInt32 ≤ toSize v ∧ toSize v ≤ maxInt32 := by
  rw [toSize]
  split
  · exact roundToInt_mem v
  · split <;> decide

theorem toOffset_mono (h : v ≤ w) : toOffset v ≤ toOffset w :=
  clamped_mono (signed_mono Int.floor_zero Int.floor_mono) (fun _ _ => toOffset_of_value)
    (fun _ => toOffset_of_over) (fun _ => toOffset_of_under) truncateToInt_mem h

theorem toSize_mono (h : v ≤ w) : toSize v ≤ toSize w := by
  have hrule : Monotone sizeOf := sizeOf_eq ▸ signed_mono (if_pos le_rfl) visible_mono
  exact clamped_mono hrule (fun _ _ => toSize_of_value) (fun _ => toSize_of_over)
    (fun _ => toSize_of_under) toSize_mem h

/-! ## Signs -/

theorem abs_signed (whole : ℚ → ℤ) (q : ℚ) : |signed whole q| = |whole (|q|)| := by
  rw [signed]
  rcases le_or_gt 0 q with hq | hq
  · rw [if_pos hq, abs_of_nonneg hq]
  · rw [if_neg (not_le.mpr hq), abs_of_neg hq, abs_neg]

theorem abs_towardZero_lt (hq : |q| < 2 ^ 31) : |towardZero q| < 2 ^ 31 := by
  have hfloor : 0 ≤ ⌊|q|⌋ := Int.floor_nonneg.mpr (abs_nonneg q)
  rw [towardZero, abs_signed, abs_of_nonneg hfloor]
  exact Int.floor_lt.mpr (by exact_mod_cast hq)

/-- What is less than a bound of 32 bits does not reach it by rounding, because a number with a
fraction is less than `2 ^ 24`. -/
theorem abs_halfAway_lt (hv : value? v = some q) (hq : |q| < 2 ^ 31) : |halfAway q| < 2 ^ 31 := by
  rw [halfAway, abs_signed]
  rcases decode_of_value hv with ⟨s, -, rfl⟩ | ⟨s, m, e, hm, -, hnormal, -, rfl⟩
  · simp
  · rw [abs_apply] at hq ⊢
    rcases le_or_gt 0 e with he | he
    · obtain ⟨k, rfl⟩ := Int.eq_ofNat_of_zero_le he
      have hnat : (m : ℚ) * 2 ^ (k : ℤ) = (m * 2 ^ k : ℕ) := by push_cast; rfl
      rw [hnat] at hq ⊢
      rw [round_natCast, Nat.abs_cast]
      exact_mod_cast hq
    · have hlt : (m : ℚ) * 2 ^ e ≤ (2 ^ 24 : ℕ) := by
        have hpow : (2 : ℚ) ^ e ≤ 1 := zpow_le_one_of_nonpos₀ one_le_two he.le
        have hm' : (m : ℚ) ≤ (2 ^ 24 : ℕ) := by exact_mod_cast hnormal.lt.le
        calc (m : ℚ) * 2 ^ e ≤ (2 ^ 24 : ℕ) * 1 := mul_le_mul hm' hpow (by positivity) (by simp)
          _ = (2 ^ 24 : ℕ) := mul_one _
      have hround := round_mono hlt
      have hzero := round_mono (magnitude_pos hm e).le
      rw [round_natCast] at hround
      rw [round_zero] at hzero
      rw [abs_of_nonneg hzero]
      omega

theorem clamp_neg {n : ℤ} (hn : |n| < 2 ^ 31) : clamp (-n) = -clamp n := by
  rw [abs_lt] at hn
  simp only [clamp, minInt32, maxInt32]
  omega

theorem toOffset_neg (hv : value? v = some q) (hq : |q| < 2 ^ 31) :
    toOffset (-v) = -toOffset v := by
  have hneg : towardZero (-q) = -towardZero q := signed_neg Int.floor_zero q
  rw [toOffset_of_value (value_neg hv), toOffset_of_value hv, hneg,
    clamp_neg (abs_towardZero_lt hq)]

theorem toSize_neg (hv : value? v = some q) (hq : |q| < 2 ^ 31) : toSize (-v) = -toSize v := by
  have hsize : |sizeOf q| < 2 ^ 31 := by
    rw [sizeOf]
    split
    · split <;> simp
    · exact abs_halfAway_lt hv hq
  rw [toSize_of_value (value_neg hv), toSize_of_value hv, sizeOf_neg, clamp_neg hsize]

/-! ## Visibility -/

theorem sizeOf_eq_zero_iff : sizeOf q = 0 ↔ q = 0 := by
  rw [sizeOf]
  constructor
  · intro hsize
    by_contra hq
    by_cases hround : halfAway q = 0
    · rw [if_pos ⟨hround, hq⟩] at hsize
      split at hsize <;> exact absurd hsize (by decide)
    · rw [if_neg (fun h => hround h.1)] at hsize
      exact hround hsize
  · rintro rfl
    rw [if_neg (fun h => h.2 rfl)]
    simp [halfAway, signed]

theorem isNaN_iff : v.isNaN = true ↔ decode v = .notANumber := by
  show (decode v).isNaN = true ↔ _
  cases decode v <;> simp [UnpackedFloat.isNaN]

theorem number_cases (hv : v.isNaN = false) :
    decode v = .infinity .positive ∨ decode v = .infinity .negative ∨ ∃ q, value? v = some q := by
  refine (kind_cases v).resolve_left fun hnan => ?_
  rw [isNaN_iff.mpr hnan] at hv
  exact Bool.noConfusion hv

/-- **Only a zero has no pixel.** -/
theorem toSize_eq_zero_iff (hv : v.isNaN = false) : toSize v = 0 ↔ (v == 0) = true := by
  have hzero : decode 0 = .zero .positive := rfl
  rcases number_cases hv with hv | hv | ⟨q, hv⟩
  · rw [toSize_of_over hv, beq_iff_compare, hv, hzero]
    decide
  · rw [toSize_of_under hv, beq_iff_compare, hv, hzero]
    decide
  · rw [toSize_of_value hv, clamp_eq_zero_iff, sizeOf_eq_zero_iff, beq_iff_of_value hv value_zero]

/-- **What is positive has a pixel.** -/
theorem one_le_toSize (hv : 0 < v) : 1 ≤ toSize v := by
  have hzero : decode 0 = .zero .positive := rfl
  rcases kind_cases v with hu | hu | hu | ⟨q, hu⟩
  · rw [lt_iff_compare, hu, hzero] at hv
    simp [UnpackedFloat.compare] at hv
  · rw [toSize_of_over hu]
    decide
  · rw [lt_iff_compare, hu, hzero] at hv
    simp [UnpackedFloat.compare] at hv
  · have hq : 0 < q := (lt_iff_of_value value_zero hu).mp hv
    have hone : 1 ≤ visible q := by
      rw [visible, if_neg (not_le.mpr hq)]
      exact le_max_left _ _
    rw [toSize_of_value hu, sizeOf_of_pos hq]
    exact clamp_mono hone

/-! ## The policies together -/

/-- **Whole pixels keep sign, order and visibility.**

* An offset is the value cut toward zero and a size is the nearest whole number with halves away
  from zero, or one pixel with the sign of a value that would vanish.  Both are clamped to 32 bits.
* A size is zero only for a zero.
* Both keep the order of all numbers.
* Both change their sign with a number of magnitude less than `2 ^ 31`.
* What is positive has a size of at least one pixel. -/
theorem whole_pixels :
    (∀ v : Float32, v.isNaN = false →
      (∃ q, value? v = some q ∧ toOffset v = clamp (towardZero q) ∧ toSize v = clamp (sizeOf q)) ∨
      (v = infinity ∧ toOffset v = maxInt32 ∧ toSize v = maxInt32) ∨
      (v = -infinity ∧ toOffset v = minInt32 ∧ toSize v = minInt32)) ∧
    (∀ v : Float32, v.isNaN = false → (toSize v = 0 ↔ (v == 0) = true)) ∧
    (∀ v w : Float32, v ≤ w → toOffset v ≤ toOffset w ∧ toSize v ≤ toSize w) ∧
    (∀ (v : Float32) (q : ℚ), value? v = some q → |q| < 2 ^ 31 →
      toOffset (-v) = -toOffset v ∧ toSize (-v) = -toSize v) ∧
    ∀ v : Float32, 0 < v → 1 ≤ toSize v := by
  refine ⟨fun v hv => ?_, fun _ => toSize_eq_zero_iff,
    fun _ _ h => ⟨toOffset_mono h, toSize_mono h⟩,
    fun _ _ hv hq => ⟨toOffset_neg hv hq, toSize_neg hv hq⟩, fun _ => one_le_toSize⟩
  rcases number_cases hv with hv | hv | ⟨q, hv⟩
  · exact .inr (.inl ⟨decode_inj.mp hv, toOffset_of_over hv, toSize_of_over hv⟩)
  · exact .inr (.inr ⟨decode_inj.mp hv, toOffset_of_under hv, toSize_of_under hv⟩)
  · exact .inl ⟨q, hv, toOffset_of_value hv, toSize_of_value hv⟩

/-- A quarter of a pixel keeps one, and a half is rounded away from zero on both sides. -/
theorem whole_pixels_of_quarter :
    (toSize 0.25 = 0 ↔ ((0.25 : Float32) == 0) = true) ∧ 1 ≤ toSize 0.25 ∧
      toOffset 0.25 ≤ toOffset 2.5 ∧ toSize 0.25 ≤ toSize 2.5 ∧
      toOffset (-2.5) = -toOffset 2.5 ∧ toSize (-2.5) = -toSize 2.5 ∧
      toSize 0.25 = 1 ∧ toOffset 2.5 = 2 ∧ toSize 2.5 = 3 := by
  have hnumber : (0.25 : Float32).isNaN = false := by decide +kernel
  have hpos : (0 : Float32) < 0.25 := by decide +kernel
  have hle : (0.25 : Float32) ≤ 2.5 := by decide +kernel
  have hvalue : value? 2.5 = some (5 / 2) := by decide +kernel
  have hsmall : |(5 / 2 : ℚ)| < 2 ^ 31 := by norm_num
  obtain ⟨hoffset, hsize⟩ := whole_pixels.2.2.1 0.25 2.5 hle
  obtain ⟨hoffset', hsize'⟩ := whole_pixels.2.2.2.1 2.5 (5 / 2) hvalue hsmall
  exact ⟨whole_pixels.2.1 0.25 hnumber, whole_pixels.2.2.2.2 0.25 hpos, hoffset, hsize, hoffset',
    hsize', by decide +kernel, by decide +kernel, by decide +kernel⟩

end Dimension
end SpecOverlay
