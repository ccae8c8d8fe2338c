import SpecOverlay.Proofs.Number.Order
import SpecOverlay.Proofs.Number.Packing

/-!
# The values of single-precision numbers

A number that is finite has a rational value (`value?`).  Because mantissas are normal, the
comparison by exponent and then by mantissa is the comparison of the values
(`compare_eq_of_value`).  So finite numbers are in the order of their values
(`lt_iff_of_value`), and only the two zeros share a value (`eq_of_value`).
-/

namespace SpecOverlay
namespace Single

open Float.Model (UnpackedFloat)
open Float.Model.UnpackedFloat

/-! ## Values -/

/-- The value of a decoded number, if it is finite. -/
def valueOf : UnpackedFloat → Option ℚ
  | .notANumber => none
  | .infinity _ => none
  | .zero _ => some 0
  | .finite s m e _ => some (s.apply m * 2 ^ e)

/-- The value of a number, if it is finite. -/
def value? (x : Float32) : Option ℚ :=
  valueOf (decode x)

variable {a b : Float32} {p q : ℚ} {m m' : ℕ} {e e' : ℤ} {s : Sign}

theorem apply_positive (m : ℕ) : ((Sign.positive.apply m : ℤ) : ℚ) = m := by
  rw [Sign.apply, Int.cast_natCast]

theorem apply_negative (m : ℕ) : ((Sign.negative.apply m : ℤ) : ℚ) = -m := by
  rw [Sign.apply, Int.cast_neg, Int.cast_natCast]

/-- A sign is a factor. -/
theorem apply_eq_mul (s : Sign) (m : ℕ) : ((s.apply m : ℤ) : ℚ) = (s.apply 1 : ℤ) * m := by
  cases s with
  | positive => rw [apply_positive, Sign.apply, Int.cast_one, one_mul]
  | negative => rw [apply_negative, Sign.apply, Int.cast_neg, Int.cast_one, neg_one_mul]

/-- **A number has a value if it is a zero or finite**, and then its mantissa is normal. -/
theorem decode_of_value (ha : value? a = some p) :
    (∃ s, decode a = .zero s ∧ p = 0) ∨
    ∃ s m e hm, decode a = .finite s m e hm ∧ Normal m e ∧ e ≤ 104 ∧ p = s.apply m * 2 ^ e := by
  rw [value?] at ha
  cases hu : decode a with
  | infinity s => simp [hu, valueOf] at ha
  | notANumber => simp [hu, valueOf] at ha
  | zero s => exact .inl ⟨s, rfl, by simpa [hu, valueOf] using ha.symm⟩
  | finite s m e hm =>
    obtain ⟨hnormal, hmax⟩ := normal_of_decode hu
    exact .inr ⟨s, m, e, hm, rfl, hnormal, hmax, by simpa [hu, valueOf] using ha.symm⟩

theorem magnitude_pos (hm : 0 < m) (e : ℤ) : (0 : ℚ) < m * 2 ^ e := by
  positivity

/-! ## Order -/

theorem magnitude_lt_two_pow (h : m < 2 ^ 24) (e : ℤ) : (m : ℚ) * 2 ^ e < 2 ^ (e + 24) := by
  have hm : (m : ℚ) < 2 ^ 24 := by exact_mod_cast h
  have hpow : (2 : ℚ) ^ (e + 24) = 2 ^ 24 * 2 ^ e := by
    rw [zpow_add₀ two_ne_zero, mul_comm]
    norm_cast
  rw [hpow]
  exact mul_lt_mul_of_pos_right hm (by positivity)

theorem two_pow_le_magnitude (h : 2 ^ 23 ≤ m) (e : ℤ) : (2 : ℚ) ^ (e + 23) ≤ m * 2 ^ e := by
  have hm : (2 : ℚ) ^ 23 ≤ m := by exact_mod_cast h
  have hpow : (2 : ℚ) ^ (e + 23) = 2 ^ 23 * 2 ^ e := by
    rw [zpow_add₀ two_ne_zero, mul_comm]
    norm_cast
  rw [hpow]
  exact mul_le_mul_of_nonneg_right hm (by positivity)

/-- Of two normal numbers, the one with the larger exponent is larger. -/
theorem magnitude_lt (h : Normal m e) (h' : Normal m' e') (hexponent : e < e') :
    (m : ℚ) * 2 ^ e < m' * 2 ^ e' := by
  have hfull : 2 ^ 23 ≤ m' := h'.full.resolve_right (by have := h.le; omega)
  calc (m : ℚ) * 2 ^ e < 2 ^ (e + 24) := magnitude_lt_two_pow h.lt e
    _ ≤ 2 ^ (e' + 23) := zpow_le_zpow_right₀ one_le_two (by omega)
    _ ≤ m' * 2 ^ e' := two_pow_le_magnitude hfull e'

/-- **Normal numbers compare by exponent and then by mantissa.** -/
theorem compare_magnitude (h : Normal m e) (h' : Normal m' e') :
    (compare e e').then (compare m m') = compare ((m : ℚ) * 2 ^ e) (m' * 2 ^ e') := by
  rcases lt_trichotomy e e' with hlt | rfl | hgt
  · rw [compare_lt_iff_lt.mpr hlt, compare_lt_iff_lt.mpr (magnitude_lt h h' hlt)]
    rfl
  · have hpos : (0 : ℚ) < 2 ^ e := by positivity
    rw [compare_eq_iff_eq.mpr rfl, Ordering.eq_then]
    rcases lt_trichotomy m m' with hm | rfl | hm
    · rw [compare_lt_iff_lt.mpr hm, compare_lt_iff_lt.mpr]
      exact mul_lt_mul_of_pos_right (by exact_mod_cast hm) hpos
    · rw [compare_eq_iff_eq.mpr rfl, compare_eq_iff_eq.mpr rfl]
    · rw [compare_gt_iff_gt.mpr hm, compare_gt_iff_gt.mpr]
      exact mul_lt_mul_of_pos_right (by exact_mod_cast hm) hpos
  · rw [compare_gt_iff_gt.mpr hgt, compare_gt_iff_gt.mpr (magnitude_lt h' h hgt)]
    rfl

theorem compare_neg_rat (p q : ℚ) : compare (-p) (-q) = (compare p q).swap := by
  rcases lt_trichotomy p q with h | rfl | h
  · rw [compare_lt_iff_lt.mpr h, compare_gt_iff_gt.mpr (neg_lt_neg h)]
    rfl
  · rw [compare_eq_iff_eq.mpr rfl, compare_eq_iff_eq.mpr rfl]
    rfl
  · rw [compare_gt_iff_gt.mpr h, compare_lt_iff_lt.mpr (neg_lt_neg h)]
    rfl

/-- **Finite numbers compare as their values do.** -/
theorem compare_eq_of_value (ha : value? a = some p) (hb : value? b = some q) :
    (decode a).compare (decode b) = some (compare p q) := by
  rcases decode_of_value ha with ⟨s, hu, rfl⟩ | ⟨s, m, e, hm, hu, hnormal, -, rfl⟩
  · rcases decode_of_value hb with ⟨s', hv, rfl⟩ | ⟨s', m', e', hm', hv, -, -, rfl⟩
    · rw [hu, hv, compare_eq_iff_eq.mpr rfl]
      rfl
    · have hpos := magnitude_pos hm' e'
      rw [hu, hv]
      cases s' with
      | positive =>
        rw [apply_positive, compare_lt_iff_lt.mpr hpos]
        rfl
      | negative =>
        rw [apply_negative, neg_mul, compare_gt_iff_gt.mpr (neg_lt_zero.mpr hpos)]
        rfl
  · have hpos := magnitude_pos hm e
    rcases decode_of_value hb with ⟨s', hv, rfl⟩ | ⟨s', m', e', hm', hv, hnormal', -, rfl⟩
    · rw [hu, hv]
      cases s with
      | positive =>
        rw [apply_positive, compare_gt_iff_gt.mpr hpos]
        rfl
      | negative =>
        rw [apply_negative, neg_mul, compare_lt_iff_lt.mpr (neg_lt_zero.mpr hpos)]
        rfl
    · have hpos' := magnitude_pos hm' e'
      have hcompare := compare_magnitude hnormal hnormal'
      rw [hu, hv]
      cases s with
      | positive =>
        cases s' with
        | positive =>
          rw [apply_positive, apply_positive, ← hcompare]
          rfl
        | negative =>
          rw [apply_positive, apply_negative, neg_mul, compare_gt_iff_gt.mpr (by linarith)]
          rfl
      | negative =>
        cases s' with
        | positive =>
          rw [apply_positive, apply_negative, neg_mul, compare_lt_iff_lt.mpr (by linarith)]
          rfl
        | negative =>
          rw [apply_negative, apply_negative, neg_mul, neg_mul, compare_neg_rat, ← hcompare]
          rfl

theorem lt_iff_of_value (ha : value? a = some p) (hb : value? b = some q) : a < b ↔ p < q := by
  rw [lt_iff_compare, compare_eq_of_value ha hb, Option.some.injEq, compare_lt_iff_lt]

/-- A finite number is less than infinity. -/
theorem lt_of_decode_infinity (ha : value? a = some p) (hb : decode b = .infinity .positive) :
    a < b := by
  rw [lt_iff_compare, hb]
  rcases decode_of_value ha with ⟨s, hu, -⟩ | ⟨s, m, e, hm, hu, -⟩
  · rw [hu]
    rfl
  · rw [hu]
    rfl

/-- **Only the two zeros share a value.** -/
theorem eq_of_value (ha : value? a = some p) (hb : value? b = some p) (hp : p ≠ 0) : a = b := by
  have hcompare := compare_eq_of_value ha hb
  rw [compare_eq_iff_eq.mpr rfl] at hcompare
  obtain ⟨s, m, e, hm, hu, -⟩ := (decode_of_value ha).resolve_left fun ⟨_, _, h⟩ => hp h
  obtain ⟨s', m', e', hm', hv, -⟩ := (decode_of_value hb).resolve_left fun ⟨_, _, h⟩ => hp h
  have hsame : (compare e e').then (compare m m') = .eq → e = e' ∧ m = m' := by
    rw [Ordering.then_eq_eq, compare_eq_iff_eq, compare_eq_iff_eq]
    exact id
  rw [hu, hv] at hcompare
  cases s <;> cases s'
  case negative.negative =>
    obtain ⟨rfl, rfl⟩ := hsame (Ordering.swap_inj.mp (Option.some.inj hcompare))
    exact decode_inj.mp (hu.trans hv.symm)
  case positive.positive =>
    obtain ⟨rfl, rfl⟩ := hsame (Option.some.inj hcompare)
    exact decode_inj.mp (hu.trans hv.symm)
  case negative.positive => exact absurd hcompare (by simp [UnpackedFloat.compare])
  case positive.negative => exact absurd hcompare (by simp [UnpackedFloat.compare])

/-- **The larger of two numbers has the larger value.** -/
theorem value_larger (ha : value? a = some p) (hb : value? b = some q) :
    value? (larger a b) = some (larger p q) := by
  have hself : a ≤ a := by
    rw [le_self_iff, rank?]
    rcases decode_of_value ha with ⟨s, hu, -⟩ | ⟨s, m, e, hm, hu, -⟩ <;>
      cases s <;> exact ⟨_, congrArg rankOf hu⟩
  rw [larger, larger, if_pos hself, if_pos le_rfl]
  by_cases hlt : a < b
  · rwa [if_pos hlt, if_pos ((lt_iff_of_value ha hb).mp hlt)]
  · rwa [if_neg hlt, if_neg (mt (lt_iff_of_value ha hb).mpr hlt)]

/-! ## Operations that do not round -/

/-- An operation does not round two numbers: the result has the value that the exact operation
gives for theirs. -/
def Exactly (op : Float32 → Float32 → Float32) (exact : ℚ → ℚ → ℚ) (a b : Float32) : Prop :=
  ∀ p ∈ value? a, ∀ q ∈ value? b, value? (op a b) = some (exact p q)

instance (op : Float32 → Float32 → Float32) (exact : ℚ → ℚ → ℚ) (a b : Float32) :
    Decidable (Exactly op exact a b) :=
  inferInstanceAs (Decidable (∀ p ∈ value? a, ∀ q ∈ value? b, value? (op a b) = some (exact p q)))

end Single
end SpecOverlay
