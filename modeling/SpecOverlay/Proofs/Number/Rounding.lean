import SpecOverlay.Proofs.Number.Nearest

/-!
# Rounding to nearest

What is rounded is a mantissa that has lost something: two bits beside it say whether the value lies
below, at or above the middle between the mantissa and the next number (`Locates`).  Shifting to the
right until 24 digits are left is division by a power of two, and it keeps this
(`Locates.shiftRight`).  So the mantissa that is chosen at the end is nearest to the quotient
(`Locates.rounded`), and the number that it makes is nearest to the value.

* `locates_div`: a quotient of natural numbers is located by its whole part and its remainder.
* `rounds_roundWithAccuracy`, `rounds_round`: rounding gives a nearest value in normal form.
* `rounds_add_finite`: so does the sum of two decoded numbers, rounded from the exact sum.
-/

namespace SpecOverlay
namespace Single

open Float.Model (Format UnpackedFloat totalExponent)
open Float.Model.UnpackedFloat

variable {r v x : ℚ} {m n : ℕ} {e t : ℤ}

/-! ## Rounding a mantissa -/

/-- A mantissa is the whole part of a value, and the bits beside it say on which side of the middle
between the mantissa and the next number the value lies. -/
structure Locates (em : ExtendedMantissa) (x : ℚ) : Prop where
  le : (em.mantissa : ℚ) ≤ x
  lt : x < em.mantissa + 1
  roundBit : em.roundBit = true ↔ em.mantissa + 1 / 2 ≤ x
  stickyBit : em.stickyBit = true ↔ x ≠ em.mantissa ∧ x ≠ em.mantissa + 1 / 2

theorem locates_exact (m : ℕ) : Locates (.ofMantissaAndAccuracy m .exact) m where
  le := le_rfl
  lt := lt_add_one _
  roundBit := by simp [ExtendedMantissa.ofMantissaAndAccuracy]
  stickyBit := by simp [ExtendedMantissa.ofMantissaAndAccuracy]

/-- Bits that compare a fraction with a half locate it behind a whole number. -/
theorem locates_fraction {q d b : ℕ} {b₁ b₂ : Bool} (hlt : d < b)
    (hround : b₁ = true ↔ b ≤ 2 * d) (hsticky : b₂ = true ↔ d ≠ 0 ∧ 2 * d ≠ b) :
    Locates ⟨q, b₁, b₂⟩ (q + d / b) := by
  have hpos : (0 : ℚ) < b := by exact_mod_cast (Nat.zero_le d).trans_lt hlt
  have hnonneg : (0 : ℚ) ≤ d / b := by positivity
  have hone : (d : ℚ) / b < 1 := (div_lt_one hpos).mpr (by exact_mod_cast hlt)
  have hzero : (d : ℚ) / b = 0 ↔ d = 0 := by
    rw [div_eq_zero_iff, Nat.cast_eq_zero, or_iff_left hpos.ne']
  have hhalf : (1 : ℚ) / 2 ≤ d / b ↔ b ≤ 2 * d := by
    rw [div_le_div_iff₀ two_pos hpos, one_mul, mul_comm]
    exact_mod_cast Iff.rfl
  have hmiddle : (d : ℚ) / b = 1 / 2 ↔ 2 * d = b := by
    rw [div_eq_div_iff hpos.ne' two_ne_zero, one_mul, mul_comm]
    exact_mod_cast Iff.rfl
  refine ⟨by linarith, by linarith, ?_, ?_⟩
  · rw [hround, add_le_add_iff_left, hhalf]
  · rw [hsticky, Ne, Ne, Ne, Ne, add_eq_left, add_right_inj, hzero, hmiddle]

/-- **A quotient is located by its whole part and the remainder.** -/
theorem locates_div (a : ℕ) {b : ℕ} (hb : 0 < b) :
    Locates (.ofMantissaAndAccuracy (a / b) (accuracyOfFraction (a % b) b)) (a / b) := by
  have hlt : a % b < b := Nat.mod_lt a hb
  have hvalue : (a : ℚ) / b = (a / b : ℕ) + (a % b : ℕ) / b := by
    have hpos : (0 : ℚ) < b := by exact_mod_cast hb
    have hsum : (a : ℚ) = b * (a / b : ℕ) + (a % b : ℕ) := by
      exact_mod_cast (Nat.div_add_mod a b).symm
    rw [div_eq_iff hpos.ne', add_mul, div_mul_cancel₀ _ hpos.ne', mul_comm]
    exact hsum
  rw [hvalue, accuracyOfFraction]
  generalize a % b = d at *
  split_ifs with hzero
  · exact locates_fraction hlt (by simp; omega) (by simp [hzero])
  · cases hcompare : compare (2 * d) b with
    | lt =>
      have hcompare := compare_lt_iff_lt.mp hcompare
      exact locates_fraction hlt (by simp; omega) (by simp; omega)
    | eq =>
      have hcompare := compare_eq_iff_eq.mp hcompare
      exact locates_fraction hlt (by simp; omega) (by simp; omega)
    | gt =>
      have hcompare := compare_gt_iff_gt.mp hcompare
      exact locates_fraction hlt (by simp; omega) (by simp; omega)

namespace Locates

variable {em : ExtendedMantissa}

/-- **Shifting by one digit halves the value.** -/
theorem shiftRightOne (h : Locates em x) : Locates em.shiftRightOne (x / 2) := by
  obtain ⟨m, b₁, b₂⟩ := em
  obtain ⟨hle, hlt, hround, hsticky⟩ := h
  change Locates ⟨m / 2, m % 2 != 0, b₁ || b₂⟩ (x / 2)
  have hdigits : (m : ℚ) = 2 * (m / 2 : ℕ) + (m % 2 : ℕ) := by
    exact_mod_cast (Nat.div_add_mod m 2).symm
  have hor : (b₁ || b₂) = true ↔ x ≠ m := by
    rw [Bool.or_eq_true, hround, hsticky]
    constructor
    · rintro (h | h)
      · exact (by linarith : (m : ℚ) < x).ne'
      · exact h.1
    · intro hne
      by_cases hmiddle : x = m + 1 / 2
      · exact .inl hmiddle.ge
      · exact .inr ⟨hne, hmiddle⟩
  rcases Nat.mod_two_eq_zero_or_one m with hdigit | hdigit
  · rw [hdigit, Nat.cast_zero, add_zero] at hdigits
    have hbit : ¬ (m / 2 : ℕ) + 1 / 2 ≤ x / 2 := by linarith
    refine ⟨by linarith, by linarith, iff_of_false (by simp [hdigit]) hbit, hor.trans ?_⟩
    rw [hdigits]
    refine ⟨fun hne => ⟨fun h => hne (by linarith), fun h => hbit h.ge⟩, ?_⟩
    exact fun h heq => h.1 (by linarith)
  · rw [hdigit, Nat.cast_one] at hdigits
    have hbit : ((m / 2 : ℕ) : ℚ) + 1 / 2 ≤ x / 2 := by linarith
    refine ⟨by linarith, by linarith, iff_of_true (by simp [hdigit]) hbit, hor.trans ?_⟩
    rw [hdigits]
    refine ⟨fun hne => ⟨fun h => ?_, fun h => hne (by linarith)⟩, ?_⟩
    · linarith
    · exact fun h heq => h.2 (by linarith)

/-- Shifting is division by a power of two. -/
theorem shiftRight (h : Locates em x) (k : ℕ) : Locates (em >>> k) (x / 2 ^ k) := by
  induction k with
  | zero =>
    rw [pow_zero, div_one]
    exact h
  | succ k ih =>
    rw [pow_succ, ← div_div]
    exact ih.shiftRightOne

/-- **The mantissa is rounded to a nearest number**, in the middle to the even one. -/
theorem rounded (h : Locates em x) :
    |(em.roundedMantissa : ℚ) - x| ≤ 1 / 2 ∧
      (|(em.roundedMantissa : ℚ) - x| = 1 / 2 → Even em.roundedMantissa) := by
  obtain ⟨m, b₁, b₂⟩ := em
  obtain ⟨hle, hlt, hround, hsticky⟩ := h
  cases b₁ with
  | false =>
    -- below the middle the mantissa is kept
    have hlow : x < m + 1 / 2 := not_le.mp (mt hround.mpr Bool.false_ne_true)
    have hkept : (⟨m, false, b₂⟩ : ExtendedMantissa).roundedMantissa = m := by cases b₂ <;> rfl
    rw [hkept, abs_of_nonpos (by linarith)]
    exact ⟨by linarith, fun h => by linarith⟩
  | true =>
    have hhigh := hround.mp rfl
    cases b₂ with
    | false =>
      have hmiddle : x = m + 1 / 2 := by
        by_contra hne
        exact Bool.false_ne_true (hsticky.mpr ⟨by linarith, hne⟩)
      have heven : (⟨m, true, false⟩ : ExtendedMantissa).roundedMantissa = m + m % 2 := rfl
      rw [heven, hmiddle]
      refine ⟨?_, fun _ => by rw [Nat.even_iff]; omega⟩
      rcases Nat.mod_two_eq_zero_or_one m with hdigit | hdigit
      · rw [hdigit, add_zero, abs_of_nonpos (by linarith)]
        linarith
      · rw [hdigit, Nat.cast_add_one, abs_of_nonneg (by linarith)]
        linarith
    | true =>
      have hnext : (⟨m, true, true⟩ : ExtendedMantissa).roundedMantissa = m + 1 := rfl
      have hne := (hsticky.mp rfl).2
      rw [hnext, Nat.cast_add_one, abs_of_nonneg (by linarith)]
      exact ⟨by linarith, fun h => absurd (by linarith) hne⟩

end Locates

/-! ## Rounding a number -/

/-- The exponent that a number is rounded to: its mantissa gets 24 digits, but the exponent is
at least the least one. -/
def target (m : ℕ) (e : ℤ) : ℤ :=
  max (m.log2 + e - 23) (-149)

theorem targetExponent_eq (m : ℕ) (e : ℤ) :
    Format.binary32.targetExponent (totalExponent m e) = target m e := by
  simp [Format.targetExponent, totalExponent, Format.mantissaBits, Format.minExponent, target]
  omega

theorem shiftToTargetExponent_eq (h : e ≤ target m e) (accuracy : Accuracy) :
    shiftToTargetExponent Format.binary32 m e accuracy =
      (ExtendedMantissa.ofMantissaAndAccuracy m accuracy >>> (target m e - e).toNat,
        target m e) := by
  have hsum : e + ((target m e - e).toNat : ℤ) = target m e := by omega
  simp only [shiftToTargetExponent, shiftToExponent, targetExponent_eq, hsum]

/-- A normal number is where it is rounded to. -/
theorem target_of_normal (h : Normal m e) : target m e = e := by
  obtain ⟨hlt, hle, hfull⟩ := h
  have hlog : m.log2 ≤ 23 := by
    rcases Nat.eq_zero_or_pos m with rfl | hm
    · simp
    · exact Nat.le_of_lt_succ ((Nat.log2_lt (Nat.pos_iff_ne_zero.mp hm)).mpr hlt)
  rw [target]
  rcases hfull with hfull | rfl
  · have hlog' : 23 ≤ m.log2 := (Nat.le_log2 (by omega)).mpr hfull
    omega
  · omega

/-- A decoded number that stands for a value after rounding.  Its exponent is not bounded. -/
inductive Rounds (v : ℚ) : UnpackedFloat → Prop where
  | zero (s : Sign) : Nearest 0 v → Rounds v (.zero s)
  | finite (s : Sign) (m : ℕ) (e : ℤ) (hm : 0 < m) :
      Normal m e → Nearest (s.apply m * 2 ^ e) v → Rounds v (.finite s m e hm)

/-- A number with its sign. -/
theorem Nearest.apply (h : Nearest r v) (s : Sign) :
    Nearest (s.apply 1 * r) (s.apply 1 * v) := by
  cases s with
  | positive => simpa only [Sign.apply, Nat.cast_one, Int.cast_one, one_mul] using h
  | negative =>
    simpa only [Sign.apply, Nat.cast_one, Int.cast_neg, Int.cast_one, neg_one_mul] using h.neg

variable {accuracy : Accuracy}

/-- The mantissa that a shift to the target exponent rounds to. -/
def rounded (m : ℕ) (e : ℤ) (accuracy : Accuracy) : ℕ :=
  (ExtendedMantissa.ofMantissaAndAccuracy m accuracy >>>
    (target m e - e).toNat).roundedMantissa

theorem mantissa_ofMantissaAndAccuracy (m : ℕ) (accuracy : Accuracy) :
    (ExtendedMantissa.ofMantissaAndAccuracy m accuracy).mantissa = m := by
  rcases accuracy with _ | _ | _ | _ <;> rfl

/-- At the target exponent a value has at most 24 digits before the power of two, -/
theorem lt_of_target (h : Locates (.ofMantissaAndAccuracy m accuracy) x) :
    x / 2 ^ (target m e - e).toNat < 2 ^ 24 := by
  have hlt := h.lt
  rw [mantissa_ofMantissaAndAccuracy] at hlt
  have hdigits : m + 1 ≤ 2 ^ (24 + (target m e - e).toNat) :=
    Nat.lt_log2_self.trans_le (Nat.pow_le_pow_right (by omega) (by rw [target]; omega))
  rw [div_lt_iff₀ (by positivity), ← pow_add]
  exact hlt.trans_le (by exact_mod_cast hdigits)

/-- and 24 of them unless the exponent is the least one. -/
theorem le_of_target (h : Locates (.ofMantissaAndAccuracy m accuracy) x)
    (he : e ≤ target m e) :
    target m e = -149 ∨ 2 ^ 23 ≤ x / 2 ^ (target m e - e).toNat := by
  by_cases hleast : target m e = -149
  · exact .inl hleast
  have hle := h.le
  rw [mantissa_ofMantissaAndAccuracy] at hle
  have hm : m ≠ 0 := by
    rintro rfl
    rw [target, Nat.log2_zero] at he hleast
    omega
  have hdigits : 2 ^ (23 + (target m e - e).toNat) ≤ m :=
    (Nat.le_log2 hm).mp (by rw [target] at he hleast ⊢; omega)
  rw [le_div_iff₀ (by positivity), ← pow_add]
  exact .inr (le_trans (by exact_mod_cast hdigits) hle)

/-- Rounding leaves at most 24 digits, apart from the power of two that follows them. -/
theorem rounded_le (h : Locates (.ofMantissaAndAccuracy m accuracy) x) (e : ℤ) :
    rounded m e accuracy ≤ 2 ^ 24 := by
  have hlt := lt_of_target (e := e) h
  have hnear := (abs_le.mp (h.shiftRight (target m e - e).toNat).rounded.1).2
  rw [← rounded] at hnear
  have hround : (rounded m e accuracy : ℚ) < (2 ^ 24 + 1 : ℕ) := by
    push_cast
    linarith
  exact Nat.lt_succ_iff.mp (by exact_mod_cast hround)

/-- It leaves at least 24 digits unless the exponent is the least one. -/
theorem le_rounded (h : Locates (.ofMantissaAndAccuracy m accuracy) x) (he : e ≤ target m e) :
    2 ^ 23 ≤ rounded m e accuracy ∨ target m e = -149 := by
  refine (le_of_target h he).symm.imp_left fun hle => ?_
  have hnear := (abs_le.mp (h.shiftRight (target m e - e).toNat).rounded.1).1
  rw [← rounded] at hnear
  have hround : ((2 ^ 23 : ℕ) : ℚ) < rounded m e accuracy + 1 := by
    push_cast
    linarith
  exact Nat.lt_succ_iff.mp (by exact_mod_cast hround)

/-- **The rounded mantissa is nearest.** -/
theorem nearest_rounded (h : Locates (.ofMantissaAndAccuracy m accuracy) x)
    (he : e ≤ target m e) : Nearest (rounded m e accuracy * 2 ^ target m e) (x * 2 ^ e) := by
  have hshift := (h.shiftRight (target m e - e).toNat).rounded
  have hvalue : x / 2 ^ (target m e - e).toNat * 2 ^ target m e = x * 2 ^ e := by
    rw [two_pow_toNat he]
    field_simp
  rw [← hvalue]
  exact nearest_of_multiple (rounded_le h e) (le_max_right _ _) (le_of_target h he) hshift.1
    hshift.2

/-- A second shift makes the mantissa normal again if it has gained a digit. -/
theorem shiftToTargetExponent_again (hn : n ≤ 2 ^ 24) (hfull : 2 ^ 23 ≤ n ∨ t = -149)
    (ht : -149 ≤ t) :
    ∃ em t', shiftToTargetExponent Format.binary32 n t .exact = (em, t') ∧
      Normal em.mantissa t' ∧ (em.mantissa : ℚ) * 2 ^ t' = n * 2 ^ t := by
  rcases hn.lt_or_eq with hlt | rfl
  · have hnormal : Normal n t := ⟨hlt, ht, hfull⟩
    have hsame := target_of_normal hnormal
    refine ⟨⟨n, false, false⟩, t, ?_, hnormal, rfl⟩
    rw [shiftToTargetExponent_eq hsame.ge, hsame, sub_self]
    rfl
  · have hnext : target (2 ^ 24) t = t + 1 := by
      have hlog : (2 ^ 24 : ℕ).log2 = 24 := Nat.log2_two_pow
      rw [target, hlog]
      omega
    have hnormal : Normal (2 ^ 23) (t + 1) := ⟨by decide, by omega, .inl le_rfl⟩
    refine ⟨⟨2 ^ 23, false, false⟩, t + 1, ?_, hnormal, ?_⟩
    · rw [shiftToTargetExponent_eq (by omega), hnext, add_sub_cancel_left]
      rfl
    · rw [zpow_add_one₀ two_ne_zero]
      push_cast
      ring

/-- **Rounding gives a nearest value.** -/
theorem rounds_roundWithAccuracy (h : Locates (.ofMantissaAndAccuracy m accuracy) x)
    (he : e ≤ target m e) (s : Sign) :
    Rounds (s.apply 1 * (x * 2 ^ e)) (roundWithAccuracy Format.binary32 s m e accuracy) := by
  obtain ⟨em, t, hshift, hnormal, hvalue⟩ :=
    shiftToTargetExponent_again (rounded_le h e) (le_rounded h he) (le_max_right _ _)
  have hnearest := (nearest_rounded h he).apply s
  rw [← hvalue, ← mul_assoc, ← apply_eq_mul] at hnearest
  have hround : roundWithAccuracy Format.binary32 s m e accuracy =
      if h : em.mantissa = 0 then .zero s
      else .finite s em.mantissa t (Nat.pos_of_ne_zero h) := by
    rw [rounded] at hshift
    simp only [roundWithAccuracy, shiftToTargetExponent_eq he, hshift]
  rw [hround]
  split
  case isTrue h =>
    refine .zero _ ?_
    cases s <;> simpa [Sign.apply, h] using hnearest
  case isFalse h => exact .finite _ _ _ _ hnormal hnearest

/-- Nothing has been lost before. -/
theorem rounds_exact (he : e ≤ target m e) (s : Sign) :
    Rounds (s.apply m * 2 ^ e) (roundWithAccuracy Format.binary32 s m e .exact) := by
  rw [apply_eq_mul, mul_assoc]
  exact rounds_roundWithAccuracy (locates_exact m) he s

theorem decreaseExponent_eq (m : ℕ) (e t : ℤ) :
    decreaseExponent m e t = (m * 2 ^ (e - t).toNat, min e t) := by
  simp only [decreaseExponent, Nat.shiftLeft_eq, Prod.mk.injEq, true_and]
  omega

/-- What is taken from the exponent is put into the mantissa. -/
theorem apply_decreaseExponent (s : Sign) (m : ℕ) (e t : ℤ) :
    (s.apply (m * 2 ^ (e - t).toNat : ℕ) : ℚ) * 2 ^ min e t = s.apply m * 2 ^ e := by
  have hpow : (2 : ℚ) ^ e = 2 ^ (e - t).toNat * 2 ^ min e t := by
    rw [two_pow_toNat (min_le_left e t)]
    congr 2
    omega
  rw [apply_eq_mul, apply_eq_mul s m, hpow]
  push_cast
  ring

theorem target_decreaseExponent (hm : 0 < m) (e t : ℤ) :
    target (m * 2 ^ (e - t).toNat) (min e t) = target m e := by
  have hlog : (m * 2 ^ (e - t).toNat).log2 = m.log2 + (e - t).toNat := by
    rw [Nat.log2_eq_iff (by positivity), add_right_comm, pow_add, pow_add 2 (m.log2 + 1)]
    exact ⟨Nat.mul_le_mul_right _ (Nat.log2_self_le (Nat.pos_iff_ne_zero.mp hm)),
      Nat.mul_lt_mul_of_pos_right Nat.lt_log2_self (by positivity)⟩
  rw [target, target, hlog]
  omega

/-- The mantissa may have more digits than are asked for. -/
theorem rounds_decreaseExponent {t : ℤ} (hm : 0 < m) (ht : t ≤ target m e) (s : Sign) :
    Rounds (s.apply m * 2 ^ e) (roundWithAccuracy Format.binary32 s (m * 2 ^ (e - t).toNat)
      (min e t) .exact) := by
  have hle : min e t ≤ target (m * 2 ^ (e - t).toNat) (min e t) := by
    rw [target_decreaseExponent hm]
    exact (min_le_right e t).trans ht
  exact apply_decreaseExponent s m e t ▸ rounds_exact hle s

theorem rounds_round (hm : 0 < m) (e : ℤ) (s : Sign) :
    Rounds (s.apply m * 2 ^ e) (UnpackedFloat.round Format.binary32 s m e) := by
  simpa only [UnpackedFloat.round, targetExponent_eq, decreaseExponent_eq] using
    rounds_decreaseExponent hm le_rfl s

theorem rounds_zero (s : Sign) : Rounds 0 (.zero s) :=
  .zero s (.self onGrid_zero)

theorem rounds_normalize (n : ℤ) (e : ℤ) :
    Rounds (n * 2 ^ e) (UnpackedFloat.normalize Format.binary32 n e .positive) := by
  rcases lt_trichotomy n 0 with h | rfl | h
  · have hcast : Sign.negative.apply ((-n).toNat : ℕ) = n := by
      rw [Sign.apply]
      omega
    rw [UnpackedFloat.normalize, compare_lt_iff_lt.mpr h]
    conv_lhs => rw [← hcast]
    exact rounds_round (by omega) e .negative
  · rw [Int.cast_zero, zero_mul]
    exact rounds_zero _
  · have hcast : Sign.positive.apply (n.toNat : ℕ) = n := by
      rw [Sign.apply]
      omega
    rw [UnpackedFloat.normalize, compare_gt_iff_gt.mpr h]
    conv_lhs => rw [← hcast]
    exact rounds_round (by omega) e .positive

theorem rounds_add_finite {m' : ℕ} {e' : ℤ} (s s' : Sign) (hm : 0 < m) (hm' : 0 < m') :
    Rounds (s.apply m * 2 ^ e + s'.apply m' * 2 ^ e')
      (UnpackedFloat.add Format.binary32 (.finite s m e hm) (.finite s' m' e' hm')) := by
  have hrounds := rounds_normalize
    (s.apply (m * 2 ^ (e - min e e').toNat : ℕ) + s'.apply (m' * 2 ^ (e' - min e e').toNat : ℕ))
    (min e e')
  have hleft := apply_decreaseExponent s m e (min e e')
  have hright := apply_decreaseExponent s' m' e' (min e e')
  rw [min_eq_right (min_le_left e e')] at hleft
  rw [min_eq_right (min_le_right e e')] at hright
  rw [Int.cast_add, add_mul, hleft, hright] at hrounds
  simpa only [UnpackedFloat.add, decreaseExponent_eq] using hrounds

end Single
end SpecOverlay
