import SpecOverlay.Proofs.Number.Quotients

/-!
# Rounding in any format

A value is rounded to `w + 1` digits in a format (`Rounded`).  A number owns the values that are
nearer to it than to the numbers beside it, and with an even mantissa those in the middle, too
(`Owns`).  Below a power of two the numbers lie twice as dense, so there the owned values end
earlier.

* `Rounded.eq_of_owns`: **a value is rounded to the number that owns it.**
* `rounded_exact`, `rounded_round`, `rounded_mul`, `rounded_div`: a change of format, products and
  quotients round their exact results, once.
-/

namespace SpecOverlay
namespace Precision

open Float.Model (Format UnpackedFloat totalExponent)
open Float.Model.UnpackedFloat
open Single (Locates locates_exact locates_div mantissa_ofMantissaAndAccuracy two_pow_toNat
  decreaseExponent_eq near_cases)

variable {f : Format} {s s' : Sign} {m m' n : ℕ} {e e' t : ℤ} {x v : ℚ} {accuracy : Accuracy}
  {u : UnpackedFloat}

/-- The number of digits after the leading one. -/
abbrev width (f : Format) : ℕ :=
  f.mantissaBitsWithoutImplicit

/-- A mantissa has all the digits of a format. -/
structure Full (f : Format) (m : ℕ) : Prop where
  le : 2 ^ width f ≤ m
  lt : m < 2 ^ (width f + 1)

theorem Full.pos (h : Full f m) : 0 < m :=
  (Nat.two_pow_pos (width f)).trans_le h.le

/-- The values that are rounded to a number whose mantissa has all its digits. -/
structure Owns (f : Format) (m : ℕ) (e : ℤ) (v : ℚ) : Prop where
  near : |v - m * 2 ^ e| ≤ 2 ^ e / 2
  even : |v - m * 2 ^ e| = 2 ^ e / 2 → Even m
  dense : m = 2 ^ width f → f.minExponent < e → (m - 1 / 4) * 2 ^ e ≤ v

theorem owns_self (f : Format) (m : ℕ) (e : ℤ) : Owns f m e (m * 2 ^ e) where
  near := by
    rw [sub_self, abs_zero]
    positivity
  even h := by
    rw [sub_self, abs_zero] at h
    exact absurd h (by positivity)
  dense _ _ := mul_le_mul_of_nonneg_right (by linarith) (by positivity)

/-- A decoded number that a value is rounded to, in a format and with a sign.  What is rounded has
all the digits, and perhaps more. -/
inductive Rounded (f : Format) (s : Sign) : ℚ → UnpackedFloat → Prop where
  | intro (m : ℕ) (e : ℤ) (accuracy : Accuracy) (x : ℚ) :
      Locates (.ofMantissaAndAccuracy m accuracy) x → 2 ^ width f ≤ m →
      Rounded f s (x * 2 ^ e) (roundWithAccuracy f s m e accuracy)

/-! ## Exponents -/

/-- The exponent that a number is rounded to, if it is not below the least number that has all the
digits. -/
theorem targetExponent_eq (h : f.minExponent + width f ≤ m.log2 + e) :
    f.targetExponent (totalExponent m e) = m.log2 + e - width f := by
  rw [width] at h ⊢
  rw [Format.targetExponent, totalExponent, Format.mantissaBits]
  push_cast
  omega

/-- A value that is large enough has a leading digit that is high enough. -/
theorem le_log2_add (hx : x < m + 1) (hv : (2 : ℚ) ^ (f.minExponent + width f) ≤ x * 2 ^ e) :
    f.minExponent + width f ≤ m.log2 + e := by
  have hm : (m : ℚ) + 1 ≤ 2 ^ (m.log2 + 1 : ℤ) := by
    exact_mod_cast (Nat.lt_log2_self : m < 2 ^ (m.log2 + 1))
  have hlt : (2 : ℚ) ^ (f.minExponent + width f) < 2 ^ (m.log2 + 1 + e : ℤ) := by
    calc (2 : ℚ) ^ (f.minExponent + width f)
      _ ≤ x * 2 ^ e := hv
      _ < (m + 1) * 2 ^ e := mul_lt_mul_of_pos_right hx (by positivity)
      _ ≤ 2 ^ (m.log2 + 1 : ℤ) * 2 ^ e := mul_le_mul_of_nonneg_right hm (by positivity)
      _ = 2 ^ (m.log2 + 1 + e : ℤ) := (zpow_add₀ two_ne_zero _ _).symm
  have hexponent := (zpow_lt_zpow_iff_right₀ one_lt_two).mp hlt
  omega

/-! ## Rounding to a mantissa -/

/-- A mantissa with all the digits is not shifted, and one that has gained a digit is shifted by
that digit. -/
theorem shiftToTargetExponent_full (hlow : 2 ^ width f ≤ n) (hhigh : n ≤ 2 ^ (width f + 1))
    (ht : f.minExponent ≤ t) :
    ∃ em t', shiftToTargetExponent f n t .exact = (em, t') ∧ Full f em.mantissa ∧
      (em.mantissa : ℚ) * 2 ^ t' = n * 2 ^ t := by
  have hpos : n ≠ 0 := (Nat.two_pow_pos (width f)).trans_le hlow |>.ne'
  rcases hhigh.lt_or_eq with hlt | rfl
  · have hlog : n.log2 = width f := (Nat.log2_eq_iff hpos).mpr ⟨hlow, hlt⟩
    refine ⟨⟨n, false, false⟩, t, ?_, ⟨hlow, hlt⟩, rfl⟩
    rw [shiftToTargetExponent, targetExponent_eq (by omega), hlog, shiftToExponent,
      add_sub_cancel_left, sub_self]
    simp [ExtendedMantissa.ofMantissaAndAccuracy]
    rfl
  · have hlog : (2 ^ (width f + 1)).log2 = width f + 1 := Nat.log2_two_pow
    refine ⟨⟨2 ^ width f, false, false⟩, t + 1, ?_,
      ⟨le_rfl, Nat.pow_lt_pow_right one_lt_two (Nat.lt_succ_self _)⟩, ?_⟩
    · have hnext : ((width f + 1 : ℕ) : ℤ) + t - width f - t = 1 := by
        push_cast
        ring
      have hhalf : ExtendedMantissa.ofMantissaAndAccuracy (2 ^ (width f + 1)) .exact >>> 1 =
          ⟨2 ^ width f, false, false⟩ := by
        show ExtendedMantissa.shiftRightOne ⟨2 ^ (width f + 1), false, false⟩ = _
        simp [ExtendedMantissa.shiftRightOne, pow_succ]
      rw [shiftToTargetExponent, targetExponent_eq (by omega), hlog, shiftToExponent, hnext]
      exact Prod.ext hhalf (by push_cast; ring)
    · rw [zpow_add_one₀ two_ne_zero, pow_succ]
      push_cast
      ring

/-- A whole number near a value that has all the digits before its point has these digits, too, or
one more. -/
theorem bounds_of_near {y : ℚ} {w : ℕ} (hnear : |(n : ℚ) - y| ≤ 1 / 2) (hlow : 2 ^ w ≤ y)
    (hhigh : y < 2 ^ (w + 1)) : 2 ^ w ≤ n ∧ n ≤ 2 ^ (w + 1) := by
  obtain ⟨hbelow, habove⟩ := abs_le.mp hnear
  constructor
  · have hround : ((2 ^ w : ℕ) : ℚ) < n + 1 := by
      push_cast
      linarith
    exact Nat.lt_succ_iff.mp (by exact_mod_cast hround)
  · have hround : (n : ℚ) < (2 ^ (w + 1) + 1 : ℕ) := by
      push_cast
      linarith
    exact Nat.lt_succ_iff.mp (by exact_mod_cast hround)

/-- A mantissa with more than enough digits is shifted and rounded to a whole number, and that number
is kept. -/
theorem roundWithAccuracy_eq {k : ℕ} (hleast : f.minExponent + width f ≤ m.log2 + e)
    (hk : m.log2 = width f + k)
    (hn : (ExtendedMantissa.ofMantissaAndAccuracy m accuracy >>> k).roundedMantissa = n)
    (hlow : 2 ^ width f ≤ n) (hhigh : n ≤ 2 ^ (width f + 1)) (s : Sign) :
    ∃ m' t hm', roundWithAccuracy f s m e accuracy = .finite s m' t hm' ∧ Full f m' ∧
      (m' : ℚ) * 2 ^ t = n * 2 ^ (e + k) := by
  have htarget : f.targetExponent (totalExponent m e) = e + k := by
    rw [targetExponent_eq hleast, hk]
    push_cast
    ring
  have hfirst : shiftToTargetExponent f m e accuracy =
      (ExtendedMantissa.ofMantissaAndAccuracy m accuracy >>> k, e + k) := by
    rw [shiftToTargetExponent, htarget, shiftToExponent, add_sub_cancel_left, Int.toNat_natCast]
  obtain ⟨em, t, hshift, hfull, hvalue⟩ :=
    shiftToTargetExponent_full (t := e + k) hlow hhigh (by omega)
  refine ⟨em.mantissa, t, hfull.pos, ?_, hfull, hvalue⟩
  simp only [roundWithAccuracy, hfirst, hn, hshift, dif_neg hfull.pos.ne']

/-- **A value lies near a whole number of units**: those of its last digit that is kept. -/
theorem Rounded.exists_near (h : Rounded f s v u)
    (hv : (2 : ℚ) ^ (f.minExponent + width f) ≤ v) :
    ∃ (y : ℚ) (n : ℕ) (t : ℤ) (m : ℕ) (e : ℤ) (hm : 0 < m), v = y * 2 ^ t ∧ 2 ^ width f ≤ y ∧
      y < 2 ^ (width f + 1) ∧ |(n : ℚ) - y| ≤ 1 / 2 ∧ (|(n : ℚ) - y| = 1 / 2 → Even n) ∧
      u = .finite s m e hm ∧ Full f m ∧ (m : ℚ) * 2 ^ e = n * 2 ^ t := by
  obtain ⟨m, e, accuracy, x, hlocates, hm⟩ := h
  have hle := hlocates.le
  have hlt := hlocates.lt
  rw [mantissa_ofMantissaAndAccuracy] at hle hlt
  have hpos : m ≠ 0 := (Nat.two_pow_pos (width f)).trans_le hm |>.ne'
  obtain ⟨k, hk⟩ := Nat.exists_eq_add_of_le ((Nat.le_log2 hpos).mpr hm)
  have hrounded := (hlocates.shiftRight k).rounded
  have hlow : (2 : ℚ) ^ width f ≤ x / 2 ^ k := by
    rw [le_div_iff₀ (by positivity), ← pow_add, ← hk]
    exact le_trans (by exact_mod_cast Nat.log2_self_le hpos) hle
  have hhigh : x / 2 ^ k < 2 ^ (width f + 1) := by
    rw [div_lt_iff₀ (by positivity), ← pow_add, Nat.add_right_comm, ← hk]
    exact hlt.trans_le (by exact_mod_cast (Nat.lt_log2_self : m < 2 ^ (m.log2 + 1)))
  have hscaled : x * 2 ^ e = x / 2 ^ k * 2 ^ (e + k) := by
    rw [zpow_add₀ two_ne_zero, zpow_natCast]
    field_simp
  obtain ⟨hnlow, hnhigh⟩ := bounds_of_near hrounded.1 hlow hhigh
  obtain ⟨m', t, hm', hround, hfull, hvalue⟩ :=
    roundWithAccuracy_eq (le_log2_add hlt hv) hk rfl hnlow hnhigh s
  exact ⟨_, _, _, m', t, hm', hscaled, hlow, hhigh, hrounded.1, hrounded.2, hround, hfull, hvalue⟩

/-! ## Values and the numbers that own them -/

/-- Of two whole numbers that are nearest to a value, and even if they are not the only ones, none is
the other one's neighbour. -/
theorem eq_of_nearest {y : ℚ} (hm : |(m : ℚ) - y| ≤ 1 / 2) (hm' : |(m : ℚ) - y| = 1 / 2 → Even m)
    (hn : |(n : ℚ) - y| ≤ 1 / 2) (hn' : |(n : ℚ) - y| = 1 / 2 → Even n) : n = m := by
  by_contra hne
  have hne' : (n : ℤ) ≠ m := by exact_mod_cast hne
  have hle := (near_cases (n := n) (k := m) (by exact_mod_cast hn) hne'.symm).1
  obtain ⟨hle', htie⟩ := near_cases (n := m) (k := n) (by exact_mod_cast hm) hne'
  push_cast at hle hle' htie
  obtain ⟨hmiddle, hgap⟩ := htie (le_antisymm hle hle')
  have heven := hm' hmiddle
  have heven' := hn' ((le_antisymm hle hle').trans hmiddle)
  rw [Nat.even_iff] at heven heven'
  rcases abs_eq (zero_le_one' ℤ) |>.mp hgap with h | h <;> omega

/-- Units that are larger than those of the number leave no room for it. -/
theorem Owns.le_exponent {y : ℚ} (hfull : Full f m) (h : Owns f m e (y * 2 ^ t))
    (hlow : 2 ^ width f ≤ y) : t ≤ e := by
  by_contra hlt
  have hm : (m : ℚ) + 1 ≤ 2 ^ (width f + 1) := by exact_mod_cast hfull.lt
  have hpow : (0 : ℚ) < 2 ^ e := by positivity
  have hunit : (2 : ℚ) * 2 ^ e ≤ 2 ^ t := by
    rw [← zpow_one_add₀ two_ne_zero]
    exact zpow_le_zpow_right₀ one_le_two (by omega)
  have hvalue : ((m : ℚ) + 1) * 2 ^ e ≤ y * 2 ^ t := by
    calc ((m : ℚ) + 1) * 2 ^ e ≤ 2 ^ (width f + 1) * 2 ^ e := mul_le_mul_of_nonneg_right hm hpow.le
      _ = 2 ^ width f * (2 * 2 ^ e) := by ring
      _ ≤ y * 2 ^ t := mul_le_mul hlow hunit (by positivity) (le_trans (by positivity) hlow)
  have hnear := (abs_le.mp h.near).2
  linarith

/-- Units that are smaller are smaller by one digit, the number is a power of two, and the value lies
just below it. -/
theorem Owns.of_lt_exponent {y : ℚ} (hfull : Full f m) (he : f.minExponent < e)
    (h : Owns f m e (y * 2 ^ t)) (hhigh : y < 2 ^ (width f + 1)) (hlt : t < e) :
    (2 : ℚ) ^ e = 2 * 2 ^ t ∧ m = 2 ^ width f ∧ 2 ^ (width f + 1) - 1 / 2 ≤ y := by
  have hpow : (0 : ℚ) < 2 ^ e := by positivity
  have hone : (1 : ℚ) ≤ 2 ^ width f := one_le_pow₀ one_le_two
  have hvalue {j : ℤ} (hj : t + 1 + j ≤ e) (hj' : 0 ≤ j) :
      y * 2 ^ t * 2 ^ j < 2 ^ width f * 2 ^ e := by
    calc y * 2 ^ t * 2 ^ j < 2 ^ (width f + 1) * 2 ^ t * 2 ^ j := by gcongr
      _ = 2 ^ width f * 2 ^ (t + 1 + j) := by
        rw [zpow_add₀ two_ne_zero, zpow_add_one₀ two_ne_zero]
        ring
      _ ≤ 2 ^ width f * 2 ^ e :=
        mul_le_mul_of_nonneg_left (zpow_le_zpow_right₀ one_le_two hj) (by positivity)
  have hbelow := hvalue (j := 0) (by omega) le_rfl
  rw [zpow_zero, mul_one] at hbelow
  have hnear := (abs_le.mp h.near).1
  have hleast : m = 2 ^ width f := by
    refine le_antisymm (Nat.lt_succ_iff.mp ?_) hfull.le
    have hm : (m : ℚ) < (2 ^ width f + 1 : ℕ) := by
      push_cast
      by_contra hge
      have hmul := mul_le_mul_of_nonneg_right (not_lt.mp hge) hpow.le
      linarith
    exact_mod_cast hm
  have hdense := h.dense hleast he
  have hcast : (m : ℚ) = 2 ^ width f := by exact_mod_cast hleast
  rw [hcast] at hdense
  have hnext : t + 1 = e := by
    by_contra hne
    have hfar := hvalue (j := 1) (by omega) zero_le_one
    rw [zpow_one] at hfar
    have hmul := mul_le_mul_of_nonneg_right hone hpow.le
    linarith
  have hunit : (2 : ℚ) ^ e = 2 * 2 ^ t := by
    rw [← hnext, zpow_add_one₀ two_ne_zero, mul_comm]
  refine ⟨hunit, hleast, le_of_mul_le_mul_right ?_ (by positivity : (0 : ℚ) < 2 ^ t)⟩
  rw [hunit] at hdense
  rw [pow_succ]
  linarith

/-- The number that owns a value is nearest among the multiples of the unit of its digits. -/
theorem Owns.value_eq {y : ℚ} (hfull : Full f m) (he : f.minExponent < e)
    (h : Owns f m e (y * 2 ^ t)) (hlow : 2 ^ width f ≤ y) (hhigh : y < 2 ^ (width f + 1))
    (hn : |(n : ℚ) - y| ≤ 1 / 2) (hn' : |(n : ℚ) - y| = 1 / 2 → Even n) :
    (n : ℚ) * 2 ^ t = m * 2 ^ e := by
  rcases (h.le_exponent hfull hlow).eq_or_lt with rfl | hlt
  · -- with the same unit, the number is nearest as a mantissa
    have hpow : (0 : ℚ) < 2 ^ t := by positivity
    have hdist : |y * 2 ^ t - m * 2 ^ t| = |(m : ℚ) - y| * 2 ^ t := by
      rw [← sub_mul, abs_mul, abs_of_pos hpow, abs_sub_comm]
    have hnear := h.near
    have heven := h.even
    rw [hdist] at hnear heven
    rw [eq_of_nearest (le_of_mul_le_mul_right (by linarith) hpow)
      (fun hmiddle => heven (by rw [hmiddle]; ring)) hn hn']
  · -- with the smaller one, the value is rounded up to the power of two
    obtain ⟨hunit, rfl, hy⟩ := h.of_lt_exponent hfull he hhigh hlt
    obtain ⟨hbelow, habove⟩ := abs_le.mp hn
    have hpower : n = 2 ^ (width f + 1) := by
      have hle := (bounds_of_near hn hlow hhigh).2
      refine hle.eq_or_lt.resolve_right fun hless => ?_
      have hn1 : (n : ℚ) + 1 ≤ 2 ^ (width f + 1) := by exact_mod_cast hless
      have hmiddle : y = n + 1 / 2 := by linarith
      have heven := hn' (by rw [hmiddle, abs_of_nonpos (by linarith)]; ring)
      have hodd : (n : ℚ) + 1 = (2 ^ (width f + 1) : ℕ) := by
        push_cast
        linarith
      have hodd : n + 1 = 2 * 2 ^ width f := by rw [← pow_succ']; exact_mod_cast hodd
      rw [Nat.even_iff] at heven
      omega
    rw [hpower, hunit]
    push_cast
    ring

/-- Two mantissas with all their digits are the same if their numbers are. -/
theorem Full.eq_of_value_eq (h : Full f m) (h' : Full f m')
    (hvalue : (m : ℚ) * 2 ^ e = m' * 2 ^ e') : m = m' ∧ e = e' := by
  have hle {m m' : ℕ} {e e' : ℤ} (h : Full f m) (h' : Full f m')
      (hvalue : (m : ℚ) * 2 ^ e = m' * 2 ^ e') : e ≤ e' := by
    have hlow : (2 : ℚ) ^ (width f : ℤ) ≤ m := by exact_mod_cast h.le
    have hhigh : (m' : ℚ) < 2 ^ (width f + 1 : ℤ) := by exact_mod_cast h'.lt
    have hlt : (2 : ℚ) ^ (width f + e : ℤ) < 2 ^ (width f + 1 + e' : ℤ) := by
      rw [zpow_add₀ two_ne_zero, zpow_add₀ two_ne_zero _ e']
      calc (2 : ℚ) ^ (width f : ℤ) * 2 ^ e ≤ m * 2 ^ e := by gcongr
        _ = m' * 2 ^ e' := hvalue
        _ < 2 ^ (width f + 1 : ℤ) * 2 ^ e' := by gcongr
    have hexponent := (zpow_lt_zpow_iff_right₀ one_lt_two).mp hlt
    omega
  obtain rfl := le_antisymm (hle h h' hvalue) (hle h' h hvalue.symm)
  have hpow : (2 : ℚ) ^ e ≠ 0 := by positivity
  exact ⟨by exact_mod_cast mul_right_cancel₀ hpow hvalue, rfl⟩

/-- What a number owns is not below the powers of two that are below the number. -/
theorem Owns.two_pow_le (hfull : Full f m) (h : Owns f m e v) (ht : t < e) :
    (2 : ℚ) ^ (t + width f) ≤ v := by
  have hm : (2 : ℚ) ^ (width f : ℤ) ≤ m := by exact_mod_cast hfull.le
  have hone : (1 : ℚ) ≤ m := by exact_mod_cast hfull.pos
  have hnear := (abs_le.mp h.near).1
  have hpow : (0 : ℚ) < 2 ^ (e - 1) := by positivity
  have hhalf : (2 : ℚ) ^ e = 2 * 2 ^ (e - 1) := by
    rw [← zpow_one_add₀ two_ne_zero, add_sub_cancel]
  calc (2 : ℚ) ^ (t + width f) ≤ 2 ^ (e - 1 + width f) :=
        zpow_le_zpow_right₀ one_le_two (by omega)
    _ = 2 ^ (width f : ℤ) * 2 ^ (e - 1) := by rw [zpow_add₀ two_ne_zero, mul_comm]
    _ ≤ m * 2 ^ (e - 1) := by gcongr
    _ ≤ (m + (m - 1)) * 2 ^ (e - 1) := by gcongr; linarith
    _ ≤ v := by
      rw [hhalf] at hnear
      linarith

/-- Nor does it reach the power of two with one more digit. -/
theorem Owns.lt_two_pow (hfull : Full f m) (h : Owns f m e v) :
    v < 2 ^ (width f + 1 + e : ℤ) := by
  have hm : (m : ℚ) + 1 ≤ 2 ^ (width f + 1 : ℤ) := by exact_mod_cast hfull.lt
  have hpow : (0 : ℚ) < 2 ^ e := by positivity
  have hnear := (abs_le.mp h.near).2
  calc v < (m + 1) * 2 ^ e := by linarith
    _ ≤ 2 ^ (width f + 1 : ℤ) * 2 ^ e := by gcongr
    _ = 2 ^ (width f + 1 + e : ℤ) := (zpow_add₀ two_ne_zero _ _).symm

/-- **A value is rounded to the number that owns it.** -/
theorem Rounded.eq_of_owns (h : Rounded f s v u) (hfull : Full f m) (he : f.minExponent < e)
    (hv : Owns f m e v) : u = .finite s m e hfull.pos := by
  obtain ⟨y, n, t, m', e', hm', rfl, hlow, hhigh, hn, hn', rfl, hfull', hvalue⟩ :=
    h.exists_near (hv.two_pow_le hfull he)
  rw [hv.value_eq hfull he hlow hhigh hn hn'] at hvalue
  obtain ⟨rfl, rfl⟩ := hfull'.eq_of_value_eq hfull hvalue
  rfl

/-! ## Operations that round -/

/-- Nothing has been lost before. -/
theorem rounded_exact (hm : 2 ^ width f ≤ m) (e : ℤ) (s : Sign) :
    Rounded f s (m * 2 ^ e) (roundWithAccuracy f s m e .exact) :=
  .intro m e .exact m (locates_exact m) hm

/-- A number that comes from another format is given digits before it is rounded. -/
theorem rounded_round (hm : 0 < m) (hv : (2 : ℚ) ^ (f.minExponent + width f) ≤ m * 2 ^ e)
    (s : Sign) : Rounded f s (m * 2 ^ e) (UnpackedFloat.round f s m e) := by
  have hleast := le_log2_add (lt_add_one (m : ℚ)) hv
  obtain ⟨t, ht⟩ : ∃ t, t = f.targetExponent (totalExponent m e) := ⟨_, rfl⟩
  have htarget := ht.trans (targetExponent_eq hleast)
  have hvalue : ((m * 2 ^ (e - t).toNat : ℕ) : ℚ) * 2 ^ min e t = m * 2 ^ e := by
    have happly := Single.apply_decreaseExponent .positive m e t
    rwa [Single.apply_positive, Single.apply_positive] at happly
  have hfull : 2 ^ width f ≤ m * 2 ^ (e - t).toNat := by
    calc 2 ^ width f ≤ 2 ^ (m.log2 + (e - t).toNat) := Nat.pow_le_pow_right two_pos (by omega)
      _ = 2 ^ m.log2 * 2 ^ (e - t).toNat := pow_add _ _ _
      _ ≤ m * 2 ^ (e - t).toNat := Nat.mul_le_mul_right _ (Nat.log2_self_le hm.ne')
  have hround := rounded_exact hfull (min e t) s
  rw [hvalue] at hround
  simpa only [UnpackedFloat.round, decreaseExponent_eq, ← ht] using hround

/-- A number with few enough digits is given the missing ones, and nothing is lost. -/
theorem exists_round_eq (hm : 0 < m) (hlt : m < 2 ^ (width f + 1))
    (he : f.minExponent + width f < e) (s : Sign) :
    ∃ m' e', ∃ hfull : Full f m', UnpackedFloat.round f s m e = .finite s m' e' hfull.pos ∧
      (m' : ℚ) * 2 ^ e' = m * 2 ^ e ∧ e - width f ≤ e' ∧ e' ≤ e := by
  have hle : m.log2 ≤ width f := Nat.lt_succ_iff.mp ((Nat.log2_lt hm.ne').mpr hlt)
  obtain ⟨k, hk⟩ := Nat.exists_eq_add_of_le hle
  have hfull : Full f (m * 2 ^ k) := by
    rw [width] at hk
    constructor
    · rw [width, hk, pow_add]
      exact Nat.mul_le_mul_right _ (Nat.log2_self_le hm.ne')
    · rw [width, hk, Nat.add_right_comm, pow_add]
      exact Nat.mul_lt_mul_of_pos_right Nat.lt_log2_self (Nat.two_pow_pos k)
  have hvalue : ((m * 2 ^ k : ℕ) : ℚ) * 2 ^ (e - k) = m * 2 ^ e := by
    rw [zpow_sub₀ two_ne_zero, zpow_natCast]
    push_cast
    field_simp
  have howns := owns_self f (m * 2 ^ k) (e - k)
  rw [hvalue] at howns
  have hround := rounded_round hm (howns.two_pow_le hfull (by omega : f.minExponent < e - k)) s
  exact ⟨_, _, hfull, hround.eq_of_owns hfull (by omega) howns, hvalue, by omega, by omega⟩

theorem rounded_mul (s s' : Sign) (e e' : ℤ) (hm : 0 < m) (hm' : 0 < m')
    (hfull : 2 ^ width f ≤ m * m') :
    Rounded f (s * s') (m * 2 ^ e * (m' * 2 ^ e'))
      (UnpackedFloat.mul f (.finite s m e hm) (.finite s' m' e' hm')) := by
  have hvalue : (m : ℚ) * 2 ^ e * (m' * 2 ^ e') = (m * m' : ℕ) * 2 ^ (e + e') := by
    rw [zpow_add₀ two_ne_zero]
    push_cast
    ring
  rw [hvalue]
  exact rounded_exact hfull (e + e') (s * s')

/-- The exponent that a quotient is computed with. -/
def quotientExponent (f : Format) (m : ℕ) (e : ℤ) (m' : ℕ) (e' : ℤ) : ℤ :=
  min (e - e') (m.log2 + e - (m'.log2 + e') - width f - 1)

theorem divCore_eq (h : f.minExponent + width f + 1 ≤ m.log2 + e - (m'.log2 + e')) :
    divCore f m e m' e' =
      (m * 2 ^ (e - e' - quotientExponent f m e m' e').toNat / m', quotientExponent f m e m' e',
        accuracyOfFraction (m * 2 ^ (e - e' - quotientExponent f m e m' e').toNat % m') m') := by
  have hexponent : min (e - e') (f.targetExponent (totalExponent m e - totalExponent m' e')) =
      quotientExponent f m e m' e' := by
    rw [width] at h
    rw [Format.targetExponent, totalExponent, totalExponent, Format.mantissaBits, quotientExponent,
      width]
    push_cast
    omega
  simp only [divCore, hexponent, Nat.shiftLeft_eq]

/-- **A quotient is computed with enough digits.** -/
theorem le_quotient (f : Format) (e e' : ℤ) (hm : 0 < m) (hm' : 0 < m') :
    2 ^ width f ≤ m * 2 ^ (e - e' - quotientExponent f m e m' e').toNat / m' := by
  obtain ⟨t, ht⟩ : ∃ t, t = quotientExponent f m e m' e' := ⟨_, rfl⟩
  rw [← ht]
  rw [quotientExponent] at ht
  rw [Nat.le_div_iff_mul_le hm']
  calc 2 ^ width f * m' ≤ 2 ^ width f * 2 ^ (m'.log2 + 1) :=
        Nat.mul_le_mul_left _ Nat.lt_log2_self.le
    _ = 2 ^ (width f + (m'.log2 + 1)) := (pow_add _ _ _).symm
    _ ≤ 2 ^ (m.log2 + (e - e' - t).toNat) := Nat.pow_le_pow_right two_pos (by omega)
    _ = 2 ^ m.log2 * 2 ^ (e - e' - t).toNat := pow_add _ _ _
    _ ≤ m * 2 ^ (e - e' - t).toNat := Nat.mul_le_mul_right _ (Nat.log2_self_le hm.ne')

theorem rounded_div (s s' : Sign) (e e' : ℤ) (hm : 0 < m) (hm' : 0 < m')
    (hv : (2 : ℚ) ^ (f.minExponent + width f + 1) ≤ m * 2 ^ e / (m' * 2 ^ e')) :
    Rounded f (s / s') (m * 2 ^ e / (m' * 2 ^ e'))
      (UnpackedFloat.div f (.finite s m e hm) (.finite s' m' e' hm')) := by
  have hleast : f.minExponent + width f + 1 ≤ m.log2 + e - (m'.log2 + e') := by
    have hm1 : (m : ℚ) < 2 ^ (m.log2 + 1 : ℤ) := by
      exact_mod_cast (Nat.lt_log2_self : m < 2 ^ (m.log2 + 1))
    have hm2 : (2 : ℚ) ^ (m'.log2 : ℤ) ≤ m' := by
      exact_mod_cast Nat.log2_self_le hm'.ne'
    have hlt : (2 : ℚ) ^ (f.minExponent + width f + 1) <
        2 ^ (m.log2 + 1 + e - (m'.log2 + e') : ℤ) := by
      refine hv.trans_lt ?_
      rw [zpow_sub₀ two_ne_zero, zpow_add₀ two_ne_zero _ e, zpow_add₀ two_ne_zero _ e']
      exact div_lt_div₀ (mul_lt_mul_of_pos_right hm1 (by positivity))
        (mul_le_mul_of_nonneg_right hm2 (by positivity)) (by positivity) (by positivity)
    have hexponent := (zpow_lt_zpow_iff_right₀ one_lt_two).mp hlt
    omega
  obtain ⟨t, ht⟩ : ∃ t, t = quotientExponent f m e m' e' := ⟨_, rfl⟩
  have hle : t ≤ e - e' := ht ▸ min_le_left _ _
  have hvalue : (m : ℚ) * 2 ^ e / (m' * 2 ^ e') =
      ((m * 2 ^ (e - e' - t).toNat : ℕ) : ℚ) / m' * 2 ^ t := by
    have hpow : (2 : ℚ) ^ e = 2 ^ (e - e' - t).toNat * 2 ^ t * 2 ^ e' := by
      rw [← two_pow_toNat hle, ← zpow_add₀ two_ne_zero, sub_add_cancel]
    have hne : (m' : ℚ) ≠ 0 := by exact_mod_cast hm'.ne'
    rw [hpow]
    push_cast
    field_simp
  have hfull := le_quotient f e e' hm hm'
  rw [← ht] at hfull
  have hround := Rounded.intro (s := s / s') _ t _ _ (locates_div _ hm') hfull
  rw [hvalue]
  simpa only [UnpackedFloat.div, divCore_eq hleast, ← ht] using hround

end Precision
end SpecOverlay
