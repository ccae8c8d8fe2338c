import SpecOverlay.Proofs.Number.Value

/-!
# Nearest values

The values of normal numbers lie on a grid: multiples of powers of two with at most 24 binary
digits (`OnGrid`).  A value off the grid is rounded to a nearest one on it, and of two that are
equally near to the even one (`Nearest`).  So nothing on the grid lies strictly between a value and
the rounded one (`Nearest.ge`), and there is only one such value (`Nearest.unique`).

To round a value it is enough to look at the multiples of one power of two
(`nearest_of_multiple`).  The finer part of the grid is no nearer, because it lies below the least
multiple with 24 digits.
-/

namespace SpecOverlay
namespace Single

open Float.Model.UnpackedFloat

/-! ## The grid -/

/-- A multiple of a power of two with at most 24 binary digits: the value of a normal number,
or one that is too large for a number. -/
def OnGrid (v : ℚ) : Prop :=
  ∃ n e : ℤ, |n| ≤ 2 ^ 24 ∧ -149 ≤ e ∧ v = n * 2 ^ e

/-- A value on the grid that no other one there is nearer to `v` than.  If another one is as near,
it is an even multiple of their distance. -/
structure Nearest (r v : ℚ) : Prop where
  onGrid : OnGrid r
  le : ∀ y, OnGrid y → |r - v| ≤ |y - v|
  even : ∀ y, OnGrid y → |y - v| = |r - v| → y ≠ r → ∃ j : ℤ, r = 2 * j * (r - y)

variable {r v y : ℚ} {m n : ℕ} {e t : ℤ} {s : Sign}

theorem onGrid_zero : OnGrid 0 :=
  ⟨0, 0, by simp, by omega, by simp⟩

theorem OnGrid.neg (h : OnGrid v) : OnGrid (-v) := by
  obtain ⟨n, e, hn, he, rfl⟩ := h
  exact ⟨-n, e, by rwa [abs_neg], he, by push_cast; ring⟩

theorem onGrid_magnitude (hm : m ≤ 2 ^ 24) (he : -149 ≤ e) : OnGrid (m * 2 ^ e) :=
  ⟨m, e, by rw [Nat.abs_cast]; exact_mod_cast hm, he, by rw [Int.cast_natCast]⟩

theorem onGrid_apply (hm : m ≤ 2 ^ 24) (he : -149 ≤ e) : OnGrid (s.apply m * 2 ^ e) := by
  cases s with
  | positive => exact apply_positive m ▸ onGrid_magnitude hm he
  | negative =>
    rw [apply_negative, neg_mul]
    exact (onGrid_magnitude hm he).neg

namespace Nearest

theorem neg (h : Nearest r v) : Nearest (-r) (-v) where
  onGrid := h.onGrid.neg
  le y hy := by
    have hle := h.le (-y) hy.neg
    rwa [← abs_neg, ← abs_neg (y - -v), show -(-r - -v) = r - v by ring,
      show -(y - -v) = -y - v by ring]
  even y hy htie hne := by
    rw [← abs_neg, ← abs_neg (-r - -v), show -(-r - -v) = r - v by ring,
      show -(y - -v) = -y - v by ring] at htie
    obtain ⟨j, hj⟩ := h.even (-y) hy.neg htie fun h => hne (neg_eq_iff_eq_neg.mp h)
    exact ⟨j, by linear_combination -hj⟩

theorem self (h : OnGrid v) : Nearest v v where
  onGrid := h
  le y _ := by
    rw [sub_self, abs_zero]
    exact abs_nonneg _
  even y _ htie hne := by
    rw [sub_self, abs_zero, abs_eq_zero, sub_eq_zero] at htie
    exact absurd htie hne

/-- What is on the grid below a value is not above the rounded value. -/
theorem ge (h : Nearest r v) (hy : OnGrid y) (hle : y ≤ v) : y ≤ r := by
  by_contra hlt
  have hdist := h.le y hy
  rw [abs_of_nonpos (by linarith), abs_of_nonpos (by linarith)] at hdist
  linarith

/-- What is on the grid above a value is not below the rounded value. -/
theorem le_of_le (h : Nearest r v) (hy : OnGrid y) (hle : v ≤ y) : r ≤ y :=
  neg_le_neg_iff.mp (h.neg.ge hy.neg (neg_le_neg hle))

/-- A value on the grid is rounded to itself. -/
theorem eq_of_onGrid (h : Nearest r v) (hv : OnGrid v) : r = v := by
  have hdist := h.le v hv
  rw [sub_self, abs_zero] at hdist
  exact sub_eq_zero.mp (abs_nonpos_iff.mp hdist)

/-- **A value is rounded in one way only**: of two that are equally near one is odd. -/
theorem unique (h : Nearest r v) (h' : Nearest y v) : r = y := by
  by_contra hne
  have htie : |y - v| = |r - v| := le_antisymm (h'.le r h.onGrid) (h.le y h'.onGrid)
  obtain ⟨j, hj⟩ := h.even y h'.onGrid htie (Ne.symm hne)
  obtain ⟨k, hk⟩ := h'.even r h.onGrid htie.symm hne
  have hodd : ((2 * (j + k) : ℤ) : ℚ) * (r - y) = (1 : ℤ) * (r - y) := by
    push_cast
    linear_combination -hj + hk
  have hodd := Int.cast_injective (mul_right_cancel₀ (sub_ne_zero.mpr hne) hodd)
  omega

end Nearest

/-! ## The nearest multiple -/

theorem two_pow_toNat (h : e ≤ t) : (2 : ℚ) ^ t = 2 ^ (t - e).toNat * 2 ^ e := by
  rw [← zpow_natCast, Int.toNat_of_nonneg (by omega), ← zpow_add₀ two_ne_zero, sub_add_cancel]

/-- The part of the grid that is finer than a power of two lies below `2 ^ 23` times the power. -/
theorem grid_le_two_pow {n j t : ℤ} (hn : |n| ≤ 2 ^ 24) (hjt : j < t) :
    (n : ℚ) * 2 ^ j ≤ 2 ^ 23 * 2 ^ t := by
  have hn' : (n : ℚ) ≤ 2 ^ (24 : ℤ) := by exact_mod_cast (le_abs_self n).trans hn
  calc (n : ℚ) * 2 ^ j
    _ ≤ 2 ^ (24 : ℤ) * 2 ^ j := mul_le_mul_of_nonneg_right hn' (by positivity)
    _ = 2 ^ (24 + j) := (zpow_add₀ two_ne_zero _ _).symm
    _ ≤ 2 ^ (23 + t) := zpow_le_zpow_right₀ one_le_two (by omega)
    _ = 2 ^ 23 * 2 ^ t := zpow_add₀ two_ne_zero _ _

/-- So beside a value that is not below this, what is on the grid is a multiple of the power, or
there is one strictly between. -/
theorem exists_multiple {g : ℚ} (hg : OnGrid g) (hlow : t = -149 ∨ 2 ^ 23 ≤ y) :
    ∃ k : ℤ, g = k * 2 ^ t ∨ g < k * 2 ^ t ∧ (k : ℚ) ≤ y := by
  obtain ⟨n, j, hn, hj, rfl⟩ := hg
  rcases le_or_gt t j with htj | hjt
  · refine ⟨n * 2 ^ (j - t).toNat, .inl ?_⟩
    rw [two_pow_toNat htj]
    push_cast
    ring
  · refine ⟨2 ^ 23, ?_⟩
    have hle := grid_le_two_pow hn hjt
    have hy := hlow.resolve_left (by omega)
    push_cast
    exact hle.eq_or_lt.imp_right fun hlt => ⟨hlt, hy⟩

/-- A number at most half away from a value is nearest to it.  Another one that is as near is its
neighbour, with the value in the middle. -/
theorem near_cases {n k : ℤ} (hnear : |(n : ℚ) - y| ≤ 1 / 2) (hk : k ≠ n) :
    |(n : ℚ) - y| ≤ |(k : ℚ) - y| ∧
      (|(k : ℚ) - y| = |(n : ℚ) - y| → |(n : ℚ) - y| = 1 / 2 ∧ |n - k| = 1) := by
  have hgap : 1 ≤ |n - k| := Int.one_le_abs (by omega)
  have hgap' : (1 : ℚ) ≤ |(n : ℚ) - k| := by exact_mod_cast hgap
  have htriangle : |(n : ℚ) - k| ≤ |(n : ℚ) - y| + |(k : ℚ) - y| := by
    rw [abs_sub_comm (k : ℚ)]
    exact abs_sub_le _ _ _
  refine ⟨by linarith, fun htie => ?_⟩
  have hle : |(n : ℚ) - k| ≤ 1 := by linarith
  exact ⟨by linarith, le_antisymm (by exact_mod_cast hle) hgap⟩

theorem exists_even_multiple {n k : ℤ} (hn : Even n) (hgap : |n - k| = 1) :
    ∃ j : ℤ, n = 2 * j * (n - k) := by
  obtain ⟨i, rfl⟩ := hn
  have hsquare : (i + i - k) * (i + i - k) = 1 := by rw [← abs_mul_abs_self, hgap, one_mul]
  exact ⟨i * (i + i - k), by linear_combination (-2 * i) * hsquare⟩

/-- **A multiple of a power of two is nearest on the grid if it is nearest among the multiples**,
provided that the value has 24 digits before the power or the power is the least one. -/
theorem nearest_of_multiple (hn : n ≤ 2 ^ 24) (ht : -149 ≤ t) (hlow : t = -149 ∨ 2 ^ 23 ≤ y)
    (hnear : |(n : ℚ) - y| ≤ 1 / 2) (heven : |(n : ℚ) - y| = 1 / 2 → Even n) :
    Nearest (n * 2 ^ t) (y * 2 ^ t) := by
  have hpow : (0 : ℚ) < 2 ^ t := by positivity
  have hdist (k : ℚ) : |k * 2 ^ t - y * 2 ^ t| = |k - y| * 2 ^ t := by
    rw [← sub_mul, abs_mul, abs_of_pos hpow]
  have hle (k : ℤ) : |(n : ℚ) * 2 ^ t - y * 2 ^ t| ≤ |(k : ℚ) * 2 ^ t - y * 2 ^ t| := by
    rw [hdist, hdist]
    refine mul_le_mul_of_nonneg_right ?_ hpow.le
    rcases eq_or_ne k n with rfl | hk
    · exact le_rfl
    · exact (near_cases hnear hk).1
  -- what is finer is farther than the multiple beside it
  have hfiner {g : ℚ} {k : ℤ} (hg : g < k * 2 ^ t) (hk : (k : ℚ) ≤ y) :
      |(n : ℚ) * 2 ^ t - y * 2 ^ t| < |g - y * 2 ^ t| := by
    have hky : (k : ℚ) * 2 ^ t ≤ y * 2 ^ t := mul_le_mul_of_nonneg_right hk hpow.le
    refine (hle k).trans_lt ?_
    rw [abs_of_nonpos (by linarith), abs_of_nonpos (by linarith)]
    linarith
  refine ⟨onGrid_magnitude hn ht, fun g hg => ?_, fun g hg htie hne => ?_⟩
  · obtain ⟨k, rfl | ⟨hlt, hk⟩⟩ := exists_multiple hg hlow
    · exact hle k
    · exact (hfiner hlt hk).le
  · obtain ⟨k, rfl | ⟨hlt, hk⟩⟩ := exists_multiple hg hlow
    · have hkn : k ≠ n := by
        rintro rfl
        exact hne (by rw [Int.cast_natCast])
      rw [hdist, hdist, mul_left_inj' hpow.ne'] at htie
      obtain ⟨hmiddle, hgap⟩ := (near_cases hnear hkn).2 htie
      obtain ⟨j, hj⟩ := exists_even_multiple ((Int.even_coe_nat n).mpr (heven hmiddle)) hgap
      have hj' : (n : ℚ) = 2 * j * (n - k) := by exact_mod_cast hj
      exact ⟨j, by linear_combination (2 ^ t) * hj'⟩
    · exact absurd htie (hfiner hlt hk).ne'

end Single
end SpecOverlay
