import SpecOverlay.Proofs.Number.Rounding

/-!
# Sums in single precision

A rounded result is packed, and becomes an infinity if its value is `2 ^ 128` or more
(`RoundsTo`).  A sum of finite numbers is the exact sum, rounded in this sense (`roundsTo_add`).

A positive number that is added makes no number smaller, because the sum is not rounded beyond
the first summand: it is larger than that or the same (`lt_add_or_add_eq`).  It is larger if
the first summand is less than `2 ^ 24` times the other (`lt_add_of_abs_lt`).
-/

namespace SpecOverlay
namespace Single

open Float.Model (Format UnpackedFloat)
open Float.Model.UnpackedFloat

/-! ## Operations -/

/-- A number that stands for a value after rounding: the nearest value if that is less than
`2 ^ 128`, and an infinity otherwise. -/
def RoundsTo (x : Float32) (v : ℚ) : Prop :=
  ∃ r, Nearest r v ∧ (value? x = some r ∨ decode x = .infinity .positive ∧ 2 ^ 128 ≤ r ∨
    decode x = .infinity .negative ∧ r ≤ -2 ^ 128)

variable {a b c x : Float32} {p q v : ℚ} {u : UnpackedFloat} {m : ℕ} {e : ℤ}

theorem Rounds.finite_of_normal (h : Normal m e) (hm : 0 < m) (s : Sign) :
    Rounds (s.apply m * 2 ^ e) (.finite s m e hm) :=
  .finite s m e hm h (.self (onGrid_apply h.lt.le h.le))

/-- Packing keeps a rounded number or makes it infinite. -/
theorem Rounds.roundsTo (h : Rounds v u) (hx : decode x = repack u) : RoundsTo x v := by
  cases h with
  | zero s hnearest => exact ⟨0, hnearest, .inl (by rw [value?, hx, repack_zero]; rfl)⟩
  | finite s m e hm hnormal hnearest =>
    refine ⟨_, hnearest, ?_⟩
    rcases le_or_gt e 104 with hmax | hover
    · exact .inl (by rw [value?, hx, repack_finite hm hnormal hmax]; rfl)
    · have hlarge : (2 : ℚ) ^ 128 ≤ m * 2 ^ e := by
        have hfull := hnormal.full.resolve_right (by omega)
        calc (2 : ℚ) ^ 128 = 2 ^ (128 : ℤ) := by norm_cast
          _ ≤ 2 ^ (e + 23) := zpow_le_zpow_right₀ one_le_two (by omega)
          _ ≤ m * 2 ^ e := two_pow_le_magnitude hfull e
      rw [repack_over hm hover] at hx
      cases s with
      | positive =>
        rw [apply_positive]
        exact .inr (.inl ⟨hx, hlarge⟩)
      | negative =>
        rw [apply_negative, neg_mul]
        exact .inr (.inr ⟨hx, neg_le_neg hlarge⟩)

/-- **The sum of two numbers is their exact sum, rounded.** -/
theorem roundsTo_add (ha : value? a = some p) (hb : value? b = some q) :
    RoundsTo (a + b) (p + q) := by
  have hsum : decode (a + b) =
    repack (UnpackedFloat.add Format.binary32 (decode a) (decode b)) := rfl
  refine Rounds.roundsTo ?_ hsum
  rcases decode_of_value ha with ⟨s, hu, rfl⟩ | ⟨s, m, e, hm, hu, hnormal, -, rfl⟩
  · rcases decode_of_value hb with ⟨s', hv, rfl⟩ | ⟨s', m', e', hm', hv, hnormal', -, rfl⟩
    · rw [hu, hv, add_zero]
      cases s <;> cases s' <;> exact rounds_zero _
    · rw [hu, hv, zero_add]
      exact .finite_of_normal hnormal' hm' s'
  · rcases decode_of_value hb with ⟨s', hv, rfl⟩ | ⟨s', m', e', hm', hv, -, -, rfl⟩
    · rw [hu, hv, add_zero]
      exact .finite_of_normal hnormal hm s
    · rw [hu, hv]
      exact rounds_add_finite s s' hm hm'

/-- What is on the grid and not too large is a number. -/
theorem RoundsTo.value (h : RoundsTo x v) (hv : OnGrid v) (hlt : |v| < 2 ^ 128) :
    value? x = some v := by
  obtain ⟨r, hnearest, hx⟩ := h
  obtain rfl := hnearest.eq_of_onGrid hv
  rw [abs_lt] at hlt
  rcases hx with hx | ⟨-, hr⟩ | ⟨-, hr⟩
  · exact hx
  · linarith
  · linarith

/-! ## Adding a positive number -/

theorem onGrid_of_value (ha : value? a = some p) : OnGrid p := by
  rcases decode_of_value ha with ⟨s, -, rfl⟩ | ⟨s, m, e, hm, -, hnormal, -, rfl⟩
  · exact onGrid_zero
  · exact onGrid_apply hnormal.lt.le hnormal.le

theorem abs_apply (s : Sign) (m : ℕ) (e : ℤ) : |(s.apply m : ℚ) * 2 ^ e| = m * 2 ^ e := by
  have hnonneg : (0 : ℚ) ≤ m * 2 ^ e := by positivity
  cases s with
  | positive => rw [apply_positive, abs_of_nonneg hnonneg]
  | negative => rw [apply_negative, neg_mul, abs_neg, abs_of_nonneg hnonneg]

theorem abs_value_lt (ha : value? a = some p) : |p| < 2 ^ 128 := by
  rcases decode_of_value ha with ⟨s, -, rfl⟩ | ⟨s, m, e, hm, -, hnormal, hmax, rfl⟩
  · rw [abs_zero]
    positivity
  · have hlt : (m : ℚ) * 2 ^ e < 2 ^ 128 := by
      calc (m : ℚ) * 2 ^ e < 2 ^ (e + 24) := magnitude_lt_two_pow hnormal.lt e
        _ ≤ 2 ^ (128 : ℤ) := zpow_le_zpow_right₀ one_le_two (by omega)
        _ = 2 ^ 128 := by norm_cast
    rwa [abs_apply]

/-- A sum with a positive number is not less than the other summand. -/
theorem add_pos_cases (ha : value? a = some p) (hb : value? b = some q) (hq : 0 < q) :
    (∃ r, value? (a + b) = some r ∧ p ≤ r ∧ Nearest r (p + q)) ∨
      decode (a + b) = .infinity .positive := by
  obtain ⟨r, hnearest, hsum⟩ := roundsTo_add ha hb
  have hle : p ≤ r := hnearest.ge (onGrid_of_value ha) (by linarith)
  have hp := abs_lt.mp (abs_value_lt ha)
  rcases hsum with hsum | ⟨hsum, -⟩ | ⟨-, hr⟩
  · exact .inl ⟨r, hsum, hle, hnearest⟩
  · exact .inr hsum
  · linarith

/-- Nothing is larger than the positive infinity. -/
theorem not_lt_of_infinity (ha : decode a = .infinity .positive) : ¬ a < c := by
  rw [lt_iff_compare, ha]
  rcases decode c with ⟨_ | _⟩ | _ | _ | _ <;> simp [UnpackedFloat.compare, compare]

/-- What is less than another number is finite or the negative infinity. -/
theorem value_of_lt (h : a < c) : (∃ p, value? a = some p) ∨ decode a = .infinity .negative := by
  rw [value?]
  cases hu : decode a with
  | zero s => exact .inl ⟨_, rfl⟩
  | finite s m e hm => exact .inl ⟨_, rfl⟩
  | notANumber =>
    rw [lt_iff_compare, hu] at h
    simp [UnpackedFloat.compare] at h
  | infinity s =>
    cases s with
    | negative => exact .inr rfl
    | positive => exact absurd h (not_lt_of_infinity hu)

/-- **A positive number that is added makes the sum larger or is lost.** -/
theorem lt_add_or_add_eq (h : a < c) (hb : value? b = some q) (hq : 0 < q) :
    a < a + b ∨ a + b = a := by
  rcases value_of_lt h with ⟨p, ha⟩ | ha
  · rcases add_pos_cases ha hb hq with ⟨r, hsum, hle, hnearest⟩ | hsum
    · rcases hle.lt_or_eq with hlt | rfl
      · exact .inl ((lt_iff_of_value ha hsum).mpr hlt)
      · have hp : p ≠ 0 := by
          rintro rfl
          rw [zero_add] at hnearest
          exact hq.ne (hnearest.eq_of_onGrid (onGrid_of_value hb))
        exact .inr (eq_of_value hsum ha hp)
    · exact .inl (lt_of_decode_infinity ha hsum)
  · right
    have hsum : decode (a + b) =
      repack (UnpackedFloat.add Format.binary32 (decode a) (decode b)) := rfl
    refine decode_inj.mp (Eq.trans ?_ ha.symm)
    rcases decode_of_value hb with ⟨s, hv, -⟩ | ⟨s, m, e, hm, hv, -⟩
    · rw [hsum, ha, hv]
      exact repack_infinity _
    · rw [hsum, ha, hv]
      exact repack_infinity _

/-- **It is not lost** beside a number that is less than `2 ^ 24` times as large. -/
theorem lt_add_of_abs_lt (ha : value? a = some p) (hb : value? b = some q) (hq : 1 ≤ q)
    (hp : |p| < 2 ^ 24 * q) : a < a + b := by
  rcases add_pos_cases ha hb (by linarith) with ⟨r, hsum, hle, hnearest⟩ | hsum
  swap
  · exact lt_of_decode_infinity ha hsum
  refine (lt_iff_of_value ha hsum).mpr (lt_of_le_of_ne hle ?_)
  rintro rfl
  -- the next value above `p` on the grid is less than `2 * q` away, so it is nearer than `p`
  obtain ⟨d, hpos, hlt, hgrid⟩ : ∃ d, 0 < d ∧ d < 2 * q ∧ OnGrid (p + d) := by
    rcases decode_of_value ha with ⟨s, -, rfl⟩ | ⟨s, m, e, hm, -, hnormal, -, rfl⟩
    · exact ⟨1, one_pos, by linarith, 1, 0, by simp, by omega, by simp⟩
    · have hpow : (0 : ℚ) < 2 ^ e := by positivity
      refine ⟨2 ^ e, hpow, ?_, s.apply m + 1, e, ?_, hnormal.le, by push_cast; ring⟩
      · rw [abs_apply] at hp
        rcases hnormal.full with hfull | rfl
        · have hm' : (2 : ℚ) ^ 23 * 2 ^ e ≤ m * 2 ^ e :=
            mul_le_mul_of_nonneg_right (by exact_mod_cast hfull) hpow.le
          linarith
        · have hleast : (2 : ℚ) ^ (-149 : ℤ) ≤ 1 := zpow_le_one_of_nonpos₀ one_le_two (by omega)
          linarith
      · have hm' := hnormal.lt
        rw [abs_le]
        cases s <;> rw [Sign.apply] <;> omega
  have hdist := hnearest.le _ hgrid
  have hself : |p - (p + q)| = q := by
    rw [sub_add_cancel_left, abs_neg, abs_of_pos (by linarith)]
  rw [hself, add_sub_add_left_eq_sub] at hdist
  have hnear : |d - q| < q := abs_lt.mpr ⟨by linarith, by linarith⟩
  exact absurd hdist (not_le.mpr hnear)

end Single
end SpecOverlay
