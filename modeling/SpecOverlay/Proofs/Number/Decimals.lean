import SpecOverlay.Number.Decimal
import SpecOverlay.Proofs.Number.Quotients

/-!
# Decimals in single precision

A decimal is read as the single-precision number nearest to its value, and a zero keeps the sign
that it is written with (`Decimal.signedRoundsTo_toSingle`).  It is rounded only once.

* A short decimal is a mantissa and a power of ten that both are exact, and the product or the
  quotient of the two is rounded (`stands_toFloat32`, `stands_powerOfTen`).
* Any other one is a product or a quotient of whole numbers of any size (`rounds_mul_pow`,
  `rounds_div_pow`), or its power of ten is so large or so small that the result is known without it
  (`signedRoundsTo_infinity`, `nearest_zero`).

Whole numbers are decimals without a power of ten (`roundsTo_ofNat`).
-/

namespace SpecOverlay
namespace Single

open Float.Model (Format UnpackedFloat)
open Float.Model.UnpackedFloat

variable {a x : Float32} {v : ℚ} {u : UnpackedFloat} {m : ℕ} {e : ℤ} {s : Sign}

/-! ## Exact factors -/

/-- What is on the grid and not too large is a number. -/
theorem SignedRoundsTo.stands (h : SignedRoundsTo x s v) (hv : OnGrid v) (hlt : |v| < 2 ^ 128) :
    Stands s v (decode x) :=
  stands_iff.mpr ⟨h.roundsTo.value hv hlt, h.sign⟩

theorem signOf_normalize (n : ℕ) :
    signOf (UnpackedFloat.normalize Format.binary32 n 0 .positive) = some .positive := by
  rcases Nat.eq_zero_or_pos n with rfl | hn
  · rfl
  · rw [UnpackedFloat.normalize, compare_gt_iff_gt.mpr (by omega)]
    exact signOf_roundWithAccuracy _ _ _ _

/-- A whole number of 24 digits is converted exactly. -/
theorem stands_toFloat32 (hm : m < 2 ^ 23) : Stands .positive m (decode m.toUInt64.toFloat32) := by
  have hvalue : m.toUInt64.toNat = m := by
    rw [Nat.toUInt64_eq, UInt64.toNat_ofNat']
    omega
  have hrounds := rounds_normalize m.toUInt64.toNat 0
  have hsign := signOf_normalize m.toUInt64.toNat
  have hexact := hrounds.signedRoundsTo (x := m.toUInt64.toFloat32) hsign rfl
  rw [zpow_zero, mul_one, Int.cast_natCast, hvalue] at hexact
  have hgrid : OnGrid m := ⟨m, 0, by rw [Nat.abs_cast]; omega, by omega, by simp⟩
  have hlt : |(m : ℚ)| < 2 ^ 128 := by
    rw [Nat.abs_cast]
    exact_mod_cast hm.trans (by decide)
  exact hexact.stands hgrid hlt

theorem stands_of_pos (ha : value? a = some v) (hv : 0 < v) : Stands .positive v (decode a) := by
  rcases decode_of_value ha with ⟨s, -, rfl⟩ | ⟨s, m, e, hm, hu, hnormal, -, rfl⟩
  · exact absurd hv (lt_irrefl 0)
  · cases s with
    | positive =>
      rw [hu]
      exact .finite m e hm hnormal
    | negative =>
      rw [apply_negative, neg_mul] at hv
      linarith [magnitude_pos hm e]

/-- The table of powers of ten is exact. -/
theorem stands_powerOfTen {k : ℕ} (hk : k < Float32.exactlyRepresentablePowersOfTen.size) :
    Stands .positive (10 ^ k) (decode Float32.exactlyRepresentablePowersOfTen[k]) := by
  have htable : ∀ k : Fin 11,
    value? Float32.exactlyRepresentablePowersOfTen[k] = some (10 ^ k.val) := by decide +kernel
  exact stands_of_pos (htable ⟨k, hk⟩) (by positivity)

/-! ## Small and large values -/

theorem Rounds.exists_nearest (h : Rounds v u) : ∃ r, Nearest r v := by
  cases h with
  | zero s hnearest => exact ⟨_, hnearest⟩
  | finite s m e hm hnormal hnearest => exact ⟨_, hnearest⟩

/-- What is at most half of the least positive number is rounded to zero. -/
theorem nearest_zero (hnonneg : 0 ≤ v) (hle : v ≤ 2 ^ (-150 : ℤ)) : Nearest 0 v := by
  have hpow : (2 : ℚ) ^ (-150 : ℤ) = 1 / 2 * 2 ^ (-149 : ℤ) := by norm_num
  have hhalf : v / 2 ^ (-149 : ℤ) ≤ 1 / 2 := by
    rw [div_le_iff₀ (by positivity), ← hpow]
    exact hle
  have hnear : |((0 : ℕ) : ℚ) - v / 2 ^ (-149 : ℤ)| ≤ 1 / 2 := by
    rw [Nat.cast_zero, zero_sub, abs_neg, abs_of_nonneg (by positivity)]
    exact hhalf
  have hnearest := nearest_of_multiple (Nat.zero_le _) le_rfl (.inl rfl) hnear fun _ => Even.zero
  rwa [Nat.cast_zero, zero_mul, div_mul_cancel₀ _ (by positivity)] at hnearest

/-- A whole number that is too large for a number is rounded to infinity. -/
theorem signedRoundsTo_infinity {n : ℕ} (hn : 2 ^ 128 ≤ n) (hx : decode x = .infinity .positive) :
    SignedRoundsTo x .positive n := by
  have hpos : 0 < n := by omega
  have hrounds := rounds_round hpos 0 .positive
  rw [apply_positive, zpow_zero, mul_one] at hrounds
  obtain ⟨r, hnearest⟩ := hrounds.exists_nearest
  have hle : 2 ^ 128 ≤ r :=
    hnearest.ge ⟨1, 128, by simp, by omega, by norm_cast⟩ (by exact_mod_cast hn)
  exact ⟨⟨r, hnearest, .inr (.inl ⟨hx, hle⟩)⟩, by rw [hx]; rfl⟩

/-! ## Powers of ten -/

theorem cast_pow_toNat (he : 0 ≤ e) : ((10 ^ e.toNat : ℕ) : ℚ) = 10 ^ e := by
  rw [Nat.cast_pow, Nat.cast_ofNat, ← zpow_natCast, Int.toNat_of_nonneg he]

/-- A product with a power of ten that is not above one is bounded by the binary digits of the other
factor. -/
theorem mul_pow_le_two_pow (he : e ≤ 0) : (m : ℚ) * 10 ^ e ≤ 2 ^ (m.log2 + 1 + e : ℤ) := by
  have hm : (m : ℚ) ≤ 2 ^ (m.log2 + 1 : ℤ) := by
    exact_mod_cast Nat.lt_log2_self.le
  have hpow : (10 : ℚ) ^ e ≤ 2 ^ e := by
    obtain ⟨k, rfl⟩ : ∃ k : ℕ, e = -k := ⟨(-e).toNat, by omega⟩
    rw [zpow_neg, zpow_neg, zpow_natCast, zpow_natCast]
    exact inv_anti₀ (by positivity) (pow_le_pow_left₀ (by norm_num) (by norm_num) k)
  calc (m : ℚ) * 10 ^ e ≤ 2 ^ (m.log2 + 1 : ℤ) * 2 ^ e := by gcongr
    _ = 2 ^ (m.log2 + 1 + e) := (zpow_add₀ two_ne_zero _ _).symm

/-- A power of ten that is far below the other factor is below any number. -/
theorem mul_pow_le (he : e < -(256 + m.log2)) : (m : ℚ) * 10 ^ e ≤ 2 ^ (-150 : ℤ) :=
  (mul_pow_le_two_pow (by omega)).trans (zpow_le_zpow_right₀ one_le_two (by omega))

/-- A product with a power of ten has enough digits, because the mantissa has been given 24 more. -/
theorem full_shiftLeft_mul (hm : 0 < m) (k : ℕ) :
    2 ^ 23 ≤ m <<< Format.binary32.mantissaBits * 10 ^ k := by
  have hshift : m <<< Format.binary32.mantissaBits = m * 2 ^ 24 := Nat.shiftLeft_eq m 24
  rw [hshift]
  calc 2 ^ 23 ≤ m * 2 ^ 24 := by omega
    _ ≤ m * 2 ^ 24 * 10 ^ k := Nat.le_mul_of_pos_right _ (by positivity)

theorem rounds_mul_pow (hm : 0 < m) (he : 0 ≤ e) (hm' : 0 < m <<< Format.binary32.mantissaBits)
    (hpow : 0 < 10 ^ e.toNat) :
    Rounds (m * 10 ^ e) (UnpackedFloat.mul Format.binary32
      (.finite .positive (m <<< Format.binary32.mantissaBits) (-Format.binary32.mantissaBits) hm')
      (.finite .positive (10 ^ e.toNat) 0 hpow)) := by
  have hvalue : (m : ℚ) * 10 ^ e =
      Sign.positive.apply (m <<< Format.binary32.mantissaBits : ℕ) *
        2 ^ (-(Format.binary32.mantissaBits : ℤ)) *
          (Sign.positive.apply (10 ^ e.toNat : ℕ) * 2 ^ (0 : ℤ)) := by
    rw [apply_positive, apply_positive, cast_pow_toNat he, Nat.shiftLeft_eq, zpow_neg,
      zpow_natCast]
    push_cast
    field_simp
  rw [hvalue]
  exact rounds_mul_finite .positive .positive hm' hpow
    (le_target_of_full (full_shiftLeft_mul hm _) _)

theorem rounds_div_pow (hm : 0 < m) (he : e < 0) (hpow : 0 < 10 ^ (-e).toNat) :
    Rounds (m * 10 ^ e) (UnpackedFloat.div Format.binary32 (.finite .positive m 0 hm)
      (.finite .positive (10 ^ (-e).toNat) 0 hpow)) := by
  have hvalue : (m : ℚ) * 10 ^ e = Sign.positive.apply m * 2 ^ (0 : ℤ) /
      (Sign.positive.apply (10 ^ (-e).toNat : ℕ) * 2 ^ (0 : ℤ)) := by
    rw [apply_positive, apply_positive, cast_pow_toNat (by omega), zpow_neg, zpow_zero, mul_one,
      mul_one, div_inv_eq_mul]
  rw [hvalue]
  exact rounds_div_finite .positive .positive hm hpow

/-- The number for a mantissa and a power of ten, by the size of the power. -/
theorem signedRoundsTo_of_decode
    (hx : decode x = repack (UnpackedFloat.ofScientific Format.binary32 m e)) :
    SignedRoundsTo x .positive (m * 10 ^ e) := by
  have hbits : (2 : ℤ) ^ Format.binary32.exponentBits = 256 := rfl
  rcases Nat.eq_zero_or_pos m with rfl | hm
  · rw [Nat.cast_zero, zero_mul]
    exact (rounds_zero .positive).signedRoundsTo rfl hx
  rw [UnpackedFloat.ofScientific, dif_neg hm.ne', hbits] at hx
  split_ifs at hx with hlarge hsmall hsign
  · have hvalue : (m : ℚ) * 10 ^ e = (m * 10 ^ e.toNat : ℕ) := by
      rw [Nat.cast_mul, cast_pow_toNat (by omega)]
    have hle : 2 ^ 128 ≤ m * 10 ^ e.toNat := by
      calc 2 ^ 128 ≤ 10 ^ 256 := by norm_num
        _ ≤ 10 ^ e.toNat := Nat.pow_le_pow_right (by omega) (by omega)
        _ ≤ m * 10 ^ e.toNat := Nat.le_mul_of_pos_left _ hm
    rw [hvalue]
    exact signedRoundsTo_infinity hle (hx.trans (repack_infinity _))
  · have hnearest := nearest_zero (by positivity) (mul_pow_le (m := m) hsmall)
    exact (Rounds.zero .positive hnearest).signedRoundsTo rfl hx
  · exact (rounds_mul_pow hm hsign _ _).signedRoundsTo (signOf_roundWithAccuracy _ _ _ _) hx
  · exact (rounds_div_pow hm (by omega) _).signedRoundsTo (signOf_roundWithAccuracy _ _ _ _) hx

/-- **Mantissa and power of ten are rounded once**, to nearest. -/
theorem signedRoundsTo_ofScientific (m : ℕ) (negative : Bool) (k : ℕ) :
    SignedRoundsTo (Float32.ofScientific m negative k) .positive
      (m * 10 ^ (if negative then -(k : ℤ) else k)) := by
  rw [Float32.ofScientific]
  split
  case isTrue hsmall =>
    have hm := stands_toFloat32 hsmall.1
    have hpow := stands_powerOfTen (k := k) (Nat.lt_succ_of_le hsmall.2)
    cases negative with
    | true =>
      have hdiv := signedRoundsTo_div hm hpow (by positivity)
      rwa [div_eq_mul_inv, ← zpow_natCast, ← zpow_neg] at hdiv
    | false =>
      have hmul := signedRoundsTo_mul hm hpow
      rwa [← zpow_natCast] at hmul
  case isFalse hlarge =>
    cases negative with
    | true =>
      have hexponent : -(k : ℤ) = Int.negOfNat k := by rw [Int.negOfNat_eq]; rfl
      rw [if_pos rfl, hexponent]
      exact signedRoundsTo_of_decode rfl
    | false => exact signedRoundsTo_of_decode rfl

/-- A whole number is rounded like any other value. -/
theorem roundsTo_ofNat (n : ℕ) : RoundsTo (Float32.ofNat n) n := by
  have hrounds := (signedRoundsTo_ofScientific n false 0).roundsTo
  rwa [if_neg Bool.false_ne_true, Nat.cast_zero, zpow_zero, mul_one] at hrounds

/-- A positive whole number of 32 bits is a number, and it is not rounded below one. -/
theorem value_intCast {n : ℤ} (hpos : 0 < n) (hmax : n ≤ maxInt32) :
    ∃ q, value? (n : Float32) = some q ∧ 1 ≤ q := by
  obtain ⟨k, rfl⟩ := Int.eq_ofNat_of_zero_le hpos.le
  rw [maxInt32] at hmax
  obtain ⟨r, hnearest, hr⟩ := roundsTo_ofNat k
  have hone : (1 : ℚ) ≤ k := by exact_mod_cast hpos
  have hbound : (k : ℚ) ≤ 2 ^ 31 := by exact_mod_cast (show k ≤ 2 ^ 31 by omega)
  have hle : 1 ≤ r := hnearest.ge ⟨1, 0, by simp, by omega, by simp⟩ hone
  have hge : r ≤ 2 ^ 31 := hnearest.le_of_le ⟨1, 31, by simp, by omega, by norm_cast⟩ hbound
  rcases hr with hr | ⟨-, hr⟩ | ⟨-, hr⟩
  · exact ⟨r, hr, hle⟩
  · linarith
  · linarith

end Single

namespace Decimal

open Float.Model.UnpackedFloat (Sign)
open Single

/-- The sign that a decimal is written with. -/
def sign (d : Decimal) : Sign :=
  if d.negative then .negative else .positive

/-- The value of a decimal. -/
def value (d : Decimal) : ℚ :=
  d.sign.apply d.coefficient * 10 ^ d.exponent

/-- **A decimal is rounded to nearest**, and a zero keeps its sign. -/
theorem signedRoundsTo_toSingle (d : Decimal) : SignedRoundsTo d.toSingle d.sign d.value := by
  have hscientific :=
    signedRoundsTo_ofScientific d.coefficient (decide (d.exponent < 0)) d.exponent.natAbs
  have hexponent : (if decide (d.exponent < 0) then -(d.exponent.natAbs : ℤ)
      else d.exponent.natAbs) = d.exponent := by
    simp only [decide_eq_true_eq]
    split <;> omega
  rw [hexponent] at hscientific
  rw [toSingle, value, sign]
  cases d.negative with
  | false => rwa [if_neg Bool.false_ne_true, if_neg Bool.false_ne_true, apply_positive]
  | true =>
    rw [if_pos rfl, if_pos rfl, apply_negative, neg_mul]
    exact hscientific.neg

end Decimal
end SpecOverlay
