import SpecOverlay.Proofs.Number.Decimals
import SpecOverlay.Proofs.Number.Precision

/-!
# Between double and single precision

A single-precision number is widened to one of the same value, with all 53 digits
(`exists_decode_toDouble`), so that narrowing gives the number again (`ofDouble_toDouble`).

A decimal is read as the double-precision number that owns it (`decode_decimal`).  A mantissa and a
power of ten are exact if they are small, and otherwise whole numbers of any size; in both cases
their product or quotient is rounded once.

All this is about numbers well inside the range of double precision (`Inside`), where packing keeps
what has been computed.
-/

namespace SpecOverlay
namespace Double

open Float.Model (Format UnpackedFloat)
open Float.Model.UnpackedFloat
open Precision
open Single (valueOf apply_positive apply_negative)

/-! ## Decoded numbers -/

/-- Sign, mantissa and exponent of a double-precision number. -/
def decode (x : Float) : UnpackedFloat :=
  unpack Format.binary64 x.toBits.toBitVec

/-- A decoded number after it has been packed. -/
def repack (u : UnpackedFloat) : UnpackedFloat :=
  unpack Format.binary64 (pack Format.binary64 u)

/-- A finite number with all its digits whose exponent is away from the least one and not above the
greatest. -/
structure Inside (m : ℕ) (e : ℤ) : Prop where
  full : Full Format.binary64 m
  gt : -1073 < e
  le : e ≤ 971

variable {x y : Float} {u : UnpackedFloat} {s s' : Sign} {m m' c k : ℕ} {e e' : ℤ} {v w : ℚ}

theorem decode_mul (x y : Float) :
    decode (x * y) = repack (UnpackedFloat.mul Format.binary64 (decode x) (decode y)) := rfl

theorem decode_div (x y : Float) :
    decode (x / y) = repack (UnpackedFloat.div Format.binary64 (decode x) (decode y)) := rfl

theorem decode_neg (x : Float) : decode (-x) = repack (decode x).neg := rfl

/-- **Numbers are told apart by their decoded forms.** -/
theorem decode_inj : decode x = decode y ↔ x = y := by
  rw [decode, decode]
  exact (unpack_inj_of_valid x.toModel.valid y.toModel.valid).trans
    (UInt64.toBitVec_inj.trans Float.toBits_inj)

/-- **A number inside the range is kept by packing.** -/
theorem repack_inside (h : Inside m e) (hm : 0 < m) :
    repack (.finite s m e hm) = .finite s m e hm := by
  obtain ⟨⟨hlow, hhigh⟩, hmin, hmax⟩ := h
  have hlow : 2 ^ 52 ≤ m := hlow
  have hhigh : m < 2 ^ 53 := hhigh
  have hlog : m.log2 = 52 := (Nat.log2_eq_iff (Nat.pos_iff_ne_zero.mp hm)).mpr ⟨hlow, hhigh⟩
  have hbias : (Format.binary64.exponentBias : ℤ) = 1023 := rfl
  have hbiased : (e + (Format.binary64.exponentBias : ℤ) + (52 : ℕ)).toNat = (e + 1075).toNat := by
    omega
  have hexponent : (BitVec.ofNat 11 (e + 1075).toNat).toNat = (e + 1075).toNat := by
    rw [BitVec.toNat_ofNat, Nat.mod_eq_of_lt (by omega)]
  have hpack : pack Format.binary64 (.finite s m e hm) = packComponents Format.binary64 s
      (BitVec.ofNat 11 (e + 1075).toNat) (BitVec.ofNat 52 m) := by
    simp only [pack, hlog, hbiased]
    rw [if_neg (by omega), if_pos (by rfl)]
  have hne : BitVec.ofNat 11 (e + 1075).toNat ≠ -1#11 := fun h => by
    have hall := congrArg BitVec.toNat h
    have hvalue : (-1#11).toNat = 2047 := rfl
    omega
  have hne' : BitVec.ofNat 11 (e + 1075).toNat ≠ 0#11 := fun h => by
    have hzero := congrArg BitVec.toNat h
    rw [hexponent, BitVec.toNat_zero] at hzero
    omega
  have hmantissa : (1#1 ++ BitVec.ofNat 52 m).toNat = m := by
    have hone : (1#1).toNat <<< 52 = 2 ^ 52 := rfl
    have hrest : (BitVec.ofNat 52 m).toNat = m - 2 ^ 52 := by
      rw [BitVec.toNat_ofNat]
      omega
    rw [BitVec.toNat_append, ← Nat.shiftLeft_add_eq_or_of_lt (BitVec.isLt _), hone, hrest]
    omega
  have hback : ((e + 1075).toNat : ℤ) - (1023 + (52 : ℕ)) = e := by omega
  rw [repack, hpack]
  simp only [unpack, unpackExponent_packComponents, unpackMantissa_packComponents, if_neg hne,
    if_neg hne', unpackSign_packComponents, Sign.ofBitVec_toBitVec, hmantissa, hexponent, hbias,
    hback]

/-- A finite number is not infinite. -/
theorem beq_infinity_of_decode {hm : 0 < m} (hx : decode x = .finite s m e hm) :
    (x == 1 / 0) = false := by
  have heq : (x == 1 / 0) = ((decode x).compare (decode (1 / 0)) == some .eq) := rfl
  rw [heq, hx]
  cases s <;> rfl

theorem minExponent_eq : Format.binary64.minExponent = -1074 := rfl

/-- **What is rounded becomes the number that owns it**, also after it has been packed. -/
theorem decode_of_rounded (h : Inside m e) (hv : Owns Format.binary64 m e v)
    (hu : Rounded Format.binary64 s v u) (hx : decode x = repack u) :
    decode x = .finite s m e h.full.pos := by
  have hgt := h.gt
  have he : Format.binary64.minExponent < e := by
    rw [minExponent_eq]
    omega
  rw [hx, hu.eq_of_owns h.full he hv, repack_inside h]

/-- What is owned by a number inside the range is large enough to be a quotient. -/
theorem le_of_owns (h : Inside m e) (hv : Owns Format.binary64 m e v) :
    (2 : ℚ) ^ (Format.binary64.minExponent + width Format.binary64 + 1) ≤ v :=
  hv.two_pow_le h.full h.gt

/-- A number with few enough digits and a moderate exponent is not changed by rounding it. -/
theorem exists_round_inside (hm : 0 < m) (hlt : m < 2 ^ 53) (hmin : -1000 < e) (hmax : e ≤ 971)
    (s : Sign) : ∃ m' e', ∃ h : Inside m' e',
      UnpackedFloat.round Format.binary64 s m e = .finite s m' e' h.full.pos ∧
        (m' : ℚ) * 2 ^ e' = m * 2 ^ e := by
  have hleast : Format.binary64.minExponent + width Format.binary64 = -1022 := rfl
  have hwidth : (width Format.binary64 : ℤ) = 52 := rfl
  have he : Format.binary64.minExponent + width Format.binary64 < e := by omega
  obtain ⟨m', e', hfull, hround, hvalue, hge, hle⟩ := exists_round_eq hm hlt he s
  exact ⟨m', e', ⟨hfull, by omega, by omega⟩, hround, hvalue⟩

/-! ## Reading decimals -/

/-- A whole number of 53 digits is converted exactly. -/
theorem exists_decode_toFloat (hc : 0 < c) (hlt : c < 2 ^ 53) :
    ∃ m e, ∃ h : Inside m e, decode c.toUInt64.toFloat = .finite .positive m e h.full.pos ∧
      (m : ℚ) * 2 ^ e = c := by
  have hvalue : c.toUInt64.toNat = c := by
    rw [Nat.toUInt64_eq, UInt64.toNat_ofNat']
    omega
  have hdecode : decode c.toUInt64.toFloat =
    repack (UnpackedFloat.normalize Format.binary64 c.toUInt64.toNat 0 .positive) := rfl
  obtain ⟨m, e, h, hround, hexact⟩ :=
    exists_round_inside hc hlt (by decide : -1000 < (0 : ℤ)) (by decide) .positive
  rw [zpow_zero, mul_one] at hexact
  refine ⟨m, e, h, ?_, hexact⟩
  rw [hdecode, hvalue, UnpackedFloat.normalize, compare_gt_iff_gt.mpr (by omega)]
  simp only [Int.toNat_natCast]
  rw [hround, repack_inside h]

/-- The table of powers of ten is exact. -/
theorem exists_powerOfTen (hk : k < Float.exactlyRepresentablePowersOfTen.size) :
    ∃ m e hm, decode Float.exactlyRepresentablePowersOfTen[k] = .finite .positive m e hm ∧
      (m : ℚ) * 2 ^ e = 10 ^ k := by
  have htable : ∀ k : Fin 23,
    valueOf (decode Float.exactlyRepresentablePowersOfTen[k]) = some (10 ^ k.val) := by decide +kernel
  have hvalue : valueOf (decode Float.exactlyRepresentablePowersOfTen[k]) = some (10 ^ k) :=
    htable ⟨k, hk⟩
  have hpos : (0 : ℚ) < 10 ^ k := by positivity
  generalize decode Float.exactlyRepresentablePowersOfTen[k] = u at hvalue
  cases u with
  | notANumber => nomatch hvalue
  | infinity s => nomatch hvalue
  | zero s => exact absurd (Option.some.inj hvalue) hpos.ne
  | finite s m e hm =>
    have hvalue := Option.some.inj hvalue
    cases s with
    | positive => exact ⟨m, e, hm, rfl, by rw [← hvalue, apply_positive]⟩
    | negative =>
      rw [apply_negative, neg_mul] at hvalue
      linarith [Single.magnitude_pos hm e]

/-- Whole numbers of any size are multiplied or divided before anything is rounded. -/
theorem decode_of_ofScientific (h : Inside m e) (hc : 0 < c) {j : ℤ}
    (hv : Owns Format.binary64 m e (c * 10 ^ j))
    (hx : decode x = repack (UnpackedFloat.ofScientific Format.binary64 c j)) :
    decode x = .finite .positive m e h.full.pos := by
  have hbits : (2 : ℤ) ^ Format.binary64.exponentBits = 2048 := rfl
  have hwidth : (width Format.binary64 : ℤ) = 52 := rfl
  have hgt := h.gt
  have hle := h.le
  rw [UnpackedFloat.ofScientific, dif_neg hc.ne', hbits] at hx
  split_ifs at hx with hlarge hsmall hsign
  · -- such a power of ten is beyond the range
    have hone : (1 : ℚ) ≤ c := by exact_mod_cast hc
    have hbeyond : (2 : ℚ) ^ (width Format.binary64 + 1 + e : ℤ) ≤ c * 10 ^ j := by
      calc (2 : ℚ) ^ (width Format.binary64 + 1 + e : ℤ) ≤ 2 ^ j :=
            zpow_le_zpow_right₀ one_le_two (by omega)
        _ ≤ 10 ^ j := zpow_le_zpow_left₀ (by omega) (by norm_num) (by norm_num)
        _ ≤ c * 10 ^ j := le_mul_of_one_le_left (by positivity) hone
    exact absurd (hv.lt_two_pow h.full) (not_lt.mpr hbeyond)
  · -- and such a product is below all numbers
    have hbelow : (c : ℚ) * 10 ^ j < 2 ^ (-1073 + width Format.binary64 : ℤ) :=
      (Single.mul_pow_le_two_pow (by omega)).trans_lt
        (zpow_lt_zpow_right₀ one_lt_two (by omega))
    exact absurd (hv.two_pow_le h.full hgt) (not_le.mpr hbelow)
  · have hvalue : ((c <<< Format.binary64.mantissaBits : ℕ) : ℚ) *
        2 ^ (-(Format.binary64.mantissaBits : ℤ)) * ((10 ^ j.toNat : ℕ) * 2 ^ (0 : ℤ)) =
          c * 10 ^ j := by
      rw [Single.cast_pow_toNat hsign, Nat.shiftLeft_eq, zpow_neg, zpow_natCast, zpow_zero]
      push_cast
      field_simp
    have hdigits : 2 ^ width Format.binary64 ≤ c <<< Format.binary64.mantissaBits * 10 ^ j.toNat := by
      have hshift : c <<< Format.binary64.mantissaBits = c * 2 ^ 53 := Nat.shiftLeft_eq c 53
      rw [hshift]
      calc 2 ^ 52 ≤ c * 2 ^ 53 := by omega
        _ ≤ c * 2 ^ 53 * 10 ^ j.toNat := Nat.le_mul_of_pos_right _ (by positivity)
    have hpos : 0 < c <<< Format.binary64.mantissaBits * 10 ^ j.toNat :=
      (Nat.two_pow_pos _).trans_le hdigits
    have hproduct := rounded_mul .positive .positive (-(Format.binary64.mantissaBits : ℤ)) 0
      (Nat.pos_of_mul_pos_right hpos) (by positivity) hdigits
    exact decode_of_rounded h hv (hvalue ▸ hproduct) hx
  · have hvalue : (c : ℚ) * 2 ^ (0 : ℤ) / ((10 ^ (-j).toNat : ℕ) * 2 ^ (0 : ℤ)) = c * 10 ^ j := by
      rw [Single.cast_pow_toNat (by omega), zpow_neg, zpow_zero, mul_one, mul_one, div_inv_eq_mul]
    have hquotient := rounded_div (f := Format.binary64) .positive .positive 0 0 hc
      (Nat.pow_pos (by decide) : 0 < 10 ^ (-j).toNat)
      (by rw [hvalue]; exact le_of_owns h hv)
    exact decode_of_rounded h hv (hvalue ▸ hquotient) hx

/-- **A mantissa and a power of ten are read as the number that owns their product.** -/
theorem decode_ofScientific (h : Inside m e) (hc : 0 < c) (negative : Bool)
    (hv : Owns Format.binary64 m e (c * 10 ^ (if negative then -(k : ℤ) else k))) :
    decode (Float.ofScientific c negative k) = .finite .positive m e h.full.pos := by
  rw [Float.ofScientific]
  split
  case isTrue hsmall =>
    obtain ⟨m₁, e₁, h₁, hx, hvalue⟩ := exists_decode_toFloat hc hsmall.1
    have hk : k < Float.exactlyRepresentablePowersOfTen.size := Nat.lt_succ_of_le hsmall.2
    obtain ⟨m₂, e₂, hm₂, hy, hpow⟩ := exists_powerOfTen hk
    cases negative with
    | true =>
      rw [if_pos rfl, zpow_neg, zpow_natCast, ← div_eq_mul_inv, ← hvalue, ← hpow] at hv
      have hquotient := rounded_div (f := Format.binary64) .positive .positive e₁ e₂ h₁.full.pos hm₂
        (le_of_owns h hv)
      show decode (c.toUInt64.toFloat / Float.exactlyRepresentablePowersOfTen[k]) = _
      exact decode_of_rounded h hv hquotient (by rw [decode_div, hx, hy])
    | false =>
      rw [if_neg Bool.false_ne_true, zpow_natCast, ← hvalue, ← hpow] at hv
      have hproduct := rounded_mul (f := Format.binary64) .positive .positive e₁ e₂ h₁.full.pos hm₂
        (h₁.full.le.trans (Nat.le_mul_of_pos_right m₁ hm₂))
      show decode (c.toUInt64.toFloat * Float.exactlyRepresentablePowersOfTen[k]) = _
      exact decode_of_rounded h hv hproduct (by rw [decode_mul, hx, hy])
  case isFalse hlarge =>
    cases negative with
    | true =>
      have hexponent : -(k : ℤ) = Int.negOfNat k := by rw [Int.negOfNat_eq]; rfl
      rw [if_pos rfl, hexponent] at hv
      exact decode_of_ofScientific h hc hv rfl
    | false =>
      rw [if_neg Bool.false_ne_true] at hv
      exact decode_of_ofScientific h hc hv rfl

/-- **A decimal is read as the number that owns it**, with its sign. -/
theorem decode_decimal (h : Inside m e) (d : Decimal) (hc : 0 < d.coefficient)
    (hv : Owns Format.binary64 m e (d.coefficient * 10 ^ d.exponent)) :
    decode d.toDouble = .finite d.sign m e h.full.pos := by
  have hexponent : (if decide (d.exponent < 0) then -(d.exponent.natAbs : ℤ)
      else d.exponent.natAbs) = d.exponent := by
    simp only [decide_eq_true_eq]
    split <;> omega
  have hread := decode_ofScientific (k := d.exponent.natAbs) h hc (decide (d.exponent < 0))
    (by rwa [hexponent])
  rw [Decimal.toDouble, Decimal.sign]
  cases d.negative with
  | false => exact hread
  | true =>
    show decode (-Float.ofScientific _ _ _) = _
    rw [decode_neg, hread]
    exact repack_inside h h.full.pos

/-! ## Widening and narrowing -/

section Narrowing

open Single (SignedRoundsTo normal_of_decode)

variable {z : Float32} {hm : 0 < m}

theorem decode_toDouble (z : Float32) : decode (Single.toDouble z) =
    repack (repack (Single.roundTo Format.binary64 (Single.decode z))) := rfl

/-- **A number is widened to one of the same value.** -/
theorem exists_decode_toDouble (hz : Single.decode z = .finite s m e hm) :
    ∃ m' e', ∃ h : Inside m' e', decode (Single.toDouble z) = .finite s m' e' h.full.pos ∧
      (m' : ℚ) * 2 ^ e' = m * 2 ^ e := by
  obtain ⟨⟨hlt, hle, -⟩, hmax⟩ := normal_of_decode hz
  have hmin : -1000 < e := by omega
  obtain ⟨m', e', h, hround, hvalue⟩ := exists_round_inside hm (by omega) hmin (by omega) s
  refine ⟨m', e', h, ?_, hvalue⟩
  rw [decode_toDouble, hz, Single.roundTo, hround, repack_inside h, repack_inside h]

/-- Packing again changes nothing. -/
theorem repack_repack (h : Single.Rounds v u) :
    Single.repack (Single.repack u) = Single.repack u := by
  cases h with
  | zero s hnearest => rw [Single.repack_zero, Single.repack_zero]
  | finite s m e hm hnormal hnearest =>
    rcases le_or_gt e 104 with hmax | hover
    · rw [Single.repack_finite hm hnormal hmax, Single.repack_finite hm hnormal hmax]
    · rw [Single.repack_over hm hover, Single.repack_infinity]

/-- The values of one number in both precisions give it back by narrowing. -/
theorem ofDouble_eq_of_value (hz : Single.decode z = .finite s m e hm) {hm' : 0 < m'}
    (hx : decode x = .finite s m' e' hm') (hvalue : (m' : ℚ) * 2 ^ e' = m * 2 ^ e) :
    Single.ofDouble x = z := by
  have hrounds := Single.rounds_round hm' e' s
  have hdecode : Single.decode (Single.ofDouble x) =
    Single.repack (Single.repack (Single.roundTo Format.binary32 (decode x))) := rfl
  rw [hx, Single.roundTo, repack_repack hrounds] at hdecode
  have hnarrowed : SignedRoundsTo (Single.ofDouble x) s (s.apply m' * 2 ^ e') :=
    hrounds.signedRoundsTo (Single.signOf_roundWithAccuracy _ _ _ _) hdecode
  have hsame : ((s.apply m' : ℤ) : ℚ) * 2 ^ e' = (s.apply m : ℤ) * 2 ^ e := by
    rw [Single.apply_eq_mul, Single.apply_eq_mul s m, mul_assoc, hvalue, mul_assoc]
  have hz' : Single.value? z = some (((s.apply m : ℤ) : ℚ) * 2 ^ e) := by
    rw [Single.value?, hz]
    rfl
  rw [hsame] at hnarrowed
  exact hnarrowed.unique
    ⟨⟨_, .self (Single.onGrid_of_value hz'), .inl hz'⟩, by rw [hz]; rfl⟩

/-- **A number that is widened and narrowed is the same again.** -/
theorem ofDouble_toDouble (z : Float32) : Single.ofDouble (Single.toDouble z) = z := by
  have hdecode : Single.decode (Single.ofDouble (Single.toDouble z)) = Single.repack
    (Single.repack (Single.roundTo Format.binary32 (decode (Single.toDouble z)))) := rfl
  cases hz : Single.decode z with
  | notANumber =>
    refine Single.decode_inj.mp ?_
    rw [hdecode, decode_toDouble, hz]
    rfl
  | infinity s =>
    refine Single.decode_inj.mp ?_
    rw [hdecode, decode_toDouble, hz]
    cases s <;> rfl
  | zero s =>
    refine Single.decode_inj.mp ?_
    rw [hdecode, decode_toDouble, hz]
    cases s <;> rfl
  | finite s m e hm =>
    obtain ⟨m', e', h, hx, hvalue⟩ := exists_decode_toDouble hz
    exact ofDouble_eq_of_value hz hx hvalue

end Narrowing

end Double
end SpecOverlay
