import Mathlib
import SpecOverlay.Number.Single

/-!
# The bits of single-precision numbers

Thirty-two bits are a sign, eight bits for the exponent and 23 for the mantissa (`bits`,
`exists_bits`).  A decoded number that is finite has a `Normal` mantissa: 24 binary digits,
or fewer if the exponent is the least one (`normal_of_decode`).

Every operation packs its result.  What is unpacked later is the result itself if it is normal
and its exponent is at most 104 (`repack_finite`), and an infinity beyond that (`repack_over`).
-/

namespace SpecOverlay
namespace Single

open Float.Model (Format UnpackedFloat)
open Float.Model.UnpackedFloat

/-! ## Fields -/

/-- The bits with the given sign and fields for exponent and mantissa. -/
abbrev bits (s : Sign) (exponent : BitVec 8) (mantissa : BitVec 23) : BitVec 32 :=
  packComponents Format.binary32 s exponent mantissa

/-- A mantissa has 24 binary digits, or fewer if the exponent is the least one. -/
structure Normal (m : Nat) (e : Int) : Prop where
  lt : m < 2 ^ 24
  le : -149 ≤ e
  full : 2 ^ 23 ≤ m ∨ e = -149

/-- A decoded number after it has been packed. -/
def repack (u : UnpackedFloat) : UnpackedFloat :=
  unpack Format.binary32 (pack Format.binary32 u)

/-- Bits are their sign and their fields. -/
theorem exists_bits (b : BitVec 32) : ∃ s exponent mantissa, b = bits s exponent mantissa :=
  ⟨_, _, _, (@packComponents_unpackSign_unpackExponent_unpackMantissa Format.binary32 b).symm⟩

variable {s : Sign} {exponent : BitVec 8} {mantissa : BitVec 23} {m : Nat} {e : Int}

/-! ## Unpacking -/

/-- The leading digit of a mantissa is not stored. -/
theorem toNat_append_one (mantissa : BitVec 23) :
    (1#1 ++ mantissa).toNat = 2 ^ 23 + mantissa.toNat := by
  rw [BitVec.toNat_append, ← Nat.shiftLeft_add_eq_or_of_lt mantissa.isLt]
  rfl

theorem unpack_bits (hne : exponent ≠ -1#8) (hne' : exponent ≠ 0#8) :
    unpack Format.binary32 (bits s exponent mantissa) =
      .finite s (2 ^ 23 + mantissa.toNat) (exponent.toNat - 150) (by omega) := by
  simp only [unpack, unpackExponent_packComponents, unpackMantissa_packComponents, if_neg hne,
    if_neg hne', unpackSign_packComponents, Sign.ofBitVec_toBitVec, toNat_append_one]
  rfl

theorem unpack_bits_zero (hne : mantissa ≠ 0#23) :
    unpack Format.binary32 (bits s 0#8 mantissa) =
      .finite s mantissa.toNat (-149)
        (Nat.pos_of_ne_zero fun h => hne (BitVec.eq_of_toNat_eq h)) := by
  have hleast : 0#8 ≠ -1#8 := by decide
  simp only [unpack, unpackExponent_packComponents, unpackMantissa_packComponents, if_neg hleast,
    if_true, dif_neg hne, unpackSign_packComponents, Sign.ofBitVec_toBitVec]
  rfl

theorem unpack_bits_infinity : unpack Format.binary32 (bits s (-1#8) 0#23) = .infinity s := by
  simp only [unpack, unpackExponent_packComponents, unpackMantissa_packComponents, if_true,
    unpackSign_packComponents, Sign.ofBitVec_toBitVec]

/-! ## Packing -/

theorem pack_full (hm : 0 < m) (hfull : 2 ^ 23 ≤ m) (hlt : m < 2 ^ 24) (hle : -149 ≤ e)
    (hmax : e ≤ 104) :
    pack Format.binary32 (.finite s m e hm) =
      bits s (BitVec.ofNat 8 (e + 150).toNat) (BitVec.ofNat 23 m) := by
  have hlog : m.log2 = 23 := (Nat.log2_eq_iff (Nat.pos_iff_ne_zero.mp hm)).mpr ⟨hfull, hlt⟩
  have hbias : (e + (Format.binary32.exponentBias : Int) + (23 : Nat)).toNat = (e + 150).toNat := by
    have hvalue : Format.binary32.exponentBias = 127 := rfl
    omega
  simp only [pack, hlog, hbias]
  rw [if_neg (by omega), if_pos (by rfl)]

theorem pack_small (hm : 0 < m) (hlt : m < 2 ^ 23) :
    pack Format.binary32 (.finite s m (-149) hm) = bits s 0#8 (BitVec.ofNat 23 m) := by
  have hlog : m.log2 < 23 := (Nat.log2_lt (Nat.pos_iff_ne_zero.mp hm)).mpr hlt
  have hdigits : Format.binary32.mantissaBits = 24 := rfl
  simp only [pack]
  rw [if_neg (by decide), if_neg (by omega)]

theorem pack_over (hm : 0 < m) (hmax : 105 ≤ e) :
    pack Format.binary32 (.finite s m e hm) = bits s (-1#8) 0#23 := by
  have hover : 2 ^ 8 ≤ (e + (Format.binary32.exponentBias : Int) + (23 : Nat)).toNat + 1 := by
    have hvalue : Format.binary32.exponentBias = 127 := rfl
    omega
  simp only [pack]
  rw [if_pos hover]
  rfl

/-! ## Packing and unpacking -/

/-- **A normal number is kept by packing** if its exponent is not too large. -/
theorem repack_finite (hm : 0 < m) (h : Normal m e) (hmax : e ≤ 104) :
    repack (.finite s m e hm) = .finite s m e hm := by
  obtain ⟨hlt, hle, hfull⟩ := h
  by_cases hlow : m < 2 ^ 23
  · obtain rfl : e = -149 := hfull.resolve_left (by omega)
    have hmantissa : (BitVec.ofNat 23 m).toNat = m := by
      rw [BitVec.toNat_ofNat, Nat.mod_eq_of_lt hlow]
    have hne : BitVec.ofNat 23 m ≠ 0#23 := fun h => by
      have hzero := congrArg BitVec.toNat h
      rw [hmantissa] at hzero
      exact Nat.pos_iff_ne_zero.mp hm hzero
    rw [repack, pack_small hm hlow, unpack_bits_zero hne]
    simp only [hmantissa]
  · have hexponent : (BitVec.ofNat 8 (e + 150).toNat).toNat = (e + 150).toNat := by
      rw [BitVec.toNat_ofNat, Nat.mod_eq_of_lt (by omega)]
    have hmantissa : 2 ^ 23 + (BitVec.ofNat 23 m).toNat = m := by
      rw [BitVec.toNat_ofNat]
      omega
    have hne : BitVec.ofNat 8 (e + 150).toNat ≠ -1#8 := fun h => by
      have hall := congrArg BitVec.toNat h
      have hvalue : (-1#8).toNat = 255 := rfl
      omega
    have hne' : BitVec.ofNat 8 (e + 150).toNat ≠ 0#8 := fun h => by
      have hzero := congrArg BitVec.toNat h
      rw [hexponent, BitVec.toNat_zero] at hzero
      omega
    have hback : ((e + 150).toNat : Int) - 150 = e := by omega
    rw [repack, pack_full hm (by omega) hlt hle hmax, unpack_bits hne hne']
    simp only [hmantissa, hexponent, hback]

/-- A larger exponent overflows. -/
theorem repack_over (hm : 0 < m) (hmax : 105 ≤ e) : repack (.finite s m e hm) = .infinity s := by
  rw [repack, pack_over hm hmax, unpack_bits_infinity]

theorem repack_infinity (s : Sign) : repack (.infinity s) = .infinity s :=
  unpack_bits_infinity

theorem repack_zero (s : Sign) : repack (.zero s) = .zero s := by
  cases s <;> rfl

/-! ## Decoded numbers -/

variable {a b : Float32} {hm : 0 < m}

/-- **What is decoded is normal.** -/
theorem normal_of_decode (h : decode a = .finite s m e hm) : Normal m e ∧ e ≤ 104 := by
  rw [decode] at h
  obtain ⟨s', exponent, mantissa, hbits⟩ := exists_bits a.toBits.toBitVec
  have hmantissa := mantissa.isLt
  have hexponent := exponent.isLt
  rw [hbits] at h
  by_cases hall : exponent = -1#8
  · -- these bits stand for an infinity or for what is not a number
    simp only [unpack, unpackExponent_packComponents, unpackMantissa_packComponents,
      if_pos hall] at h
    split at h <;> simp at h
  by_cases hleast : exponent = 0#8
  · subst hleast
    by_cases hzero : mantissa = 0#23
    · simp only [unpack, unpackExponent_packComponents, unpackMantissa_packComponents,
        if_neg hall, if_true, dif_pos hzero] at h
      simp at h
    · rw [unpack_bits_zero hzero] at h
      obtain ⟨rfl, rfl, rfl⟩ := UnpackedFloat.finite.inj h
      exact ⟨⟨by omega, Int.le_refl _, .inr rfl⟩, by omega⟩
  · rw [unpack_bits hall hleast] at h
    obtain ⟨rfl, rfl, rfl⟩ := UnpackedFloat.finite.inj h
    have hpos : exponent.toNat ≠ 0 := fun h => hleast (BitVec.eq_of_toNat_eq h)
    have hmax : exponent.toNat ≠ 255 := fun h => hall (BitVec.eq_of_toNat_eq h)
    exact ⟨⟨by omega, by omega, .inl (by omega)⟩, by omega⟩

/-- **Numbers are told apart by their decoded forms.** -/
theorem decode_inj : decode a = decode b ↔ a = b := by
  rw [decode, decode]
  exact (unpack_inj_of_valid a.toModel.valid b.toModel.valid).trans
    (UInt32.toBitVec_inj.trans Float32.toBits_inj)

end Single
end SpecOverlay
