import SpecOverlay.Proofs.Number.Signs

/-!
# Products and quotients in single precision

A product of finite numbers and a quotient by a number that is not zero are the exact results,
rounded, and they have the sign of the exact result also if they are zero (`SignedRoundsTo`,
`signedRoundsTo_mul`, `signedRoundsTo_div`).  Value and sign say which number it is
(`SignedRoundsTo.unique`).

* A product of two mantissas is exact, and it is only rounded (`rounds_mul_finite`).
* A quotient is computed with enough digits and located by its remainder, so nothing is lost before
  it is rounded (`quotientExponent_le`, `rounds_div_finite`).
-/

namespace SpecOverlay
namespace Single

open Float.Model (Format UnpackedFloat totalExponent)
open Float.Model.UnpackedFloat

variable {a b x y : Float32} {p q v : ℚ} {u w : UnpackedFloat} {m m' : ℕ} {e e' : ℤ}
  {s s' : Sign}

/-! ## Signs -/

/-- The sign of a product is the product of the signs. -/
theorem apply_mul (s s' : Sign) (n n' : ℤ) :
    (s * s').apply (n * n') = s.apply n * s'.apply n' := by
  cases s <;> cases s'
  case negative.negative => exact (Int.neg_mul_neg n n').symm
  case negative.positive => exact (Int.neg_mul n n').symm
  case positive.negative => exact (Int.mul_neg n n').symm
  case positive.positive => rfl

/-- A quotient has the sign of the product. -/
theorem div_eq_mul (s s' : Sign) : s / s' = s * s' := by
  cases s <;> cases s' <;> rfl

theorem apply_div (s s' : Sign) : ((s / s').apply 1 : ℚ) = s.apply 1 / s'.apply 1 := by
  have hmul : ((s * s').apply (1 * 1) : ℚ) = s.apply 1 * s'.apply 1 := by
    exact_mod_cast apply_mul s s' 1 1
  have hinv : ((s'.apply 1 : ℤ) : ℚ)⁻¹ = s'.apply 1 := by
    cases s' <;> norm_num [Sign.apply]
  rw [div_eq_mul, div_eq_mul_inv, hinv, ← hmul, mul_one]

/-- The sign of a decoded number, if it has one. -/
def signOf : UnpackedFloat → Option Sign
  | .notANumber => none
  | .infinity s => some s
  | .zero s => some s
  | .finite s _ _ _ => some s

theorem signOf_neg (hs : signOf u = some s) : signOf u.neg = some (-s) := by
  cases u with
  | notANumber => nomatch hs
  | infinity s' =>
    obtain rfl := Option.some.inj hs
    rfl
  | zero s' =>
    obtain rfl := Option.some.inj hs
    rfl
  | finite s' m e hm =>
    obtain rfl := Option.some.inj hs
    rfl

theorem signOf_roundWithAccuracy (s : Sign) (m : ℕ) (e : ℤ) (accuracy : Accuracy) :
    signOf (roundWithAccuracy Format.binary32 s m e accuracy) = some s := by
  simp only [roundWithAccuracy]
  split <;> rfl

/-- Packing keeps the sign of what is rounded. -/
theorem Rounds.signOf_repack (h : Rounds v u) : signOf (repack u) = signOf u := by
  cases h with
  | zero s hnearest => rw [repack_zero]
  | finite s m e hm hnormal hnearest =>
    rcases le_or_gt e 104 with hmax | hover
    · rw [repack_finite hm hnormal hmax]
    · rw [repack_over hm hover]
      rfl

/-- A decoded number that is finite, with its sign and its value. -/
inductive Stands (s : Sign) : ℚ → UnpackedFloat → Prop where
  | zero : Stands s 0 (.zero s)
  | finite (m : ℕ) (e : ℤ) (hm : 0 < m) :
      Normal m e → Stands s (s.apply m * 2 ^ e) (.finite s m e hm)

theorem stands_iff : Stands s p (decode a) ↔ value? a = some p ∧ signOf (decode a) = some s := by
  constructor
  · intro h
    rw [value?]
    generalize decode a = u at h
    cases h <;> exact ⟨rfl, rfl⟩
  · rintro ⟨ha, hs⟩
    rcases decode_of_value ha with ⟨s', hu, rfl⟩ | ⟨s', m, e, hm, hu, hnormal, -, rfl⟩
    · rw [hu] at hs ⊢
      obtain rfl := Option.some.inj hs
      exact .zero
    · rw [hu] at hs ⊢
      obtain rfl := Option.some.inj hs
      exact .finite m e hm hnormal

/-- Sign and value say which number it is. -/
theorem eq_of_stands (ha : Stands s p (decode a)) (hb : Stands s p (decode b)) : a = b := by
  obtain ⟨hvalue, hsign⟩ := stands_iff.mp ha
  obtain ⟨hvalue', hsign'⟩ := stands_iff.mp hb
  by_cases hp : p = 0
  · subst hp
    obtain ⟨t, hu⟩ := value_eq_zero_iff.mp hvalue
    obtain ⟨t', hw⟩ := value_eq_zero_iff.mp hvalue'
    rw [hu] at hsign
    rw [hw] at hsign'
    obtain rfl : t = t' := Option.some.inj (hsign.trans hsign'.symm)
    exact decode_inj.mp (hu.trans hw.symm)
  · exact eq_of_value hvalue hvalue' hp

/-- A number that stands for a value after rounding, and has the given sign also if it is zero. -/
structure SignedRoundsTo (x : Float32) (s : Sign) (v : ℚ) : Prop where
  roundsTo : RoundsTo x v
  sign : signOf (decode x) = some s

theorem Rounds.signedRoundsTo (h : Rounds v u) (hs : signOf u = some s)
    (hx : decode x = repack u) : SignedRoundsTo x s v :=
  ⟨h.roundsTo hx, by rw [hx, h.signOf_repack, hs]⟩

theorem SignedRoundsTo.neg (h : SignedRoundsTo x s v) : SignedRoundsTo (-x) (-s) (-v) := by
  obtain ⟨⟨r, hnearest, hx⟩, hs⟩ := h
  refine ⟨⟨-r, hnearest.neg, ?_⟩, ?_⟩
  · rcases hx with hx | ⟨hx, hlarge⟩ | ⟨hx, hlarge⟩
    · exact .inl (value_neg hx)
    · exact .inr (.inr ⟨by rw [decode_neg, hx]; rfl, neg_le_neg hlarge⟩)
    · exact .inr (.inl ⟨by rw [decode_neg, hx]; rfl, le_neg_of_le_neg hlarge⟩)
  · rw [decode_neg]
    exact signOf_neg hs

/-- **A value and a sign are rounded to one number only.** -/
theorem SignedRoundsTo.unique (hx : SignedRoundsTo x s v) (hy : SignedRoundsTo y s v) :
    x = y := by
  obtain ⟨⟨r, hr, hx⟩, hs⟩ := hx
  obtain ⟨⟨r', hr', hy⟩, hs'⟩ := hy
  obtain rfl := hr.unique hr'
  rcases hx with hx | ⟨hx, hlarge⟩ | ⟨hx, hlarge⟩
  · have hlt := abs_lt.mp (abs_value_lt hx)
    rcases hy with hy | ⟨-, hlarge⟩ | ⟨-, hlarge⟩
    · exact eq_of_stands (stands_iff.mpr ⟨hx, hs⟩) (stands_iff.mpr ⟨hy, hs'⟩)
    · linarith
    · linarith
  · rcases hy with hy | ⟨hy, -⟩ | ⟨hy, hsmall⟩
    · have hlt := abs_lt.mp (abs_value_lt hy)
      linarith
    · exact decode_inj.mp (hx.trans hy.symm)
    · linarith
  · rcases hy with hy | ⟨hy, hsmall⟩ | ⟨hy, -⟩
    · have hlt := abs_lt.mp (abs_value_lt hy)
      linarith
    · linarith
    · exact decode_inj.mp (hx.trans hy.symm)

/-! ## Products -/

theorem rounds_mul_finite (s s' : Sign) (hm : 0 < m) (hm' : 0 < m')
    (he : e + e' ≤ target (m * m') (e + e')) :
    Rounds (s.apply m * 2 ^ e * (s'.apply m' * 2 ^ e'))
      (UnpackedFloat.mul Format.binary32 (.finite s m e hm) (.finite s' m' e' hm')) := by
  have hvalue : (s.apply m : ℚ) * 2 ^ e * (s'.apply m' * 2 ^ e') =
      (s * s').apply (m * m' : ℕ) * 2 ^ (e + e') := by
    rw [Nat.cast_mul, apply_mul, zpow_add₀ two_ne_zero]
    push_cast
    ring
  rw [hvalue]
  exact rounds_exact he (s * s')

/-- A mantissa of 24 digits has enough of them to be rounded. -/
theorem le_target_of_full (hfull : 2 ^ 23 ≤ m) (e : ℤ) : e ≤ target m e := by
  have hdigits := (Nat.le_log2 (by omega)).mpr hfull
  rw [target]
  omega

/-- So has a product of normal numbers. -/
theorem add_le_target (h : Normal m e) (h' : Normal m' e') (hm : 0 < m) (hm' : 0 < m') :
    e + e' ≤ target (m * m') (e + e') := by
  by_cases hfull : 2 ^ 23 ≤ m * m'
  · exact le_target_of_full hfull _
  · rw [target]
    have hleast : e = -149 := h.full.resolve_left fun hm =>
      hfull (hm.trans (Nat.le_mul_of_pos_right m hm'))
    have hleast' : e' = -149 := h'.full.resolve_left fun hm' =>
      hfull (hm'.trans (Nat.le_mul_of_pos_left m' hm))
    omega

/-- **The product of two numbers is their exact product, rounded.** -/
theorem signedRoundsTo_mul (ha : Stands s p (decode a)) (hb : Stands s' q (decode b)) :
    SignedRoundsTo (a * b) (s * s') (p * q) := by
  have hproduct : decode (a * b) =
    repack (UnpackedFloat.mul Format.binary32 (decode a) (decode b)) := rfl
  generalize decode a = u at ha hproduct
  generalize decode b = w at hb hproduct
  cases ha with
  | zero =>
    rw [zero_mul]
    cases hb with
    | zero => exact (rounds_zero (s * s')).signedRoundsTo rfl hproduct
    | finite m' e' hm' hnormal' => exact (rounds_zero (s * s')).signedRoundsTo rfl hproduct
  | finite m e hm hnormal =>
    cases hb with
    | zero =>
      rw [mul_zero]
      exact (rounds_zero (s * s')).signedRoundsTo rfl hproduct
    | finite m' e' hm' hnormal' =>
      exact (rounds_mul_finite s s' hm hm' (add_le_target hnormal hnormal' hm hm')).signedRoundsTo
        (signOf_roundWithAccuracy _ _ _ _) hproduct

/-! ## Quotients -/

/-- The exponent that a quotient is computed with. -/
def quotientExponent (m : ℕ) (e : ℤ) (m' : ℕ) (e' : ℤ) : ℤ :=
  min (e - e') (max (m.log2 + e - (m'.log2 + e') - 24) (-149))

theorem divCore_eq (m : ℕ) (e : ℤ) (m' : ℕ) (e' : ℤ) :
    divCore Format.binary32 m e m' e' =
      (m * 2 ^ (e - e' - quotientExponent m e m' e').toNat / m', quotientExponent m e m' e',
        accuracyOfFraction (m * 2 ^ (e - e' - quotientExponent m e m' e').toNat % m') m') := by
  have hexponent : min (e - e')
      (Format.binary32.targetExponent (totalExponent m e - totalExponent m' e')) =
        quotientExponent m e m' e' := by
    simp [Format.targetExponent, totalExponent, Format.mantissaBits, Format.minExponent,
      quotientExponent]
    omega
  simp only [divCore, hexponent, Nat.shiftLeft_eq]

/-- **A quotient is computed with enough digits**: 24 of them, or up to the least exponent. -/
theorem quotientExponent_le (hm : 0 < m) (hm' : 0 < m') :
    quotientExponent m e m' e' ≤ target
      (m * 2 ^ (e - e' - quotientExponent m e m' e').toNat / m') (quotientExponent m e m' e') := by
  obtain ⟨t, ht⟩ : ∃ t, t = quotientExponent m e m' e' := ⟨_, rfl⟩
  rw [← ht]
  rw [quotientExponent] at ht
  by_cases hleast : t ≤ -149
  · exact hleast.trans (le_max_right _ _)
  have hquotient : 2 ^ 23 ≤ m * 2 ^ (e - e' - t).toNat / m' := by
    rw [Nat.le_div_iff_mul_le hm']
    calc 2 ^ 23 * m' ≤ 2 ^ 23 * 2 ^ (m'.log2 + 1) := Nat.mul_le_mul_left _ Nat.lt_log2_self.le
      _ = 2 ^ (23 + (m'.log2 + 1)) := (pow_add _ _ _).symm
      _ ≤ 2 ^ (m.log2 + (e - e' - t).toNat) := Nat.pow_le_pow_right two_pos (by omega)
      _ = 2 ^ m.log2 * 2 ^ (e - e' - t).toNat := pow_add _ _ _
      _ ≤ m * 2 ^ (e - e' - t).toNat :=
        Nat.mul_le_mul_right _ (Nat.log2_self_le (Nat.pos_iff_ne_zero.mp hm))
  exact le_target_of_full hquotient _

theorem rounds_div_finite (s s' : Sign) (hm : 0 < m) (hm' : 0 < m') :
    Rounds (s.apply m * 2 ^ e / (s'.apply m' * 2 ^ e'))
      (UnpackedFloat.div Format.binary32 (.finite s m e hm) (.finite s' m' e' hm')) := by
  obtain ⟨t, ht⟩ : ∃ t, t = quotientExponent m e m' e' := ⟨_, rfl⟩
  have hle : t ≤ e - e' := ht ▸ min_le_left _ _
  have hvalue : (s.apply m : ℚ) * 2 ^ e / (s'.apply m' * 2 ^ e') =
      (s / s').apply 1 * ((m * 2 ^ (e - e' - t).toNat : ℕ) / m' * 2 ^ t) := by
    have hpow : (2 : ℚ) ^ e = 2 ^ (e - e' - t).toNat * 2 ^ t * 2 ^ e' := by
      rw [← two_pow_toNat hle, ← zpow_add₀ two_ne_zero, sub_add_cancel]
    rw [apply_eq_mul s m, apply_eq_mul s' m', apply_div, hpow]
    push_cast
    field_simp
  have hlocates := locates_div (m * 2 ^ (e - e' - t).toNat) hm'
  have hrounds := rounds_roundWithAccuracy hlocates (ht ▸ quotientExponent_le hm hm') (s / s')
  rw [hvalue]
  simpa only [UnpackedFloat.div, divCore_eq, ← ht] using hrounds

/-- **The quotient of two numbers is their exact quotient, rounded**, if the divisor is not
zero. -/
theorem signedRoundsTo_div (ha : Stands s p (decode a)) (hb : Stands s' q (decode b))
    (hq : q ≠ 0) : SignedRoundsTo (a / b) (s / s') (p / q) := by
  have hquotient : decode (a / b) =
    repack (UnpackedFloat.div Format.binary32 (decode a) (decode b)) := rfl
  generalize decode a = u at ha hquotient
  generalize decode b = w at hb hquotient
  cases hb with
  | zero => exact absurd rfl hq
  | finite m' e' hm' hnormal' =>
    cases ha with
    | zero =>
      rw [zero_div]
      exact (rounds_zero (s / s')).signedRoundsTo rfl hquotient
    | finite m e hm hnormal =>
      exact (rounds_div_finite s s' hm hm').signedRoundsTo (signOf_roundWithAccuracy _ _ _ _)
        hquotient

end Single
end SpecOverlay
