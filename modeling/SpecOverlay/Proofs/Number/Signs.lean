import SpecOverlay.Proofs.Number.Arithmetic

/-!
# Signs in single precision

Rounding to nearest treats both signs alike, so an operation on numbers with their signs changed
gives the result with its sign changed.  The one exception is a sum that is zero: it is the
positive zero for both signs.  So the laws of signs hold up to the sign of zero (`Same`).  In this
sense a change of all signs turns sums into differences and differences into sums (`same_add`,
`same_sub`), also where two of them follow each other (`same_add_add`, `same_sub_sub`).

Without that restriction a difference is the sum with the negated number (`sub_eq_add_neg`), and
sums commute (`add_comm`).
-/

namespace SpecOverlay
namespace Single

open Float.Model (Format UnpackedFloat)
open Float.Model.UnpackedFloat

variable {a b a' b' : Float32} {p : ℚ} {u v u' v' : UnpackedFloat} {fmt : Format}

/-! ## Changes of sign -/

theorem neg_apply (s : Sign) (n : ℤ) : (-s).apply n = -s.apply n := by
  cases s with
  | positive => rfl
  | negative => exact (Int.neg_neg n).symm

theorem neg_neg_sign (s : Sign) : - -s = s := by
  cases s <;> rfl

theorem neg_neg_decoded (u : UnpackedFloat) : u.neg.neg = u := by
  cases u <;> simp only [UnpackedFloat.neg, neg_neg_sign]

/-- A decoded number is normal, and stays so if its sign is changed. -/
theorem decode_neg (a : Float32) : decode (-a) = (decode a).neg := by
  have hneg : decode (-a) = repack (decode a).neg := rfl
  rw [hneg]
  cases hu : decode a with
  | infinity s => exact repack_infinity _
  | notANumber => rfl
  | zero s => exact repack_zero _
  | finite s m e hm =>
    obtain ⟨hnormal, hmax⟩ := normal_of_decode hu
    exact repack_finite hm hnormal hmax

theorem value_neg (ha : value? a = some p) : value? (-a) = some (-p) := by
  rw [value?, decode_neg]
  rcases decode_of_value ha with ⟨s, hu, rfl⟩ | ⟨s, m, e, hm, hu, -, -, rfl⟩
  · rw [hu, neg_zero]
    rfl
  · rw [hu, ← neg_mul, ← Int.cast_neg, ← neg_apply]
    rfl

theorem neg_neg (a : Float32) : - -a = a := by
  rw [← decode_inj, decode_neg, decode_neg, neg_neg_decoded]

/-- **A difference is a sum.** -/
theorem sub_decoded (u v : UnpackedFloat) :
    UnpackedFloat.sub fmt u v = UnpackedFloat.add fmt u v.neg := by
  cases u <;> cases v <;>
    simp only [UnpackedFloat.sub, UnpackedFloat.add, UnpackedFloat.neg, neg_apply,
      Int.sub_eq_add_neg]

theorem sub_eq_add_neg (a b : Float32) : a - b = a + -b := by
  have hsub : decode (a - b) = repack (UnpackedFloat.sub _ (decode a) (decode b)) := rfl
  have hadd : decode (a + -b) = repack (UnpackedFloat.add _ (decode a) (decode (-b))) := rfl
  rw [← decode_inj, hsub, hadd, sub_decoded, decode_neg]

/-- The sign is packed on its own. -/
theorem unpack_bits_neg (s : Sign) (exponent : BitVec 8) (mantissa : BitVec 23) :
    unpack Format.binary32 (bits (-s) exponent mantissa) =
      (unpack Format.binary32 (bits s exponent mantissa)).neg := by
  simp only [unpack, unpackExponent_packComponents, unpackMantissa_packComponents,
    unpackSign_packComponents, Sign.ofBitVec_toBitVec]
  split_ifs <;> rfl

theorem repack_neg (u : UnpackedFloat) : repack u.neg = (repack u).neg := by
  cases u with
  | notANumber => rfl
  | infinity s =>
    rw [repack_infinity]
    exact repack_infinity (-s)
  | zero s =>
    rw [repack_zero]
    exact repack_zero (-s)
  | finite s m e hm =>
    simp only [repack, pack, UnpackedFloat.neg]
    split_ifs <;> exact unpack_bits_neg s _ _

theorem add_comm_decoded (u v : UnpackedFloat) :
    UnpackedFloat.add fmt u v = UnpackedFloat.add fmt v u := by
  cases u with
  | notANumber => cases v <;> rfl
  | infinity s =>
    cases v with
    | infinity s' => cases s <;> cases s' <;> rfl
    | notANumber => rfl
    | zero s' => rfl
    | finite s' m e hm => rfl
  | zero s =>
    cases v with
    | zero s' => cases s <;> cases s' <;> rfl
    | notANumber => rfl
    | infinity s' => rfl
    | finite s' m e hm => rfl
  | finite s m e hm =>
    cases v with
    | finite s' m' e' hm' => simp only [UnpackedFloat.add, min_comm e e', Int.add_comm]
    | notANumber => rfl
    | infinity s' => rfl
    | zero s' => rfl

theorem add_comm (a b : Float32) : a + b = b + a := by
  have hadd (x y : Float32) :
    decode (x + y) = repack (UnpackedFloat.add _ (decode x) (decode y)) := rfl
  rw [← decode_inj, hadd, hadd, add_comm_decoded]

/-! ## The same number -/

/-- Two numbers are the same up to the sign of zero.  What is not a number is the same as
itself. -/
def Same (a b : Float32) : Prop :=
  a = b ∨ value? a = some 0 ∧ value? b = some 0

/-- A decoded number without the sign of a zero. -/
def unsigned : UnpackedFloat → UnpackedFloat
  | .zero _ => .zero .positive
  | u => u

theorem unsigned_eq_iff :
    unsigned u = unsigned v ↔ u = v ∨ ∃ s s', u = .zero s ∧ v = .zero s' := by
  cases u <;> cases v <;> simp [unsigned]

theorem value_eq_zero_iff : value? a = some 0 ↔ ∃ s, decode a = .zero s := by
  constructor
  · intro h
    rcases decode_of_value h with ⟨s, hu, -⟩ | ⟨s, m, e, hm, -, -, -, hzero⟩
    · exact ⟨s, hu⟩
    · have habs : |(s.apply m : ℚ) * 2 ^ e| = m * 2 ^ e := abs_apply s m e
      rw [← hzero, abs_zero] at habs
      exact absurd habs (magnitude_pos hm e).ne
  · rintro ⟨s, hu⟩
    rw [value?, hu, valueOf]

theorem same_iff : Same a b ↔ unsigned (decode a) = unsigned (decode b) := by
  rw [Same, unsigned_eq_iff, decode_inj, value_eq_zero_iff, value_eq_zero_iff,
    exists_and_exists_comm]

theorem unsigned_repack (h : unsigned u = unsigned v) :
    unsigned (repack u) = unsigned (repack v) := by
  rcases unsigned_eq_iff.mp h with rfl | ⟨s, s', rfl, rfl⟩
  · rfl
  · rw [repack_zero, repack_zero, unsigned, unsigned]

/-- A zero that is added is lost, whichever sign it has. -/
theorem unsigned_zero_add (s : Sign) (v : UnpackedFloat) :
    unsigned (UnpackedFloat.add fmt (.zero s) v) = unsigned v := by
  cases v with
  | zero s' => cases s <;> cases s' <;> rfl
  | notANumber => rfl
  | infinity s' => rfl
  | finite s' m e hm => rfl

theorem unsigned_add (hu : unsigned u = unsigned u') (hv : unsigned v = unsigned v') :
    unsigned (UnpackedFloat.add fmt u v) = unsigned (UnpackedFloat.add fmt u' v') := by
  have hleft (w : UnpackedFloat) :
      unsigned (UnpackedFloat.add fmt u w) = unsigned (UnpackedFloat.add fmt u' w) := by
    rcases unsigned_eq_iff.mp hu with rfl | ⟨s, s', rfl, rfl⟩
    · rfl
    · rw [unsigned_zero_add, unsigned_zero_add]
  rcases unsigned_eq_iff.mp hv with rfl | ⟨s, s', rfl, rfl⟩
  · exact hleft v
  · rw [add_comm_decoded, unsigned_zero_add, add_comm_decoded, unsigned_zero_add, hu]

/-! ## Rounding -/

theorem roundWithAccuracy_neg (s : Sign) (m : ℕ) (e : ℤ) (accuracy : Accuracy) :
    roundWithAccuracy fmt (-s) m e accuracy = (roundWithAccuracy fmt s m e accuracy).neg := by
  simp only [roundWithAccuracy]
  split <;> rfl

/-- **Rounding treats both signs alike**, except that a zero is always positive. -/
theorem unsigned_normalize_neg (n e : ℤ) (s : Sign) :
    unsigned (UnpackedFloat.normalize fmt (-n) e s) =
      unsigned (UnpackedFloat.normalize fmt n e s).neg := by
  rcases lt_trichotomy n 0 with h | rfl | h
  · rw [UnpackedFloat.normalize, UnpackedFloat.normalize, compare_lt_iff_lt.mpr h,
      compare_gt_iff_gt.mpr (Int.neg_pos.mpr h)]
    exact congrArg unsigned (roundWithAccuracy_neg .negative _ _ _)
  · rfl
  · rw [UnpackedFloat.normalize, UnpackedFloat.normalize, compare_gt_iff_gt.mpr h,
      compare_lt_iff_lt.mpr (Int.neg_neg_of_pos h), Int.neg_neg]
    exact congrArg unsigned (roundWithAccuracy_neg .positive _ _ _)

theorem unsigned_add_neg (u v : UnpackedFloat) :
    unsigned (UnpackedFloat.add fmt u.neg v.neg) = unsigned (UnpackedFloat.add fmt u v).neg := by
  cases u with
  | notANumber => rfl
  | infinity s =>
    cases v with
    | infinity s' => cases s <;> cases s' <;> rfl
    | notANumber => rfl
    | zero s' => rfl
    | finite s' m e hm => rfl
  | zero s =>
    cases v with
    | zero s' => cases s <;> cases s' <;> rfl
    | notANumber => rfl
    | infinity s' => rfl
    | finite s' m e hm => rfl
  | finite s m e hm =>
    cases v with
    | finite s' m' e' hm' =>
      simp only [UnpackedFloat.add, UnpackedFloat.neg, neg_apply, ← Int.neg_add]
      exact unsigned_normalize_neg _ _ _
    | notANumber => rfl
    | infinity s' => rfl
    | zero s' => rfl

/-! ## Laws up to the sign of zero -/

theorem Same.refl (a : Float32) : Same a a :=
  .inl rfl

theorem Same.trans {c : Float32} (h : Same a b) (h' : Same b c) : Same a c :=
  same_iff.mpr ((same_iff.mp h).trans (same_iff.mp h'))

theorem Same.add (ha : Same a a') (hb : Same b b') : Same (a + b) (a' + b') :=
  same_iff.mpr (unsigned_repack (unsigned_add (same_iff.mp ha) (same_iff.mp hb)))

/-- **A sum of numbers with their signs changed is the sum with its sign changed.** -/
theorem same_neg_add (a b : Float32) : Same (-a + -b) (-(a + b)) := by
  have hleft : decode (-a + -b) = repack (UnpackedFloat.add _ (decode (-a)) (decode (-b))) := rfl
  have hright : decode (-(a + b)) = (repack (UnpackedFloat.add _ (decode a) (decode b))).neg :=
    decode_neg _
  rw [same_iff, hleft, hright, decode_neg, decode_neg, ← repack_neg]
  exact unsigned_repack (unsigned_add_neg _ _)

/-- Changing the signs before and after turns a sum into a difference, -/
theorem same_add (a b : Float32) : Same (a + b) (-(-a - b)) := by
  have h := same_neg_add (-a) (-b)
  rwa [neg_neg, neg_neg, ← sub_eq_add_neg] at h

/-- and a difference into a sum. -/
theorem same_sub (a b : Float32) : Same (a - b) (-(-a + b)) := by
  have h := same_neg_add (-a) b
  rwa [neg_neg, ← sub_eq_add_neg] at h

theorem same_add_add (a b c : Float32) : Same (a + b + c) (-(-a - b - c)) := by
  have h := same_neg_add (-a - b) (-c)
  rw [neg_neg, ← sub_eq_add_neg] at h
  exact ((same_add a b).add (.refl c)).trans h

theorem same_sub_sub (a b c : Float32) : Same (a - b - c) (-(-a + b + c)) := by
  rw [sub_eq_add_neg (a - b)]
  exact ((same_sub a b).add (.refl (-c))).trans (same_neg_add _ _)

end Single
end SpecOverlay
