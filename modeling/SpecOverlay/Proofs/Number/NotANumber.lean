import SpecOverlay.Proofs.Dimension.WholePixels
import SpecOverlay.Proofs.Number.Decimals

/-!
# What is not a number in single precision

Multiplying loses a number in one way only: one factor is a zero and the other an infinity
(`isNaN_mul_iff`).  A quotient by a finite number that is not zero is a number if and only if the
dividend is one (`isNaN_div_iff`).

Numbers are comparable with each other: of two numbers, one that is not at most the other is greater
(`lt_of_not_le`).  For what is not a number this fails, so a check that refuses what is at most zero
lets it pass.
-/

namespace SpecOverlay
namespace Single

open Float.Model (Format UnpackedFloat)
open Float.Model.UnpackedFloat (Sign)
open Dimension (isNaN_iff)

variable {a b : Float32} {p q : ℚ} {s : Sign}

/-! ## Kinds of numbers -/

/-- A number that is infinite. -/
def IsInfinite (a : Float32) : Prop :=
  ∃ s, decode a = .infinity s

/-- **What is not a number, an infinity, or a number with a value.** -/
theorem kinds (a : Float32) : a.isNaN = true ∨ IsInfinite a ∨ ∃ p, value? a = some p := by
  rw [isNaN_iff, IsInfinite, value?]
  rcases decode a with s | _ | s | ⟨s, m, e, hm⟩ <;> simp [valueOf]

theorem IsInfinite.not_isNaN (h : IsInfinite a) : a.isNaN ≠ true := by
  obtain ⟨s, hu⟩ := h
  rw [Ne, isNaN_iff, hu]
  exact nofun

theorem not_isNaN_of_value (ha : value? a = some p) : a.isNaN ≠ true := by
  rw [Ne, isNaN_iff]
  intro hnan
  rw [value?, hnan] at ha
  exact Option.some_ne_none p ha.symm

theorem IsInfinite.value?_ne (h : IsInfinite a) : value? a ≠ some p := by
  obtain ⟨s, hu⟩ := h
  rw [value?, hu]
  exact (Option.some_ne_none p).symm

/-- Sign and value of a finite number. -/
theorem exists_stands (ha : value? a = some p) : ∃ s, Stands s p (decode a) := by
  rcases decode_of_value ha with ⟨s, hu, -⟩ | ⟨s, m, e, hm, hu, -⟩
  · exact ⟨s, stands_iff.mpr ⟨ha, by rw [hu]; rfl⟩⟩
  · exact ⟨s, stands_iff.mpr ⟨ha, by rw [hu]; rfl⟩⟩

/-- What is rounded is a number. -/
theorem SignedRoundsTo.not_isNaN (h : SignedRoundsTo a s p) : a.isNaN ≠ true := by
  rw [Ne, isNaN_iff]
  intro hnan
  have hsign := h.sign
  rw [hnan] at hsign
  nomatch hsign

/-! ## Order -/

theorem rank?_eq_none_iff : rank? a = none ↔ a.isNaN = true := by
  rw [isNaN_iff, rank?]
  rcases decode a with ⟨_ | _⟩ | _ | s | ⟨_ | _, m, e, hm⟩ <;> simp [rankOf]

/-- **Numbers are comparable.** -/
theorem lt_of_not_le (ha : a.isNaN ≠ true) (hb : b.isNaN ≠ true) (h : ¬ a ≤ b) : b < a := by
  obtain ⟨r, hr⟩ := Option.ne_none_iff_exists'.mp (mt rank?_eq_none_iff.mp ha)
  obtain ⟨t, ht⟩ := Option.ne_none_iff_exists'.mp (mt rank?_eq_none_iff.mp hb)
  refine lt_iff.mpr ⟨t, r, ht, hr, not_le.mp fun hle => h ?_⟩
  exact le_iff.mpr ⟨r, t, hr, ht, hle⟩

/-- What is greater than something is a number. -/
theorem not_isNaN_of_lt (h : a < b) : b.isNaN ≠ true := by
  obtain ⟨-, t, -, ht, -⟩ := lt_iff.mp h
  intro hnan
  rw [rank?_eq_none_iff.mpr hnan] at ht
  nomatch ht

/-! ## Products -/

/-- A zero and an infinity, in either order. -/
def NoProduct (a b : Float32) : Prop :=
  value? a = some 0 ∧ IsInfinite b ∨ IsInfinite a ∧ value? b = some 0

theorem decode_mul (a b : Float32) : decode (a * b) =
    repack (UnpackedFloat.mul Format.binary32 (decode a) (decode b)) := rfl

theorem decode_div (a b : Float32) : decode (a / b) =
    repack (UnpackedFloat.div Format.binary32 (decode a) (decode b)) := rfl

theorem repack_notANumber : repack .notANumber = .notANumber := rfl

theorem isNaN_mul_left (ha : a.isNaN = true) : (a * b).isNaN = true := by
  rw [isNaN_iff] at ha ⊢
  rw [decode_mul, ha]
  exact repack_notANumber

theorem isNaN_mul_right (hb : b.isNaN = true) : (a * b).isNaN = true := by
  rw [isNaN_iff] at hb ⊢
  rw [decode_mul, hb]
  cases decode a <;> exact repack_notANumber

theorem isNaN_of_noProduct (h : NoProduct a b) : (a * b).isNaN = true := by
  rw [isNaN_iff, decode_mul]
  rcases h with ⟨ha, s', hb⟩ | ⟨⟨s, ha⟩, hb⟩
  · obtain ⟨s, ha⟩ := value_eq_zero_iff.mp ha
    rw [ha, hb]
    exact repack_notANumber
  · obtain ⟨s', hb⟩ := value_eq_zero_iff.mp hb
    rw [ha, hb]
    exact repack_notANumber

/-- An infinity times what is neither zero nor not a number is an infinity. -/
theorem isInfinite_mul (ha : IsInfinite a) (hb : b.isNaN ≠ true) (hne : value? b ≠ some 0) :
    IsInfinite (a * b) ∧ IsInfinite (b * a) := by
  obtain ⟨s, ha⟩ := ha
  rw [IsInfinite, IsInfinite, decode_mul, decode_mul, ha]
  rcases kinds b with hnan | ⟨s', hb⟩ | ⟨q, hq⟩
  · exact absurd hnan hb
  · rw [hb]
    exact ⟨⟨_, repack_infinity _⟩, ⟨_, repack_infinity _⟩⟩
  · rcases decode_of_value hq with ⟨s', -, rfl⟩ | ⟨s', m, e, hm, hu, -⟩
    · exact absurd hq hne
    · rw [hu]
      exact ⟨⟨_, repack_infinity _⟩, ⟨_, repack_infinity _⟩⟩

/-- **A product is a number** unless a factor is none, or one factor is a zero and the other an
infinity. -/
theorem isNaN_mul_iff :
    (a * b).isNaN = true ↔ a.isNaN = true ∨ b.isNaN = true ∨ NoProduct a b := by
  constructor
  · intro h
    by_contra hno
    obtain ⟨ha, hb, hproduct⟩ : a.isNaN ≠ true ∧ b.isNaN ≠ true ∧ ¬ NoProduct a b := by
      simpa only [not_or] using hno
    rcases kinds a with hnan | hinf | ⟨p, hp⟩
    · exact ha hnan
    · have hne : value? b ≠ some 0 := fun hzero => hproduct (.inr ⟨hinf, hzero⟩)
      exact (isInfinite_mul hinf hb hne).1.not_isNaN h
    · rcases kinds b with hnan | hinf | ⟨q, hq⟩
      · exact hb hnan
      · have hne : value? a ≠ some 0 := fun hzero => hproduct (.inl ⟨hzero, hinf⟩)
        exact (isInfinite_mul hinf ha hne).2.not_isNaN h
      · obtain ⟨s, hs⟩ := exists_stands hp
        obtain ⟨s', hs'⟩ := exists_stands hq
        exact (signedRoundsTo_mul hs hs').not_isNaN h
  · rintro (ha | hb | hproduct)
    · exact isNaN_mul_left ha
    · exact isNaN_mul_right hb
    · exact isNaN_of_noProduct hproduct

/-! ## Quotients -/

/-- **Dividing by a finite number that is not zero loses no number.** -/
theorem isNaN_div_iff (hb : value? b = some q) (hq : q ≠ 0) :
    (a / b).isNaN = true ↔ a.isNaN = true := by
  constructor
  · intro h
    rcases kinds a with hnan | ⟨s, ha⟩ | ⟨p, hp⟩
    · exact hnan
    · have hinf : IsInfinite (a / b) := by
        rcases decode_of_value hb with ⟨s', -, rfl⟩ | ⟨s', m, e, hm, hu, -⟩
        · exact absurd rfl hq
        · rw [IsInfinite, decode_div, ha, hu]
          exact ⟨_, repack_infinity _⟩
      exact absurd h hinf.not_isNaN
    · obtain ⟨s, hs⟩ := exists_stands hp
      obtain ⟨s', hs'⟩ := exists_stands hb
      exact absurd h (signedRoundsTo_div hs hs' hq).not_isNaN
  · intro ha
    rw [isNaN_iff] at ha ⊢
    rw [decode_div, ha]
    exact repack_notANumber

end Single
end SpecOverlay
