import Mathlib.Data.Prod.Lex
import Mathlib.Order.MinMax
import SpecOverlay.Geometry

/-!
# The order of single-precision numbers

Numbers are compared in their decoded form: by sign and kind, then by exponent, then by
mantissa.  So every number has a place in a linear order, its *rank*, and what is not a
number has none.  One number is less than another, or at most as large, if and only if this
is true of their ranks (`lt_iff`, `le_iff`).  The two zeros have the same rank.

From this follow the laws that hold in spite of what is not a number: the order is transitive
(`lt_of_le_of_lt`), and the larger and the smaller of two numbers bound what both of them
bound (`larger_le_iff`, `lt_smaller_iff`).
-/

namespace SpecOverlay
namespace Single

open Float.Model

/-! ## Ranks -/

/-- Places in the order of numbers. -/
abbrev Rank := Int ×ₗ Int ×ₗ Int

/-- The place given by sign and kind, exponent and mantissa. -/
def Rank.of (kind exponent mantissa : Int) : Rank :=
  toLex (kind, toLex (exponent, mantissa))

/-- The place of a decoded number.  Negative numbers are in the opposite order of their
magnitudes. -/
def rankOf : UnpackedFloat → Option Rank
  | .notANumber => none
  | .infinity .negative => some (.of (-2) 0 0)
  | .finite .negative m e _ => some (.of (-1) (-e) (-m))
  | .zero _ => some (.of 0 0 0)
  | .finite .positive m e _ => some (.of 1 e m)
  | .infinity .positive => some (.of 2 0 0)

/-- The place of a number. -/
def rank? (x : Float32) : Option Rank :=
  rankOf (decode x)

theorem compare_of (kind e m kind' e' m' : Int) :
    compare (Rank.of kind e m) (Rank.of kind' e' m') =
      (compare kind kind').then ((compare e e').then (compare m m')) := rfl

theorem compare_natCast (m n : Nat) : compare (m : Int) (n : Int) = compare m n := by
  rw [Int.compare_eq_ite_lt, Nat.compare_eq_ite_lt]
  simp

theorem compare_neg_neg (a b : Int) : compare (-a) (-b) = (compare a b).swap := by
  rw [Int.compare_eq_ite_lt, Int.compare_swap, Int.compare_eq_ite_lt]
  simp

/-- **Decoded numbers compare as their places do**, and what is not a number with nothing. -/
theorem compare_eq (u v : UnpackedFloat) :
    u.compare v = (rankOf u).bind fun a => (rankOf v).map fun b => compare a b := by
  -- only where the kinds are the same is there more to compare than the kinds
  rcases u with ⟨_ | _⟩ | _ | ⟨_ | _⟩ | ⟨_ | _, m, e, hm⟩ <;>
    rcases v with ⟨_ | _⟩ | _ | ⟨_ | _⟩ | ⟨_ | _, m', e', hm'⟩
  case finite.negative.finite.negative =>
    show some _ = some (compare (Rank.of _ _ _) (Rank.of _ _ _))
    rw [compare_of, compare_neg_neg e e', compare_neg_neg (m : Int) m', compare_natCast,
      Ordering.swap_then]
    rfl
  case finite.positive.finite.positive =>
    show some _ = some (compare (Rank.of _ _ _) (Rank.of _ _ _))
    rw [compare_of, compare_natCast]
    rfl
  all_goals rfl

variable {a b c : Float32}

/-- The order of numbers in their decoded form. -/
theorem lt_iff_compare : a < b ↔ (decode a).compare (decode b) = some .lt := by
  show (decide (a.toModel < b.toModel)) = true ↔ _
  rw [decide_eq_true_iff]
  exact beq_iff_eq

theorem le_iff_compare :
    a ≤ b ↔ ((decode a).compare (decode b)).any (·.isLE) = true := by
  show (decide (a.toModel ≤ b.toModel)) = true ↔ _
  rw [decide_eq_true_iff]
  exact Iff.rfl

/-- **The order of numbers is the order of their ranks.** -/
theorem lt_iff : a < b ↔ ∃ r s, rank? a = some r ∧ rank? b = some s ∧ r < s := by
  rw [lt_iff_compare, compare_eq, rank?, rank?]
  cases rankOf (decode a) with
  | none => simp
  | some r =>
    cases rankOf (decode b) with
    | none => simp
    | some s => simp [compare_lt_iff_lt]

theorem le_iff : a ≤ b ↔ ∃ r s, rank? a = some r ∧ rank? b = some s ∧ r ≤ s := by
  rw [le_iff_compare, compare_eq, rank?, rank?]
  cases rankOf (decode a) with
  | none => simp
  | some r =>
    cases rankOf (decode b) with
    | none => simp
    | some s => simp [Ordering.isLE_iff_ne_gt, compare_le_iff_le]

/-! ## Laws -/

/-- A number is at most itself, and nothing else is. -/
theorem le_self_iff : a ≤ a ↔ ∃ r, rank? a = some r := by
  rw [le_iff]
  constructor
  · rintro ⟨r, s, hr, -, -⟩
    exact ⟨r, hr⟩
  · rintro ⟨r, hr⟩
    exact ⟨r, r, hr, hr, le_rfl⟩

theorem lt_irrefl (a : Float32) : ¬ a < a := by
  rw [lt_iff]
  rintro ⟨r, s, hr, hs, hlt⟩
  obtain rfl : r = s := Option.some.inj (hr.symm.trans hs)
  exact hlt.false

theorem lt_of_le_of_lt (hab : a ≤ b) (hbc : b < c) : a < c := by
  obtain ⟨r, s, hr, hs, hle⟩ := le_iff.mp hab
  obtain ⟨s', t, hs', ht, hlt⟩ := lt_iff.mp hbc
  obtain rfl : s = s' := Option.some.inj (hs.symm.trans hs')
  exact lt_iff.mpr ⟨r, t, hr, ht, hle.trans_lt hlt⟩

theorem lt_trans (hab : a < b) (hbc : b < c) : a < c := by
  obtain ⟨r, s, hr, hs, hrs⟩ := lt_iff.mp hab
  obtain ⟨s', t, hs', ht, hst⟩ := lt_iff.mp hbc
  obtain rfl : s = s' := Option.some.inj (hs.symm.trans hs')
  exact lt_iff.mpr ⟨r, t, hr, ht, hrs.trans hst⟩

/-- What is less than another number is a number, and so is the other. -/
theorem le_self_of_lt (h : a < b) : a ≤ a ∧ b ≤ b := by
  obtain ⟨r, s, hr, hs, -⟩ := lt_iff.mp h
  exact ⟨le_self_iff.mpr ⟨r, hr⟩, le_self_iff.mpr ⟨s, hs⟩⟩

theorem rank?_larger {r s : Rank} (ha : rank? a = some r) (hb : rank? b = some s) :
    rank? (larger a b) = some (max r s) := by
  rw [larger]
  by_cases hlt : a < b
  · obtain ⟨r', s', hr, hs, hrs⟩ := lt_iff.mp hlt
    obtain rfl : r = r' := Option.some.inj (ha.symm.trans hr)
    obtain rfl : s = s' := Option.some.inj (hb.symm.trans hs)
    rw [if_pos hlt, hb, max_eq_right hrs.le]
  · have hle : s ≤ r := not_lt.mp fun hrs => hlt (lt_iff.mpr ⟨r, s, ha, hb, hrs⟩)
    rw [if_neg hlt, if_pos (le_self_iff.mpr ⟨r, ha⟩), ha, max_eq_left hle]

theorem rank?_smaller {r s : Rank} (ha : rank? a = some r) (hb : rank? b = some s) :
    rank? (smaller a b) = some (min r s) := by
  rw [smaller]
  by_cases hlt : b < a
  · obtain ⟨s', r', hs, hr, hsr⟩ := lt_iff.mp hlt
    obtain rfl : r = r' := Option.some.inj (ha.symm.trans hr)
    obtain rfl : s = s' := Option.some.inj (hb.symm.trans hs)
    rw [if_pos hlt, hb, min_eq_right hsr.le]
  · have hle : r ≤ s := not_lt.mp fun hsr => hlt (lt_iff.mpr ⟨s, r, hb, ha, hsr⟩)
    rw [if_neg hlt, if_pos (le_self_iff.mpr ⟨r, ha⟩), ha, min_eq_left hle]

/-- **The larger of two numbers is bounded by what bounds both.** -/
theorem larger_le_iff (ha : a ≤ a) (hb : b ≤ b) : larger a b ≤ c ↔ a ≤ c ∧ b ≤ c := by
  obtain ⟨r, hr⟩ := le_self_iff.mp ha
  obtain ⟨s, hs⟩ := le_self_iff.mp hb
  simp only [le_iff, rank?_larger hr hs, hr, hs, Option.some.injEq, exists_and_left,
    exists_eq_left', max_le_iff]
  constructor
  · rintro ⟨t, ht, hrt, hst⟩
    exact ⟨⟨t, ht, hrt⟩, t, ht, hst⟩
  · rintro ⟨⟨t, ht, hrt⟩, t', ht', hst⟩
    obtain rfl : t = t' := Option.some.inj (ht.symm.trans ht')
    exact ⟨t, ht, hrt, hst⟩

/-- **What is less than both of two numbers is less than the smaller one.** -/
theorem lt_smaller_iff (ha : a ≤ a) (hb : b ≤ b) : c < smaller a b ↔ c < a ∧ c < b := by
  obtain ⟨r, hr⟩ := le_self_iff.mp ha
  obtain ⟨s, hs⟩ := le_self_iff.mp hb
  simp only [lt_iff, rank?_smaller hr hs, hr, hs, Option.some.injEq, exists_and_left,
    exists_eq_left', lt_min_iff]
  constructor
  · rintro ⟨t, ht, hrt, hst⟩
    exact ⟨⟨t, ht, hrt⟩, t, ht, hst⟩
  · rintro ⟨⟨t, ht, hrt⟩, t', ht', hst⟩
    obtain rfl : t = t' := Option.some.inj (ht.symm.trans ht')
    exact ⟨t, ht, hrt, hst⟩

end Single

end SpecOverlay
