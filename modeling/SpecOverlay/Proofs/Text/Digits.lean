import Mathlib.Data.Nat.Digits.Defs

/-!
# Digits from left to right

Digits are read from left to right, the first one being worth most, while `Nat.ofDigits` takes them
in the other order.  Reading them is `Nat.ofDigits` of the reversed list (`foldl_eq_ofDigits`), and
behind other digits they count for themselves (`ofDigits_reverse_append`).
-/

namespace SpecOverlay
namespace Text

variable (base : ℕ) (values values' : List ℕ)

theorem foldl_eq_ofDigits :
    values.foldl (fun n v => base * n + v) 0 = Nat.ofDigits base values.reverse := by
  rw [Nat.ofDigits_eq_foldr, List.foldr_reverse]
  simp only [Nat.cast_id, Nat.add_comm]

theorem ofDigits_reverse_append :
    Nat.ofDigits base (values ++ values').reverse =
      Nat.ofDigits base values.reverse * base ^ values'.length +
        Nat.ofDigits base values'.reverse := by
  rw [List.reverse_append, Nat.ofDigits_append, List.length_reverse, Nat.add_comm, Nat.mul_comm]

end Text
end SpecOverlay
