import SpecOverlay.Arguments
import SpecOverlay.Proofs.Dimension.Numeral

/-!
# Integers as they are written

An integer is written with ASCII digits, at least one, behind an optional sign (`WritesInteger`).
Reading accepts these texts and no others (`readInteger?_eq_some_iff`), and for 32 bits those whose
number fits (`readInt32?_eq_some_iff`).

So an argument that is asked for as an integer is one of three things: it has no value, or its value
is such a text, or it is refused with a complaint that quotes it (`Arguments.int_cases`).
-/

namespace SpecOverlay

open Dimension (denoted)
open Single (minInt32 maxInt32)

namespace Decimal

/-- A text that is an integer, and the number that it denotes. -/
inductive WritesInteger : List Char → ℤ → Prop where
  | unsigned {digits : List Char} : digits ≠ [] → (∀ c ∈ digits, c.isDigit = true) →
      WritesInteger digits (denoted digits)
  | plus {digits : List Char} : digits ≠ [] → (∀ c ∈ digits, c.isDigit = true) →
      WritesInteger ('+' :: digits) (denoted digits)
  | minus {digits : List Char} : digits ≠ [] → (∀ c ∈ digits, c.isDigit = true) →
      WritesInteger ('-' :: digits) (-denoted digits)

variable {s digits : List Char} {n : ℤ}

/-- A digit is no sign. -/
theorem spanSign_digits (hne : digits ≠ []) (hdigits : ∀ c ∈ digits, c.isDigit = true) :
    spanSign digits = (false, digits) := by
  obtain ⟨c, t, rfl⟩ := List.exists_cons_of_ne_nil hne
  have hc := hdigits c List.mem_cons_self
  rw [spanSign.eq_def]
  split
  case h_1 h =>
    obtain ⟨rfl, rfl⟩ := List.cons.inj h
    exact absurd hc (by decide)
  case h_2 h =>
    obtain ⟨rfl, rfl⟩ := List.cons.inj h
    exact absurd hc (by decide)
  case h_3 => rfl

/-- What is behind the sign has to be digits. -/
theorem readInteger?_of_spanSign {negative : Bool} (hsign : spanSign s = (negative, digits)) :
    readInteger? s = some n ↔ digits ≠ [] ∧ (∀ c ∈ digits, c.isDigit = true) ∧
      n = if negative then -(denoted digits : ℤ) else denoted digits := by
  have hrefused : (digits.isEmpty || !digits.all Char.isDigit) = true ↔
      ¬ (digits ≠ [] ∧ ∀ c ∈ digits, c.isDigit = true) := by
    rw [Bool.or_eq_true, List.isEmpty_iff, Bool.not_eq_true', ← Bool.not_eq_true, List.all_eq_true,
      not_and_or, not_not]
  simp only [readInteger?, hsign, hrefused, Dimension.ofDigits_eq]
  by_cases hwritten : digits ≠ [] ∧ ∀ c ∈ digits, c.isDigit = true
  · rw [if_neg (not_not.mpr hwritten), Option.some.injEq, ← and_assoc, and_iff_right hwritten]
    exact eq_comm
  · rw [if_pos hwritten, ← and_assoc]
    exact iff_of_false (fun h => nomatch h) fun h => hwritten h.1

/-- **Reading accepts what is written as an integer**, and nothing else. -/
theorem readInteger?_eq_some_iff : readInteger? s = some n ↔ WritesInteger s n := by
  constructor
  · intro h
    cases hsign : spanSign s with
    | mk negative digits =>
      obtain ⟨hne, hdigits, rfl⟩ := (readInteger?_of_spanSign hsign).mp h
      rw [spanSign.eq_def] at hsign
      split at hsign
      · obtain ⟨rfl, rfl⟩ := Prod.mk.inj hsign
        exact .minus hne hdigits
      · obtain ⟨rfl, rfl⟩ := Prod.mk.inj hsign
        exact .plus hne hdigits
      · obtain ⟨rfl, rfl⟩ := Prod.mk.inj hsign
        exact .unsigned hne hdigits
  · intro h
    cases h with
    | unsigned hne hdigits =>
      exact (readInteger?_of_spanSign (spanSign_digits hne hdigits)).mpr ⟨hne, hdigits, rfl⟩
    | plus hne hdigits => exact (readInteger?_of_spanSign rfl).mpr ⟨hne, hdigits, rfl⟩
    | minus hne hdigits => exact (readInteger?_of_spanSign rfl).mpr ⟨hne, hdigits, rfl⟩

/-- For 32 bits the number has to fit. -/
theorem readInt32?_eq_some_iff :
    readInt32? s = some n ↔ WritesInteger s n ∧ minInt32 ≤ n ∧ n ≤ maxInt32 := by
  rw [readInt32?, Option.filter_eq_some_iff, readInteger?_eq_some_iff, Bool.and_eq_true,
    decide_eq_true_eq, decide_eq_true_eq]

/-- Signs and leading zeros are accepted, but no blanks and no sign alone. -/
example : readInt32? "+007".toList = some 7 ∧ readInt32? "-0".toList = some 0 ∧
    readInt32? " 7".toList = none ∧ readInt32? "-".toList = none ∧
    readInt32? "2147483648".toList = none := by
  decide +kernel

end Decimal

namespace Arguments

variable {args : Arguments} {key : String}

/-- A key has a value that is an integer of 32 bits. -/
def HasInt32 (args : Arguments) (key : String) (n : ℤ) : Prop :=
  ∃ raw, args.text? key = some raw ∧ Decimal.WritesInteger raw.toList n ∧ minInt32 ≤ n ∧
    n ≤ maxInt32

theorem HasInt32.unique {n n' : ℤ} (h : args.HasInt32 key n) (h' : args.HasInt32 key n') :
    n = n' := by
  obtain ⟨raw, hraw, hn⟩ := h
  obtain ⟨raw', hraw', hn'⟩ := h'
  obtain rfl := Option.some.inj (hraw.symm.trans hraw')
  have hread := Decimal.readInt32?_eq_some_iff.mpr hn
  exact Option.some.inj (hread.symm.trans (Decimal.readInt32?_eq_some_iff.mpr hn'))

/-- **An integer is absent, or read, or refused.** -/
theorem int_cases (args : Arguments) (key : String) (default : ℤ) :
    (args.text? key = none ∧ args.int key default = .ok default) ∨
      (∃ n, args.HasInt32 key n ∧ args.int key default = .ok n) ∨
      ∃ raw, args.text? key = some raw ∧ (∀ n, ¬ args.HasInt32 key n) ∧
        args.int key default = .error ⟨.malformedArgument key raw "an integer", none⟩ := by
  rw [int, read]
  cases hraw : args.text? key with
  | none => exact .inl ⟨rfl, rfl⟩
  | some raw =>
    refine .inr ?_
    cases hread : Decimal.readInt32? raw.toList with
    | some n =>
      have hn := Decimal.readInt32?_eq_some_iff.mp hread
      exact .inl ⟨n, ⟨raw, hraw, hn⟩, by simp only [hread]⟩
    | none =>
      refine .inr ⟨raw, rfl, ?_, by simp only [hread]⟩
      rintro n ⟨raw', hraw', hn⟩
      obtain rfl := Option.some.inj (hraw.symm.trans hraw')
      have hsome := Decimal.readInt32?_eq_some_iff.mpr hn
      rw [hread] at hsome
      nomatch hsome

end Arguments
end SpecOverlay
