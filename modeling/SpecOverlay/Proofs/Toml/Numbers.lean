import SpecOverlay.Proofs.Number.Shortest
import SpecOverlay.Toml.Value

/-!
# Numbers in TOML

A numeral that ends where its line ends is read as the decimal that it denotes
(`readNumber?_numeral`), and a whole number without a point as an integer (`readNumber?_whole`).
Dates and times begin with digits, too, and they are tried first; but behind digits they need a
hyphen or a colon (`readDateTime?_eq_none`).

`Spells` is what these texts have in common: read as a value, they leave the line end behind.
-/

namespace SpecOverlay
namespace Toml

open Shortest (IsNumeral)

variable {digits whole fraction rest : List Char} {c d : Char} {n : ℕ} {p : Char → Bool}

/-! ## Digits -/

theorem isDigit_ne {d e : Char} (hd : d.isDigit) (he : e.isDigit = false) : d ≠ e := by
  rintro rfl
  exact Bool.false_ne_true (he.symm.trans hd)

theorem spanMore_cons (hd : d ≠ '_') (s : List Char) : spanMore p (d :: s) =
    if p d then (d :: (spanMore p s).1, (spanMore p s).2) else ([], d :: s) := by
  rw [spanMore]
  rintro c s rfl -
  exact hd rfl

/-- Digits are read up to what is no digit. -/
theorem spanMore_digits (hdigits : ∀ d ∈ digits, d.isDigit) (hc : c.isDigit = false)
    (hne : c ≠ '_') (rest : List Char) :
    spanMore Char.isDigit (digits ++ c :: rest) = (digits, c :: rest) := by
  induction digits with
  | nil => rw [List.nil_append, spanMore_cons hne, if_neg (Bool.eq_false_iff.mp hc)]
  | cons d digits ih =>
    obtain ⟨hd, hdigits⟩ := List.forall_mem_cons.mp hdigits
    rw [List.cons_append, spanMore_cons (isDigit_ne hd (by decide)), ih hdigits, if_pos hd]

theorem readDigits?_digits (hne : digits ≠ []) (hdigits : ∀ d ∈ digits, d.isDigit)
    (hc : c.isDigit = false) (hunderscore : c ≠ '_') (rest : List Char) :
    readDigits? Char.isDigit (digits ++ c :: rest) = some (digits, c :: rest) := by
  cases digits with
  | nil => exact absurd rfl hne
  | cons d digits =>
    obtain ⟨hd, hdigits⟩ := List.forall_mem_cons.mp hdigits
    rw [List.cons_append, readDigits?, if_pos hd, spanMore_digits hdigits hc hunderscore]

/-- Digits before a point, or those of a whole number: the first one is not a zero, unless there is
no other one. -/
structure IsWhole (whole : List Char) : Prop where
  ne_nil : whole ≠ []
  digits : ∀ d ∈ whole, d.isDigit
  leading : whole.head? = some '0' → whole = ['0']

theorem isWhole_of_isNumeral (h : IsNumeral whole fraction) : IsWhole whole :=
  ⟨h.whole_ne_nil, h.whole_digits, h.leading⟩

theorem isWhole_toDigits (n : ℕ) : IsWhole (Nat.toDigits 10 n) where
  ne_nil := Nat.toDigits_ne_nil
  digits := Shortest.isDigit_of_mem_toDigits n
  leading h := by
    rcases Nat.eq_zero_or_pos n with rfl | hn
    · rfl
    · exact absurd h (Shortest.head?_toDigits_ne hn)

theorem readWhole?_whole (h : IsWhole whole) (hc : c.isDigit = false) (hunderscore : c ≠ '_')
    (rest : List Char) : readWhole? (whole ++ c :: rest) = some (whole, c :: rest) := by
  by_cases hzero : whole.head? = some '0'
  · rw [h.leading hzero]
    rfl
  · have hread := readDigits?_digits h.ne_nil h.digits hc hunderscore rest
    obtain ⟨d, digits, rfl⟩ := List.exists_cons_of_ne_nil h.ne_nil
    rw [← hread, readWhole?]
    rintro s ⟨⟩
    exact hzero rfl

/-- A whole number does not begin like one of another base. -/
theorem IsWhole.ne_marker {s : List Char} (h : IsWhole whole) (hd : d ≠ c) :
    whole ++ c :: rest ≠ '0' :: d :: s := by
  intro heq
  have hhead : whole.head? = some '0' := by
    obtain ⟨e, digits, rfl⟩ := List.exists_cons_of_ne_nil h.ne_nil
    rw [(List.cons.inj heq).1]
    rfl
  rw [h.leading hhead] at heq
  exact hd (List.cons.inj (List.cons.inj heq).2).1.symm

/-- The digits of a text count as usual. -/
theorem ofDigits_ten (hdigits : ∀ d ∈ digits, d.isDigit) :
    ofDigits 10 digits = Decimal.ofDigits digits := by
  have hvalue (d : Char) (hd : d.isDigit) : (hexValue? d).getD 0 = d.toNat - '0'.toNat := by
    rw [hexValue?, if_pos hd]
    rfl
  have hfold (start : ℕ) : digits.foldl (fun n c => 10 * n + (hexValue? c).getD 0) start =
      digits.foldl (fun n c => 10 * n + (c.toNat - '0'.toNat)) start := by
    induction digits generalizing start with
    | nil => rfl
    | cons d digits ih =>
      obtain ⟨hd, hdigits⟩ := List.forall_mem_cons.mp hdigits
      rw [List.foldl_cons, List.foldl_cons, hvalue d hd, ih hdigits]
  exact hfold 0

/-- The sign of a numeral is read apart from it. -/
theorem spanSign_whole (h : IsWhole whole) (rest : List Char) :
    Decimal.spanSign (whole ++ rest) = (false, whole ++ rest) := by
  obtain ⟨d, digits, rfl⟩ := List.exists_cons_of_ne_nil h.ne_nil
  have hd := h.digits d List.mem_cons_self
  rw [List.cons_append, Decimal.spanSign]
  · rintro s ⟨⟩
    exact isDigit_ne hd (by decide) rfl
  · rintro s ⟨⟩
    exact isDigit_ne hd (by decide) rfl

/-! ## Dates and times -/

/-- Padded digits are the first ones of a text that begins with digits. -/
theorem readPadded?_digits (hc : c.isDigit = false) {r : ℕ × List Char}
    (h : readPadded? n (digits ++ c :: rest) = some r) :
    n ≤ digits.length ∧ r.2 = digits.drop n ++ c :: rest := by
  rw [readPadded?] at h
  split at h
  case isFalse => nomatch h
  case isTrue hpadded =>
    obtain ⟨-, hall⟩ := hpadded
    obtain rfl := Option.some.inj h
    have hle : n ≤ digits.length := by
      by_contra hlt
      obtain ⟨k, hk⟩ : ∃ k, n - digits.length = k + 1 := ⟨n - digits.length - 1, by omega⟩
      rw [List.take_append, hk, List.take_succ_cons, List.all_append, List.all_cons, hc] at hall
      simp at hall
    exact ⟨hle, List.drop_append_of_le_length hle⟩

theorem readChar?_digits {e : Char} (hdigits : ∀ d ∈ digits, d.isDigit) (he : e.isDigit = false)
    (hc : e ≠ c) (rest : List Char) : readChar? e (digits ++ c :: rest) = none := by
  cases digits with
  | nil => exact if_neg hc
  | cons d digits =>
    exact if_neg (isDigit_ne (hdigits d List.mem_cons_self) he).symm

/-- **Digits do not begin a date or a time** if neither a hyphen nor a colon stands behind them. -/
theorem readDateTime?_eq_none (hdigits : ∀ d ∈ digits, d.isDigit) (hc : c.isDigit = false)
    (hhyphen : digits = [] ∨ c ≠ '-') (hcolon : c ≠ ':') (rest : List Char) :
    readDateTime? (digits ++ c :: rest) = none := by
  have hdrop (n : ℕ) : ∀ d ∈ digits.drop n, d.isDigit := fun d hd =>
    hdigits d (List.mem_of_mem_drop hd)
  have hdate : readDate? (digits ++ c :: rest) = none := by
    rw [readDate?]
    cases hpadded : readPadded? 4 (digits ++ c :: rest) with
    | none => rfl
    | some r =>
      obtain ⟨hle, hr⟩ := readPadded?_digits hc hpadded
      have hne : '-' ≠ c := by
        rcases hhyphen with rfl | hne
        · exact absurd hle (by decide)
        · exact hne.symm
      show readChar? '-' r.2 >>= _ = none
      rw [hr, readChar?_digits (hdrop 4) (by decide) hne]
      rfl
  have htime : readTime? (digits ++ c :: rest) = none := by
    rw [readTime?, readTwo?]
    cases hpadded : readPadded? 2 (digits ++ c :: rest) with
    | none => rfl
    | some r =>
      obtain ⟨-, hr⟩ := readPadded?_digits hc hpadded
      rw [Option.bind_some]
      split
      · show readChar? ':' r.2 >>= _ = none
        rw [hr, readChar?_digits (hdrop 2) (by decide) hcolon.symm]
        rfl
      · rfl
  rw [readDateTime?, hdate, htime]

/-! ## Numbers -/

/-- A text that is read as a value and leaves the end of its line behind.  Its first character is
one that numbers begin with. -/
structure Spells (text : List Char) (v : Value) : Prop where
  first : ∃ d s, text = d :: s ∧ (d.isDigit ∨ d = '-' ∨ d = 'i')
  reads : ∀ rest, readNumber? (text ++ '\n' :: rest) = some (v, '\n' :: rest)

/-- The text of a sign. -/
def signText (negative : Bool) : List Char :=
  if negative then ['-'] else []

/-- The decimal that a numeral denotes. -/
def decimalOf (negative : Bool) (whole fraction : List Char) : Decimal :=
  ⟨negative, Decimal.ofDigits (whole ++ fraction), -fraction.length⟩

theorem readDecimal?_numeral (h : IsNumeral whole fraction) (negative : Bool) (rest : List Char) :
    readDecimal? (signText negative ++ (whole ++ '.' :: (fraction ++ '\n' :: rest))) =
      some (decimalOf negative whole fraction, '\n' :: rest) := by
  have hsign (s : List Char) :
      Decimal.spanSign (signText negative ++ (whole ++ s)) = (negative, whole ++ s) := by
    cases negative with
    | true => rfl
    | false => exact spanSign_whole (isWhole_of_isNumeral h) _
  have hfraction : readFraction? ('.' :: (fraction ++ '\n' :: rest)) =
      some (fraction, '\n' :: rest) :=
    readDigits?_digits h.fraction_ne_nil h.fraction_digits (by decide) (by decide) rest
  have hdigits : ∀ d ∈ whole ++ fraction, d.isDigit := fun d hd =>
    (List.mem_append.mp hd).elim (h.whole_digits d) (h.fraction_digits d)
  simp only [readDecimal?, hsign, readWhole?_whole (isWhole_of_isNumeral h)
    (show '.'.isDigit = false by decide) (show '.' ≠ '_' by decide), Option.bind_some, hfraction,
    ofDigits_ten hdigits]
  rfl

theorem readDateTime?_sign (s : List Char) : readDateTime? ('-' :: s) = none :=
  readDateTime?_eq_none (List.forall_mem_nil _) (by decide) (.inl rfl) (by decide) s

/-- **A numeral is read as the number for its decimal**, if that is not infinite. -/
theorem spells_numeral (h : IsNumeral whole fraction) (negative : Bool)
    (hfinite : ((decimalOf negative whole fraction).toDouble == 1 / 0) = false) :
    Spells (signText negative ++ (whole ++ '.' :: fraction))
      (.float (decimalOf negative whole fraction).toDouble) where
  first := by
    obtain ⟨d, digits, hwhole⟩ := List.exists_cons_of_ne_nil h.whole_ne_nil
    cases negative with
    | true => exact ⟨'-', _, rfl, .inr (.inl rfl)⟩
    | false =>
      refine ⟨d, digits ++ '.' :: fraction, by rw [hwhole]; rfl, .inl (h.whole_digits d ?_)⟩
      rw [hwhole]
      exact List.mem_cons_self
  reads rest := by
    have hdate : readDateTime? (signText negative ++ (whole ++ '.' :: (fraction ++ '\n' :: rest))) =
        none := by
      cases negative with
      | true => exact readDateTime?_sign _
      | false =>
        exact readDateTime?_eq_none h.whole_digits (by decide) (.inr (by decide)) (by decide) _
    rw [List.append_assoc, List.append_assoc, List.cons_append, readNumber?, hdate, readFloat?,
      readDecimal?_numeral h]
    simp only [hfinite]
    rfl

/-- The words for the infinities are read. -/
theorem spells_infinity (negative : Bool) : Spells (signText negative ++ ['i', 'n', 'f'])
    (.float (if negative then -1 / 0 else 1 / 0)) where
  first := by
    cases negative with
    | true => exact ⟨'-', _, rfl, .inr (.inl rfl)⟩
    | false => exact ⟨'i', _, rfl, .inr (.inr rfl)⟩
  reads rest := by
    cases negative with
    | true =>
      have hdate : readDateTime? ('-' :: 'i' :: 'n' :: 'f' :: '\n' :: rest) = none :=
        readDateTime?_sign _
      show readNumber? ('-' :: 'i' :: 'n' :: 'f' :: '\n' :: rest) = _
      rw [readNumber?, hdate]
      rfl
    | false =>
      have hdate : readDateTime? ('i' :: 'n' :: 'f' :: '\n' :: rest) = none :=
        readDateTime?_eq_none (List.forall_mem_nil _) (by decide) (.inl rfl) (by decide) _
      show readNumber? ('i' :: 'n' :: 'f' :: '\n' :: rest) = _
      rw [readNumber?, hdate]
      rfl

theorem readInfinity?_whole (h : IsWhole whole) (rest : List Char) :
    readInfinity? (whole ++ rest) = none := by
  have hsign := spanSign_whole h rest
  obtain ⟨d, digits, rfl⟩ := List.exists_cons_of_ne_nil h.ne_nil
  have hd := h.digits d List.mem_cons_self
  rw [readInfinity?, hsign]
  split
  case h_1 h => exact absurd (List.cons.inj (Prod.mk.inj h).2).1 (isDigit_ne hd (by decide))
  case h_2 => rfl

theorem readNaN?_whole (h : IsWhole whole) (rest : List Char) :
    readNaN? (whole ++ rest) = none := by
  have hsign := spanSign_whole h rest
  obtain ⟨d, digits, rfl⟩ := List.exists_cons_of_ne_nil h.ne_nil
  have hd := h.digits d List.mem_cons_self
  rw [readNaN?, hsign]
  split
  case h_1 h => exact absurd (List.cons.inj (Prod.mk.inj h).2).1 (isDigit_ne hd (by decide))
  case h_2 => rfl

theorem readInteger?_whole (h : IsWhole whole) (hn : Decimal.ofDigits whole < 2 ^ 63)
    (rest : List Char) :
    readInteger? (whole ++ '\n' :: rest) =
      some ((Decimal.ofDigits whole : ℤ), '\n' :: rest) := by
  have hwhole := readWhole?_whole h (show '\n'.isDigit = false by decide) (by decide) rest
  rw [readInteger?, spanSign_whole h]
  · simp only [hwhole, Option.bind_some, ofDigits_ten h.digits]
    rw [fit?, if_neg Bool.false_ne_true, if_pos (by omega), Option.map_some]
  · exact fun s => h.ne_marker (by decide)
  · exact fun s => h.ne_marker (by decide)
  · exact fun s => h.ne_marker (by decide)

/-- **A whole number of 63 binary digits is read as an integer.** -/
theorem spells_integer (hn : n < 2 ^ 63) : Spells (Nat.toDigits 10 n) (.integer n) where
  first := by
    obtain ⟨d, digits, hwhole⟩ := List.exists_cons_of_ne_nil (isWhole_toDigits n).ne_nil
    refine ⟨d, digits, hwhole, .inl ((isWhole_toDigits n).digits d ?_)⟩
    rw [hwhole]
    exact List.mem_cons_self
  reads rest := by
    have h := isWhole_toDigits n
    have hvalue := Shortest.ofDigits_toDigits n
    have hdate : readDateTime? (Nat.toDigits 10 n ++ '\n' :: rest) = none :=
      readDateTime?_eq_none h.digits (by decide) (.inr (by decide)) (by decide) rest
    have hdecimal : readDecimal? (Nat.toDigits 10 n ++ '\n' :: rest) = none := by
      simp only [readDecimal?, spanSign_whole h, Option.bind_some,
        readWhole?_whole h (show '\n'.isDigit = false by decide) (by decide)]
      rfl
    have hinteger := readInteger?_whole h (hvalue.trans_lt hn) rest
    rw [hvalue] at hinteger
    rw [readNumber?, hdate, readFloat?, hdecimal]
    simp only [readInfinity?_whole h, readNaN?_whole h, hinteger, Option.map_some]

end Toml
end SpecOverlay
