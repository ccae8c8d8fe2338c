import SpecOverlay.Dimension
import SpecOverlay.Proofs.Number.Decimals
import SpecOverlay.Proofs.Text.Digits
import SpecOverlay.Proofs.Text.Words

/-!
# Numerals

A dimension begins with a numeral: a minus sign, if any, and digits with an optional point, at least
one of them before or behind the point (`Numeral`).  The number that is read is the one that the
longest numeral at the start of the text denotes.

* `spanNumeral_eq_some_iff`: spanning digits, point and digits finds the longest numeral, and it
  finds one if there is any.
* `readNumber?_eq_some_iff`: the number is the single-precision number nearest to the value of that
  numeral, with the sign that is written, provided that its digits are ASCII digits.

A longer numeral cannot be missed, because a sign and a point are no digits: what stands before the
point of any numeral at the start of the text is the same run of digits.
-/

namespace SpecOverlay
namespace Dimension

open Float.Model.UnpackedFloat (Sign)
open Single (SignedRoundsTo)
open Text (isDecimalDigit)

/-! ## Numerals and their values -/

/-- A numeral in its parts: a sign, the digits before the point, and those behind it if there is a
point.  Digits may be of any script. -/
structure Numeral where
  negative : Bool
  whole : List Char
  fraction : Option (List Char)
  whole_digits : ∀ c ∈ whole, isDecimalDigit c = true
  fraction_digits : ∀ f ∈ fraction, ∀ c ∈ f, isDecimalDigit c = true
  ne_nil : whole ++ fraction.getD [] ≠ []

/-- The number that digits denote in base ten, the first one being worth most. -/
def denoted (digits : List Char) : ℕ :=
  Nat.ofDigits 10 (digits.reverse.map fun c => c.toNat - '0'.toNat)

/-- The point of a numeral and what is behind it. -/
def afterPoint : Option (List Char) → List Char
  | none => []
  | some f => '.' :: f

namespace Numeral

/-- The numeral as it is written, without its sign. -/
def body (n : Numeral) : List Char :=
  n.whole ++ afterPoint n.fraction

/-- The numeral as it is written. -/
def text (n : Numeral) : List Char :=
  (if n.negative then ['-'] else []) ++ n.body

/-- The digits of a numeral. -/
def digits (n : Numeral) : List Char :=
  n.whole ++ n.fraction.getD []

/-- The sign that is written. -/
def sign (n : Numeral) : Sign :=
  if n.negative then .negative else .positive

/-- The decimal number that a numeral denotes. -/
def value (n : Numeral) : ℚ :=
  n.sign.apply 1 *
    (denoted n.whole + denoted (n.fraction.getD []) / 10 ^ (n.fraction.getD []).length)

/-- A text begins with a numeral, and with no longer one. -/
def Longest (n : Numeral) (s : List Char) : Prop :=
  n.text <+: s ∧ ∀ n' : Numeral, n'.text <+: s → n'.text.length ≤ n.text.length

/-- All digits are ASCII digits. -/
def IsAscii (n : Numeral) : Prop :=
  ∀ c ∈ n.digits, c.isDigit = true

end Numeral

variable {n : Numeral} {s t whole : List Char} {fraction : Option (List Char)}

/-! ## Spanning a numeral -/

/-- The sign of a text, and what is behind it. -/
def spanMinus : List Char → Bool × List Char
  | '-' :: s => (true, s)
  | s => (false, s)

/-- The digits that a text begins with, and those behind a point that follows. -/
def spanBody (s : List Char) : List Char × Option (List Char) :=
  (s.takeWhile isDecimalDigit,
    match s.dropWhile isDecimalDigit with
    | '.' :: s => some (s.takeWhile isDecimalDigit)
    | _ => none)

/-- The digits behind the sign of a text. -/
def spanned (s : List Char) : List Char × Option (List Char) :=
  spanBody (spanMinus s).2

/-- What follows the digits is a point and more, or a text without one at its start. -/
theorem spanBody_cases (s : List Char) :
    (∃ t, s.dropWhile isDecimalDigit = '.' :: t ∧
      spanBody s = (s.takeWhile isDecimalDigit, some (t.takeWhile isDecimalDigit))) ∨
    (∀ t, s.dropWhile isDecimalDigit ≠ '.' :: t) ∧
      spanBody s = (s.takeWhile isDecimalDigit, none) := by
  rw [spanBody]
  split
  case h_1 t h => exact .inl ⟨t, h, rfl⟩
  case h_2 h => exact .inr ⟨h, rfl⟩

theorem spanMinus_cases (s : List Char) :
    (∃ t, s = '-' :: t ∧ spanMinus s = (true, t)) ∨
      (∀ t, s ≠ '-' :: t) ∧ spanMinus s = (false, s) := by
  rw [spanMinus.eq_def]
  split
  case h_1 t => exact .inl ⟨t, rfl, rfl⟩
  case h_2 h => exact .inr ⟨h, rfl⟩

/-- A numeral is found if there is a digit among what is spanned. -/
theorem spanNumeral_eq (s : List Char) :
    spanNumeral s = if (spanned s).1 ++ (spanned s).2.getD [] = [] then none
      else some ((spanMinus s).1, (spanned s).1, (spanned s).2.getD []) := by
  rw [spanned]
  rcases spanMinus_cases s with ⟨t, rfl, hminus⟩ | ⟨hno, hminus⟩
  · rw [hminus, spanNumeral]
    rcases spanBody_cases t with ⟨r, hdrop, hspan⟩ | ⟨hdrop, hspan⟩
    · simp [hspan, hdrop]
    · simp [hspan]
  · rw [hminus, spanNumeral.eq_2 s hno]
    rcases spanBody_cases s with ⟨r, hdrop, hspan⟩ | ⟨hdrop, hspan⟩
    · simp [hspan, hdrop]
    · simp [hspan]

theorem isDecimalDigit_point : isDecimalDigit '.' = false := by decide +kernel

theorem isDecimalDigit_minus : isDecimalDigit '-' = false := by decide +kernel

theorem prefix_takeWhile {p : Char → Bool} (hs : ∀ c ∈ s, p c = true) (h : s <+: t) :
    s <+: t.takeWhile p := by
  obtain ⟨r, rfl⟩ := h
  rw [List.takeWhile_append_of_pos hs]
  exact List.prefix_append _ _

/-! ## The longest numeral -/

theorem spanBody_append_afterPoint (s : List Char) :
    (spanBody s).1 ++ afterPoint (spanBody s).2 <+: s := by
  conv_rhs => rw [← List.takeWhile_append_dropWhile (p := isDecimalDigit) (l := s)]
  rcases spanBody_cases s with ⟨t, hdrop, hspan⟩ | ⟨-, hspan⟩
  · rw [hspan, hdrop]
    refine (List.prefix_append_right_inj _).mpr ((List.prefix_cons_inj _).mpr ?_)
    exact List.takeWhile_prefix _
  · rw [hspan, afterPoint, List.append_nil]
    exact List.prefix_append _ _

/-- The digits before a point are all that is spanned before it. -/
theorem spanBody_point (hwhole : ∀ c ∈ whole, isDecimalDigit c = true) (t : List Char) :
    spanBody (whole ++ '.' :: t) = (whole, some (t.takeWhile isDecimalDigit)) := by
  rw [spanBody, Text.takeWhile_append_cons hwhole isDecimalDigit_point,
    Text.dropWhile_append_cons hwhole isDecimalDigit_point]
  rfl

/-- **Whatever numeral a text begins with, it is no longer** than the digits, the point and the
digits that are spanned. -/
theorem length_le_spanBody (hwhole : ∀ c ∈ whole, isDecimalDigit c = true)
    (hfraction : ∀ f ∈ fraction, ∀ c ∈ f, isDecimalDigit c = true)
    (h : whole ++ afterPoint fraction <+: s) :
    (whole ++ afterPoint fraction).length ≤
        ((spanBody s).1 ++ afterPoint (spanBody s).2).length ∧
      (whole ++ fraction.getD [] ≠ [] → (spanBody s).1 ++ (spanBody s).2.getD [] ≠ []) := by
  cases fraction with
  | none =>
    rw [afterPoint, List.append_nil] at h ⊢
    have hstart := prefix_takeWhile hwhole h
    have hfirst : (spanBody s).1 = s.takeWhile isDecimalDigit := rfl
    rw [hfirst, List.length_append]
    refine ⟨Nat.le_add_right_of_le hstart.length_le, fun hne hnil => hne ?_⟩
    rw [(List.append_eq_nil_iff.mp hnil).1, List.prefix_nil] at hstart
    rw [hstart]
    rfl
  | some f =>
    obtain ⟨r, rfl⟩ := h
    rw [afterPoint, List.append_assoc, List.cons_append, spanBody_point hwhole]
    have hstart := prefix_takeWhile (hfraction f rfl) (List.prefix_append f r)
    refine ⟨?_, fun hne hnil => hne ?_⟩
    · have hle := hstart.length_le
      simp only [afterPoint, List.length_append, List.length_cons]
      omega
    · obtain ⟨rfl, hnil⟩ := List.append_eq_nil_iff.mp hnil
      rw [Option.getD_some] at hnil
      rw [hnil, List.prefix_nil] at hstart
      rw [hstart]
      rfl

theorem mem_of_mem_spanBody :
    (∀ c ∈ (spanBody s).1, isDecimalDigit c = true) ∧
      ∀ f ∈ (spanBody s).2, ∀ c ∈ f, isDecimalDigit c = true := by
  have hall (t : List Char) : ∀ c ∈ t.takeWhile isDecimalDigit, isDecimalDigit c = true :=
    fun _ hc => List.mem_takeWhile_imp hc
  rcases spanBody_cases s with ⟨t, -, hspan⟩ | ⟨-, hspan⟩
  · rw [hspan]
    refine ⟨hall s, ?_⟩
    rintro f hf
    obtain rfl := Option.some.inj hf
    exact hall t
  · rw [hspan]
    exact ⟨hall s, nofun⟩

namespace Numeral

/-- A numeral does not begin with a minus sign behind its own. -/
theorem exists_body (n : Numeral) : ∃ c r, n.body = c :: r ∧ c ≠ '-' := by
  rw [body]
  cases hwhole : n.whole with
  | cons c r =>
    refine ⟨c, r ++ afterPoint n.fraction, rfl, ?_⟩
    rintro rfl
    have hdigit := n.whole_digits '-' (hwhole ▸ List.mem_cons_self)
    rw [isDecimalDigit_minus] at hdigit
    exact Bool.false_ne_true hdigit
  | nil =>
    cases hfraction : n.fraction with
    | some f => exact ⟨'.', f, rfl, by decide⟩
    | none =>
      have hne := n.ne_nil
      rw [hwhole, hfraction] at hne
      exact absurd rfl hne

theorem spanMinus_text_append (n : Numeral) (r : List Char) :
    spanMinus (n.text ++ r) = (n.negative, n.body ++ r) := by
  rw [text]
  cases n.negative with
  | true => rfl
  | false =>
    obtain ⟨c, b, hbody, hc⟩ := n.exists_body
    rcases spanMinus_cases (n.body ++ r) with ⟨t, ht, -⟩ | ⟨-, hminus⟩
    · rw [hbody] at ht
      exact absurd (List.cons.inj ht).1 hc
    · exact hminus

/-- What spanning finds: the sign, and the digits on both sides of the point. -/
def parts (n : Numeral) : Bool × List Char × List Char :=
  (n.negative, n.whole, n.fraction.getD [])

theorem spanNumeral_text (n : Numeral) : spanNumeral n.text = some n.parts := by
  have hminus := n.spanMinus_text_append []
  have hbody : spanBody n.body = (n.whole, n.fraction) := by
    rw [body]
    cases hfraction : n.fraction with
    | none =>
      have hwhole := n.whole_digits
      rw [afterPoint, List.append_nil, spanBody, List.takeWhile_eq_self_iff.mpr hwhole,
        List.dropWhile_eq_nil_iff.mpr hwhole]
    | some f =>
      have hdigits := n.fraction_digits f hfraction
      rw [afterPoint, spanBody_point n.whole_digits, List.takeWhile_eq_self_iff.mpr hdigits]
  rw [List.append_nil, List.append_nil] at hminus
  rw [spanNumeral_eq, spanned, hminus, hbody, if_neg n.ne_nil, parts]

/-- A text begins with one longest numeral only. -/
theorem Longest.parts_eq {n n' : Numeral} (h : n.Longest s) (h' : n'.Longest s) :
    n.parts = n'.parts := by
  have hlength : n.text.length = n'.text.length := le_antisymm (h'.2 n h.1) (h.2 n' h'.1)
  have htext : n.text = n'.text :=
    (List.prefix_of_prefix_length_le h.1 h'.1 hlength.le).eq_of_length hlength
  have hspan := n.spanNumeral_text
  rw [htext, n'.spanNumeral_text] at hspan
  exact (Option.some.inj hspan).symm

end Numeral

theorem minus_append (s : List Char) :
    (if (spanMinus s).1 then ['-'] else []) ++ (spanMinus s).2 = s := by
  rcases spanMinus_cases s with ⟨t, rfl, hminus⟩ | ⟨-, hminus⟩
  · rw [hminus]
    rfl
  · rw [hminus]
    rfl

/-- Every numeral that a text begins with is part of what is spanned. -/
theorem Numeral.length_le (h : n.text <+: s) :
    n.text.length ≤ ((if (spanMinus s).1 then ['-'] else []) ++
        ((spanned s).1 ++ afterPoint (spanned s).2)).length ∧
      (spanned s).1 ++ (spanned s).2.getD [] ≠ [] := by
  obtain ⟨r, rfl⟩ := h
  obtain ⟨hle, hne⟩ := length_le_spanBody n.whole_digits n.fraction_digits
    (List.prefix_append n.body r)
  rw [spanned, n.spanMinus_text_append, text, List.length_append, List.length_append]
  exact ⟨Nat.add_le_add_left hle _, hne n.ne_nil⟩

/-- What is spanned is itself a numeral if there is a digit in it, and so the longest one. -/
theorem exists_longest (hne : (spanned s).1 ++ (spanned s).2.getD [] ≠ []) :
    ∃ n : Numeral, n.Longest s ∧ spanNumeral s = some n.parts := by
  obtain ⟨hwhole, hfraction⟩ := mem_of_mem_spanBody (s := (spanMinus s).2)
  refine ⟨⟨(spanMinus s).1, (spanned s).1, (spanned s).2, hwhole, hfraction, hne⟩,
    ⟨?_, fun n hn => (Numeral.length_le hn).1⟩, ?_⟩
  · have hstart := (List.prefix_append_right_inj (if (spanMinus s).1 then ['-'] else [])).mpr
      (spanBody_append_afterPoint (spanMinus s).2)
    rwa [minus_append] at hstart
  · rw [spanNumeral_eq, if_neg hne]
    rfl

/-- **Spanning finds the longest numeral** that a text begins with. -/
theorem spanNumeral_eq_some_iff {r : Bool × List Char × List Char} :
    spanNumeral s = some r ↔ ∃ n : Numeral, n.Longest s ∧ n.parts = r := by
  constructor
  · intro h
    have hne : (spanned s).1 ++ (spanned s).2.getD [] ≠ [] := by
      intro hnil
      rw [spanNumeral_eq, if_pos hnil] at h
      nomatch h
    obtain ⟨n, hn, hspan⟩ := exists_longest hne
    exact ⟨n, hn, Option.some.inj (hspan.symm.trans h)⟩
  · rintro ⟨n, hn, rfl⟩
    obtain ⟨n', hn', hspan⟩ := exists_longest (Numeral.length_le hn.1).2
    rw [hspan, hn.parts_eq hn']

/-- A numeral with digits behind its point is known by its parts. -/
theorem Numeral.longest_of_parts (hfraction : n.fraction.getD [] ≠ [])
    (h : spanNumeral s = some n.parts) : n.Longest s := by
  obtain ⟨n', hn', hparts⟩ := spanNumeral_eq_some_iff.mp h
  obtain ⟨hnegative, hwhole, hdigits⟩ : n'.negative = n.negative ∧ n'.whole = n.whole ∧
      n'.fraction.getD [] = n.fraction.getD [] := by
    simpa [parts] using hparts
  have hpoint (m : Numeral) (hm : m.fraction.getD [] ≠ []) :
      m.fraction = some (m.fraction.getD []) := by
    cases hf : m.fraction with
    | none =>
      rw [hf] at hm
      exact absurd rfl hm
    | some f => rfl
  have htext : n'.text = n.text := by
    rw [text, text, body, body, hpoint n' (hdigits ▸ hfraction), hpoint n hfraction, hnegative,
      hwhole, hdigits]
  rw [Longest, ← htext]
  exact hn'

/-- A point may end a numeral or begin it, but there is no numeral without digits and none with a
plus sign. -/
example :
    spanNumeral "5.dp".toList = some (false, ['5'], []) ∧
      spanNumeral "-.5dp".toList = some (true, [], ['5']) ∧
      spanNumeral ".".toList = none ∧ spanNumeral "+5".toList = none := by
  decide +kernel

/-! ## The number -/

theorem ofDigits_eq (digits : List Char) : Decimal.ofDigits digits = denoted digits := by
  rw [denoted, List.map_reverse, ← Text.foldl_eq_ofDigits, List.foldl_map]
  rfl

theorem denoted_append (digits digits' : List Char) :
    denoted (digits ++ digits') = denoted digits * 10 ^ digits'.length + denoted digits' := by
  simp only [denoted, List.map_reverse, List.map_append, Text.ofDigits_reverse_append,
    List.length_map]

namespace Numeral

/-- A numeral as a whole number and a power of ten. -/
def decimal (n : Numeral) : Decimal :=
  ⟨n.negative, Decimal.ofDigits n.digits, -(n.fraction.getD []).length⟩

theorem value_decimal (n : Numeral) : n.decimal.value = n.value := by
  have hsign : n.decimal.sign = n.sign := rfl
  have hcoefficient : n.decimal.coefficient = denoted n.digits := ofDigits_eq _
  have hexponent : n.decimal.exponent = -((n.fraction.getD []).length : ℤ) := rfl
  rw [Decimal.value, value, Single.apply_eq_mul, hsign, hcoefficient, hexponent, digits,
    denoted_append, zpow_neg, zpow_natCast]
  push_cast
  field_simp

theorem signedRoundsTo_decimal (n : Numeral) : SignedRoundsTo n.decimal.toSingle n.sign n.value :=
  n.value_decimal ▸ Decimal.signedRoundsTo_toSingle n.decimal

end Numeral

/-- **The number that is read is nearest to the decimal number that the longest numeral denotes**,
and it has the sign that is written. -/
theorem readNumber?_eq_some_iff {x : Float32} :
    readNumber? s = some x ↔
      ∃ n : Numeral, n.Longest s ∧ n.IsAscii ∧ SignedRoundsTo x n.sign n.value := by
  have hparts (n : Numeral) (hn : n.Longest s) : readNumber? s =
      if n.digits.all Char.isDigit then some n.decimal.toSingle else none := by
    rw [readNumber?, spanNumeral_eq_some_iff.mpr ⟨n, hn, rfl⟩]
    rfl
  constructor
  · intro h
    cases hspan : spanNumeral s with
    | none =>
      rw [readNumber?, hspan] at h
      nomatch h
    | some r =>
      obtain ⟨n, hn, -⟩ := spanNumeral_eq_some_iff.mp hspan
      rw [hparts n hn] at h
      split at h
      case isTrue hascii =>
        obtain rfl := Option.some.inj h
        exact ⟨n, hn, List.all_eq_true.mp hascii, n.signedRoundsTo_decimal⟩
      case isFalse => nomatch h
  · rintro ⟨n, hn, hascii, hx⟩
    rw [hparts n hn, if_pos (List.all_eq_true.mpr hascii), hx.unique n.signedRoundsTo_decimal]

end Dimension
end SpecOverlay
