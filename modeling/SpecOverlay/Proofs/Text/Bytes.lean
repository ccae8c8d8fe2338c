import Mathlib.Data.String.Basic
import Mathlib.Tactic.SplitIfs

/-!
# The order of the bytes

Texts are compared by code points, and that is the order of their UTF-8 bytes too
(`bytes_lt_iff`).

UTF-8 was made for this.  A character is a *leading* byte, which says how many bytes
follow, and then its bits by sixes, the highest ones first (`utf8EncodeChar_eq`).  Of two
code points the larger one has the larger leading byte, or the same one and then as many
bytes behind it, and larger bits among these (`leading_lt_or`).  So the bytes of two
characters already differ where both still have bytes, and what follows the characters
does not matter (`utf8EncodeChar_append_lt`).
-/

namespace SpecOverlay
namespace Text

/-- The UTF-8 bytes of a text. -/
def bytes (s : String) : List UInt8 :=
  s.toUTF8.data.toList

theorem bytes_eq_flatMap (s : String) : bytes s = s.toList.flatMap String.utf8EncodeChar := by
  rw [bytes, String.toUTF8_eq_toByteArray]
  conv => lhs; rw [← String.ofList_toList (s := s)]
  rw [String.toByteArray_ofList, List.utf8Encode, List.toList_data_toByteArray]

/-! ## The bytes of a character -/

/-- The first byte of a code point. -/
def leading (v : Nat) : Nat :=
  if v < 0x80 then v
  else if v < 0x800 then 0xC0 + v / 64
  else if v < 0x10000 then 0xE0 + v / 64 ^ 2
  else 0xF0 + v / 64 ^ 3

/-- The number of bytes behind the first byte of a code point. -/
def trailing (v : Nat) : Nat :=
  if v < 0x80 then 0 else if v < 0x800 then 1 else if v < 0x10000 then 2 else 3

/-- The last bytes of a code point, six bits to a byte. -/
def continuation : Nat → Nat → List UInt8
  | 0, _ => []
  | n + 1, v => UInt8.ofNat (0x80 + v / 64 ^ n % 64) :: continuation n v

theorem toNat_lt (c : Char) : c.toNat < 0x110000 := by
  rcases c.valid with h | ⟨-, h⟩
  · exact Nat.lt_trans h (by decide)
  · exact h

theorem leading_lt {v : Nat} (h : v < 0x110000) : leading v < 256 := by
  unfold leading
  split_ifs <;> omega

theorem utf8EncodeChar_eq (c : Char) :
    String.utf8EncodeChar c =
      UInt8.ofNat (leading c.toNat) :: continuation (trailing c.toNat) c.toNat := by
  have hc := toNat_lt c
  have hval : c.val.toNat = c.toNat := rfl
  rw [String.utf8EncodeChar, leading, trailing, hval]
  generalize c.toNat = v at hc
  -- one case for each number of bytes; the tests are written with ≤ on one side
  split_ifs <;> try omega
  · rfl
  · simp only [continuation, List.cons.injEq, and_true]
    constructor <;> congr 1 <;> omega
  · simp only [continuation, List.cons.injEq, and_true]
    refine ⟨?_, ?_, ?_⟩ <;> congr 1 <;> omega
  · simp only [continuation, List.cons.injEq, and_true]
    refine ⟨?_, ?_, ?_, ?_⟩ <;> congr 1 <;> omega

/-! ## The bytes of two characters -/

theorem cons_lt_cons {a b : Nat} {x y : List UInt8} (hb : b < 256)
    (h : a < b ∨ a = b ∧ x < y) : UInt8.ofNat a :: x < UInt8.ofNat b :: y := by
  refine List.cons_lt_cons_iff.mpr (h.imp (fun hlt => ?_) fun ⟨heq, hxy⟩ => ⟨by rw [heq], hxy⟩)
  rw [UInt8.lt_iff_toNat_lt, UInt8.toNat_ofNat', UInt8.toNat_ofNat']
  omega

/-- The last bytes are ordered as the bits they hold, whatever follows. -/
theorem continuation_append_lt {n v w : Nat} (h : v % 64 ^ n < w % 64 ^ n) (x y : List UInt8) :
    continuation n v ++ x < continuation n w ++ y := by
  induction n with
  | zero => omega
  | succ n ih =>
    rw [Nat.mod_pow_succ, Nat.mod_pow_succ] at h
    have hpow : 0 < 64 ^ n := Nat.pow_pos (by decide)
    have hv := Nat.mod_lt v hpow
    have hw := Nat.mod_lt w hpow
    refine cons_lt_cons (by omega) ?_
    rcases Nat.lt_trichotomy (v / 64 ^ n % 64) (w / 64 ^ n % 64) with hlt | heq | hgt
    · exact .inl (by omega)
    · rw [heq] at h
      exact .inr ⟨by rw [heq], ih (by omega)⟩
    · -- larger high bits outweigh all the low ones
      have hstep := Nat.mul_le_mul_left (64 ^ n) hgt
      rw [Nat.mul_succ] at hstep
      omega

theorem leading_lt_or {v w : Nat} (h : v < w) (hw : w < 0x110000) :
    leading v < leading w ∨ leading v = leading w ∧ trailing v = trailing w ∧
      v % 64 ^ trailing v < w % 64 ^ trailing w := by
  unfold leading trailing
  split_ifs <;> omega

/-- **A smaller character has smaller bytes, whatever follows.** -/
theorem utf8EncodeChar_append_lt {c d : Char} (h : c < d) (x y : List UInt8) :
    String.utf8EncodeChar c ++ x < String.utf8EncodeChar d ++ y := by
  have hlt : c.toNat < d.toNat := h
  rw [utf8EncodeChar_eq, utf8EncodeChar_eq]
  refine cons_lt_cons (leading_lt (toNat_lt d)) ?_
  rcases leading_lt_or hlt (toNat_lt d) with hlead | ⟨hlead, htrail, hrest⟩
  · exact .inl hlead
  · rw [htrail] at hrest ⊢
    exact .inr ⟨hlead, continuation_append_lt hrest x y⟩

/-! ## The bytes of two texts -/

theorem flatMap_utf8EncodeChar_lt {s t : List Char} (h : s < t) :
    s.flatMap String.utf8EncodeChar < t.flatMap String.utf8EncodeChar := by
  induction h with
  | nil =>
    rw [List.flatMap_cons, utf8EncodeChar_eq]
    exact List.nil_lt_cons _ _
  | rel hlt => exact utf8EncodeChar_append_lt hlt _ _
  | cons _ ih => exact List.append_left_lt ih

/-- **Texts are ordered as their bytes are.** -/
theorem bytes_lt_iff {s t : String} : bytes s < bytes t ↔ s < t := by
  have hmono : ∀ {s t : String}, s < t → bytes s < bytes t := fun h => by
    rw [bytes_eq_flatMap, bytes_eq_flatMap]
    exact flatMap_utf8EncodeChar_lt h
  refine ⟨fun h => ?_, hmono⟩
  rcases Std.lt_trichotomy s t with hlt | rfl | hgt
  · exact hlt
  · exact absurd h (List.lt_irrefl _)
  · exact absurd h (List.lt_asymm (hmono hgt))

end Text
end SpecOverlay
