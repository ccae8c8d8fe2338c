import Mathlib
import SpecOverlay.Toml.Codec

/-!
# The laws of codecs

What a codec has to do for records of numbers (`Codec.Lawful`).  Records that are written are read
back as the same tables, where each single-precision number has become a double-precision one
(`Records.toFields`).  This is asked for plain records only, without keys that need quotes and
without what is not a number.

The other laws are about one value each.  A single-precision number is what is left of a float, or
of an integer, after rounding (`IsSingle`); a number of 32 bits is an integer in their range
(`IsWord`); and a value that is missing stands for its default.
-/

namespace SpecOverlay
namespace Toml

/-! ## Records -/

/-- A key that needs no quotes. -/
structure IsBare (key : List Char) : Prop where
  ne_nil : key ≠ []
  bare : ∀ c ∈ key, isBareChar c

theorem IsBare.of_all {key : List Char} (h : (!key.isEmpty && key.all isBareChar) = true) :
    IsBare key := by
  rw [Bool.and_eq_true, Bool.not_eq_true', List.all_eq_true] at h
  exact ⟨List.isEmpty_eq_false_iff.mp h.1, h.2⟩

namespace Number

/-- A number that is one. -/
def IsNumber : Number → Prop
  | single _ x => x.isNaN ≠ true
  | word _ => True

/-- The value that a number is written as, if it is one. -/
def toValue : Number → Value
  | single _ x => .float (Single.toDouble x)
  | word n => .integer n.toNat

end Number

namespace Records

/-- The fields of a document that holds records. -/
def toFields (r : Records) : List (String × Value) :=
  r.map fun r => (r.1, .table (r.2.map fun f => (f.1, f.2.toValue)))

/-- Records with different names, each with different keys, none of which needs quotes, and with
numbers only. -/
structure IsPlain (r : Records) : Prop where
  names : (r.map Prod.fst).Nodup
  bare_name : ∀ t ∈ r, IsBare t.1.toList
  keys : ∀ t ∈ r, (t.2.map Prod.fst).Nodup
  bare_key : ∀ t ∈ r, ∀ f ∈ t.2, IsBare f.1.toList
  number : ∀ t ∈ r, ∀ f ∈ t.2, f.2.IsNumber

end Records

/-! ## Values -/

/-- The single-precision number that a value stands for. -/
inductive IsSingle : Value → Float32 → Prop
  | float (x : Float) : IsSingle (.float x) (Single.ofDouble x)
  | integer (n : ℤ) : IsSingle (.integer n) (n : Float32)
  | notANumber (negative : Bool) : IsSingle (.notANumber negative) (0 / 0)

/-- The number of 32 bits that a value stands for. -/
inductive IsWord : Value → UInt32 → Prop
  | integer (n : UInt32) : IsWord (.integer n.toNat) n

/-! ## Laws -/

/-- What is expected of a codec. -/
structure Codec.Lawful (c : Codec) : Prop where
  /-- What is written is read back. -/
  read_write : ∀ r : Records, r.IsPlain →
    ∃ text, c.write? r = some text ∧ c.read? text = some r.toFields
  /-- The fields of a record are found in a table. -/
  fields_table : ∀ keys fields, c.fields? keys (.table fields) = some fields
  single_iff : ∀ v x, c.single? v = some x ↔ IsSingle v x
  word_iff : ∀ v n, c.word? v = some n ↔ IsWord v n
  optional_none : ∀ {α : Type} (read? : Value → Option α) (default : α),
    c.optional? read? default none = some default
  optional_some : ∀ {α : Type} (read? : Value → Option α) (default : α) (v : Value),
    c.optional? read? default (some v) = read? v

end Toml
end SpecOverlay
