import SpecOverlay.Toml.Value

/-!
# Codecs

A codec is what a TOML library offers for records of numbers.  A record has a name,
and each of its numbers has a key.

`read?` and `write?` are about whole documents.  The other operations take apart what
has been read: a value is asked for its fields, for a single-precision number or for
one of 32 bits, and `optional?` decides about a value that may be missing.
-/

namespace SpecOverlay
namespace Toml

/-- A number of a record: of single precision, or of 32 bits without a sign.  What is
not a number has its sign beside it, since a `Float32` would lose it. -/
inductive Number where
  | single (negative : Bool) (x : Float32)
  | word (n : UInt32)

/-- Records with their names, and in each the numbers with their keys. -/
abbrev Records := List (String × List (String × Number))

/-- The operations of a TOML library. -/
structure Codec where
  /-- The fields of a document. -/
  read? : String → Option (List (String × Value))
  /-- The text of records. -/
  write? : Records → Option String
  /-- The fields of a record with the given keys. -/
  fields? : List String → Value → Option (List (String × Value))
  /-- A single-precision number. -/
  single? : Value → Option Float32
  /-- A number of 32 bits without a sign. -/
  word? : Value → Option UInt32
  /-- A value that may be missing, given how it is read and its default. -/
  optional? : {α : Type} → (Value → Option α) → α → Option Value → Option α

end Toml
end SpecOverlay
