import SpecOverlay.Number.Shortest
import SpecOverlay.Toml.Codec
import SpecOverlay.Toml.Document

/-!
# The plain codec

The codec that the program uses.  Records are written as tables, one key to a line and
a blank line between two tables.  A single-precision number is written in double
precision, with all the digits it needs and never with an exponent.

A record is read from a table by the names of its keys, or from an array by their
order.
-/

namespace SpecOverlay
namespace Toml

/-! ## Reading -/

/-- The fields of a record with the given keys.  A table has them by name and an
array by position; a date has none. -/
def Value.fields? (keys : List String) : Value → Option (List (String × Value))
  | table fields => some fields
  | array items => some (keys.zip items)
  | dateTime => some []
  | _ => none

/-- A single-precision number: a float, or an integer. -/
def Value.single? : Value → Option Float32
  | float x => some (Single.ofDouble x)
  | notANumber _ => some (0 / 0)
  | integer n => some (n : Float32)
  | _ => none

/-- A number of 32 bits without a sign: an integer in their range. -/
def Value.word? : Value → Option UInt32
  | integer n => if 0 ≤ n ∧ n < 4294967296 then some (UInt32.ofNat n.toNat) else none
  | _ => none

/-- A value that may be missing. -/
def optional? {α : Type} (read? : Value → Option α) (default : α) : Option Value → Option α
  | none => some default
  | some v => read? v

/-! ## Writing -/

/-- A number as it is written. -/
def Number.text : Number → String
  | single negative x =>
    if x.isNaN && negative then "-nan" else Shortest.positionalOfDouble (Single.toDouble x)
  | word n => toString n.toNat

/-- A line that gives a key its value. -/
def assignment (key value : String) : String :=
  key ++ " = " ++ value ++ "\n"

/-- The table of a record. -/
def tableText (name : String) (numbers : List (String × Number)) : String :=
  "[" ++ name ++ "]\n" ++ String.join (numbers.map fun f => assignment f.1 f.2.text)

/-- The tables of records. -/
def write : Records → String
  | [] => ""
  | r :: records =>
    tableText r.1 r.2 ++ String.join (records.map fun r => "\n" ++ tableText r.1 r.2)

/-- The codec that reads and writes in this way. -/
def plain : Codec where
  read? := read?
  write? := fun records => some (write records)
  fields? := Value.fields?
  single? := Value.single?
  word? := Value.word?
  optional? := optional?

end Toml
end SpecOverlay
