import SpecOverlay.Toml.Number

/-!
# The values of TOML

A value is a string, a number, a truth value, a date, an array or a table.  Arrays
may run over several lines and end in a comma; an inline table stays on its line
and may not.

Inside an inline table a key with points makes the tables it misses and adds to
those it meets, also to an inline table that an earlier entry has given.
`insertPath?` refuses a key that is there already and a path through anything but a
table.
-/

namespace SpecOverlay
namespace Toml

/-- A value.  What is not a number keeps its sign here, since a `Float` would lose
it. -/
inductive Value where
  | string (s : String)
  | integer (n : Int)
  | float (x : Float)
  | notANumber (negative : Bool)
  | boolean (b : Bool)
  | dateTime
  | array (items : List Value)
  | table (fields : List (String × Value))

/-! ## Inline tables -/

/-- Fields with the value of a key replaced. -/
def replaceField {β : Type} (key : String) (value : β) (fields : List (String × β)) :
    List (String × β) :=
  fields.map fun f => if f.1 = key then (key, value) else f

/-- Fields with a value put at the end of a path. -/
def insertPath? (value : Value) : List String → List (String × Value) →
    Option (List (String × Value))
  | [], _ => none
  | [key], fields =>
    match fields.lookup key with
    | none => some (fields ++ [(key, value)])
    | some _ => none
  | key :: path, fields =>
    match fields.lookup key with
    | none => (insertPath? value path []).map fun inner => fields ++ [(key, .table inner)]
    | some (.table inner) =>
      (insertPath? value path inner).map fun inner => replaceField key (.table inner) fields
    | some _ => none

/-! ## Reading -/

/-- A word and what it stands for. -/
def readWord? (word : List Char) (value : Value) (s : List Char) : Option (Value × List Char) :=
  if word.isPrefixOf s then some (value, s.drop word.length) else none

/-- A number or a date. -/
def readNumber? (s : List Char) : Option (Value × List Char) :=
  match readDateTime? s with
  | some rest => some (.dateTime, rest)
  | none =>
    match readFloat? s, readNaN? s with
    | some (x, rest), _ => some (.float x, rest)
    | none, some (negative, rest) => some (.notANumber negative, rest)
    | none, none => (readInteger? s).map fun r => (.integer r.1, r.2)

mutual

/-- A value.  The first number bounds the length of what is read, the second says how
many arrays and inline tables may stand inside one another. -/
def readValue? : Nat → Nat → List Char → Option (Value × List Char)
  | 0, _, _ => none
  | _, _, [] => none
  | n + 1, depth, c :: s =>
    match c, depth with
    | '"', _ => (readString? (c :: s)).map fun r => (.string (String.ofList r.1), r.2)
    | '\'', _ => (readString? (c :: s)).map fun r => (.string (String.ofList r.1), r.2)
    | '[', 0 => none
    | '[', depth + 1 => (readItems? n depth (skipLines n s)).map fun r => (.array r.1, r.2)
    | '{', 0 => none
    | '{', depth + 1 =>
      match skipSpace s with
      | '}' :: s => some (.table [], s)
      | s => (readFields? n depth [] s).map fun r => (.table r.1, r.2)
    | 't', _ => readWord? "true".toList (.boolean true) (c :: s)
    | 'f', _ => readWord? "false".toList (.boolean false) (c :: s)
    | _, _ => readNumber? (c :: s)

/-- The rest of an array after its bracket or a comma. -/
def readItems? : Nat → Nat → List Char → Option (List Value × List Char)
  | 0, _, _ => none
  | _, _, ']' :: s => some ([], s)
  | n + 1, depth, s =>
    match readValue? n depth s with
    | none => none
    | some (item, s) =>
      match skipLines n s with
      | ',' :: s => (readItems? n depth (skipLines n s)).map fun r => (item :: r.1, r.2)
      | ']' :: s => some ([item], s)
      | _ => none

/-- The rest of an inline table after its brace or a comma, given the fields so
far. -/
def readFields? : Nat → Nat → List (String × Value) → List Char →
    Option (List (String × Value) × List Char)
  | 0, _, _, _ => none
  | n + 1, depth, fields, s =>
    match readKey? s with
    | some (path, '=' :: s) =>
      match readValue? n depth (skipSpace s) with
      | none => none
      | some (value, s) =>
        match insertPath? value path fields, skipSpace s with
        | some fields, ',' :: s => readFields? n depth fields s
        | some fields, '}' :: s => some (fields, s)
        | _, _ => none
    | _ => none

end

end Toml
end SpecOverlay
