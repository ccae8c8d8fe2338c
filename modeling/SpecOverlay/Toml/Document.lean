import SpecOverlay.Toml.Value

/-!
# TOML documents

A document is a sequence of statements: assignments `key = value`, headers
`[key]`, which say what table the following assignments fill, and headers
`[[key]]`, which add a table to an array of tables.

A table can be met in four ways, and the way decides what may happen to it later:

* an *implied* table was made on the way to the end of a header's path; headers of
  its own may fill it any number of times, and keys with points may lead through it;
* a table made by its *header* may not be defined again, neither by a header nor by a
  key with points;
* an *opened* table was made by a key with points; only such keys may add values to
  it, while the path of a header may lead through it;
* a value is finished.
-/

namespace SpecOverlay
namespace Toml

/-! ## Statements -/

/-- One statement of a document. -/
inductive Statement where
  | header (path : List String)
  | arrayHeader (path : List String)
  | assignment (path : List String) (value : Value)

/-- A header after its opening brackets, up to its closing ones. -/
def readHeader? (closing : List Char) (s : List Char) : Option (List String × List Char) :=
  match readKey? s with
  | some (path, s) => if closing.isPrefixOf s then some (path, s.drop closing.length) else none
  | none => none

/-- The statement that a text begins with, and the rest.  The number bounds the
length of a value. -/
def readStatement? (bound : Nat) : List Char → Option (Statement × List Char)
  | '[' :: '[' :: s => (readHeader? "]]".toList s).map fun r => (.arrayHeader r.1, r.2)
  | '[' :: s => (readHeader? "]".toList s).map fun r => (.header r.1, r.2)
  | s =>
    match readKey? s with
    | some (path, '=' :: s) =>
      (readValue? bound nestingLimit (skipSpace s)).map fun r => (.assignment path r.1, r.2)
    | _ => none

/-- The statements of a text, each on lines of its own.  The second number bounds
them, the first the length of each. -/
def readStatements? (bound : Nat) : Nat → List Char → Option (List Statement)
  | 0, _ => none
  | n + 1, s =>
    match skipLines bound s with
    | [] => some []
    | s =>
      match readStatement? bound s with
      | none => none
      | some (statement, s) =>
        match readLineEnd? s with
        | none => none
        | some s => (readStatements? bound n s).map (statement :: ·)

/-! ## Tables under construction -/

/-- How a table came about. -/
inductive Origin where
  | implied
  | header
  | opened
  deriving DecidableEq

/-- What a key holds while the document is being read. -/
inductive Entry where
  | value (v : Value)
  | table (origin : Origin) (fields : List (String × Entry))
  | tables (last : List (String × Entry)) (earlier : List (List (String × Entry)))

/-- Goes down a path and changes the fields at its end.  A table that is missing on
the way is made with the given origin.  A path leads into the last table of an
array of tables, never into a value, and `opened` paths not into a table with a
header. -/
def descend? (origin : Origin)
    (change : Origin → List (String × Entry) → Option (List (String × Entry))) :
    List String → Origin → List (String × Entry) → Option (List (String × Entry))
  | [], here, fields => change here fields
  | key :: path, _, fields =>
    match fields.lookup key with
    | none =>
      (descend? origin change path origin []).map fun inner =>
        fields ++ [(key, .table origin inner)]
    | some (.table there inner) =>
      if origin = .opened ∧ there = .header then none
      else
        (descend? origin change path there inner).map fun inner =>
          replaceField key (.table there inner) fields
    | some (.tables last earlier) =>
      (descend? origin change path .header last).map fun last =>
        replaceField key (.tables last earlier) fields
    | some (.value _) => none

/-- Defines a table by its header.  An implied table stays as it is, so that another
header may come back to it. -/
def define? (key : String) (_ : Origin) (fields : List (String × Entry)) :
    Option (List (String × Entry)) :=
  match fields.lookup key with
  | none => some (fields ++ [(key, .table .header [])])
  | some (.table .implied _) => some fields
  | some _ => none

/-- Adds a table to an array of tables. -/
def extend? (key : String) (_ : Origin) (fields : List (String × Entry)) :
    Option (List (String × Entry)) :=
  match fields.lookup key with
  | none => some (fields ++ [(key, .tables [] [])])
  | some (.tables last earlier) => some (replaceField key (.tables [] (last :: earlier)) fields)
  | some _ => none

/-- Gives a key its value, in the table of the statement itself or in one that a
key with points has opened. -/
def assign? (atTop : Bool) (key : String) (value : Value) (here : Origin)
    (fields : List (String × Entry)) : Option (List (String × Entry)) :=
  if atTop || here = .opened then
    match fields.lookup key with
    | none => some (fields ++ [(key, .value value)])
    | some _ => none
  else none

/-- Changes the fields at the end of a path, where the last part of the path is the
key to be changed. -/
def atKey? (origin : Origin) (path : List String) (here : Origin)
    (change : String → Origin → List (String × Entry) → Option (List (String × Entry)))
    (fields : List (String × Entry)) : Option (List (String × Entry)) :=
  match path.getLast? with
  | none => none
  | some key => descend? origin (change key) path.dropLast here fields

/-- Carries out statements.  The path is that of the table that assignments
fill. -/
def build? (current : List String) (fields : List (String × Entry)) :
    List Statement → Option (List (String × Entry))
  | [] => some fields
  | .header path :: statements =>
    (atKey? .implied path .header define? fields).bind fun fields => build? path fields statements
  | .arrayHeader path :: statements =>
    (atKey? .implied path .header extend? fields).bind fun fields => build? path fields statements
  | .assignment path value :: statements =>
    (descend? .implied
      (fun _ inner =>
        atKey? .opened path .header (fun key => assign? (path.length == 1) key value) inner)
      current .header fields).bind fun fields => build? current fields statements

/-! ## The finished document -/

mutual

/-- The value of an entry. -/
def Entry.toValue : Entry → Value
  | .value v => v
  | .table _ fields => .table (Entry.toFields fields)
  | .tables last earlier => .array (Entry.toTables earlier [.table (Entry.toFields last)])

/-- The values of fields. -/
def Entry.toFields : List (String × Entry) → List (String × Value)
  | [] => []
  | (key, entry) :: fields => (key, Entry.toValue entry) :: Entry.toFields fields

/-- The tables of an array, latest first, in front of the given ones. -/
def Entry.toTables : List (List (String × Entry)) → List Value → List Value
  | [], done => done
  | fields :: earlier, done => Entry.toTables earlier (.table (Entry.toFields fields) :: done)

end

/-- A text without a byte order mark. -/
def dropMark : List Char → List Char
  | '\uFEFF' :: s => s
  | s => s

/-- The fields of a document. -/
def read? (text : String) : Option (List (String × Value)) :=
  let s := dropMark text.toList
  let bound := s.length + 1
  (readStatements? bound bound s).bind fun statements =>
    (build? [] [] statements).map Entry.toFields

end Toml
end SpecOverlay
