import SpecOverlay.Number.Decimal

/-!
# The words of TOML

Blanks, line ends, comments, strings and keys, each read from the start of a text
with the rest returned.

A string stands between double quotes, where a backslash escapes, or between
single quotes, where nothing does.  With three quotes it may run over several
lines; a line feed right after the opening quotes is dropped, and up to two quotes
may stand before the closing ones.

What nests has a limit: a key has at most `nestingLimit` parts, and at most as many
arrays and inline tables stand inside one another.
-/

namespace SpecOverlay
namespace Toml

/-! ## Blanks, line ends and comments -/

/-- A space or a tab. -/
def isSpace (c : Char) : Bool :=
  c == ' ' || c == '\t'

/-- A character that may stand in a comment and in a string: a tab, or anything
that is no control character. -/
def isText (c : Char) : Bool :=
  c == '\t' || (0x20 ≤ c.toNat && c.toNat != 0x7F)

/-- The text after spaces and tabs. -/
def skipSpace (s : List Char) : List Char :=
  s.dropWhile isSpace

/-- The text after a line feed, which a carriage return may precede. -/
def readNewline? : List Char → Option (List Char)
  | '\n' :: s => some s
  | '\r' :: '\n' :: s => some s
  | _ => none

/-- The text after a comment, if it begins with one. -/
def skipComment : List Char → List Char
  | '#' :: s => s.dropWhile isText
  | s => s

/-- The text after the end of a line: blanks, possibly a comment, and a line feed
or the end of the text. -/
def readLineEnd? (s : List Char) : Option (List Char) :=
  match skipComment (skipSpace s) with
  | [] => some []
  | s => readNewline? s

/-- The text after blanks, comments and line feeds, at most as many as the number
says. -/
def skipLines : Nat → List Char → List Char
  | 0, s => s
  | n + 1, s =>
    let t := skipComment (skipSpace s)
    match readNewline? t with
    | some t => skipLines n t
    | none => t

/-! ## Strings -/

/-- The character with a number, if it is one. -/
def ofCode? (n : Nat) : Option Char :=
  if n.isValidChar then some (Char.ofNat n) else none

/-- The value of a hexadecimal digit. -/
def hexValue? (c : Char) : Option Nat :=
  if c.isDigit then some (c.toNat - '0'.toNat)
  else if 'a' ≤ c ∧ c ≤ 'f' then some (c.toNat - 'a'.toNat + 10)
  else if 'A' ≤ c ∧ c ≤ 'F' then some (c.toNat - 'A'.toNat + 10)
  else none

/-- The character that hexadecimal digits name. -/
def ofHex? (digits : List Char) : Option Char :=
  (digits.mapM hexValue?).bind fun values => ofCode? (values.foldl (fun n v => 16 * n + v) 0)

/-- The character that a letter stands for after a backslash. -/
def escaped? : Char → Option Char
  | 'b' => some '\x08'
  | 't' => some '\t'
  | 'n' => some '\n'
  | 'f' => some '\x0c'
  | 'r' => some '\r'
  | '"' => some '"'
  | '\\' => some '\\'
  | _ => none

/-- A character in front of the string that was read after it. -/
def consTo (c : Option Char) (r : Option (List Char × List Char)) :
    Option (List Char × List Char) :=
  c.bind fun c => r.map fun r => (c :: r.1, r.2)

/-- The rest of a string after its opening double quote. -/
def readBasic? : List Char → Option (List Char × List Char)
  | [] => none
  | '"' :: s => some ([], s)
  | '\\' :: 'u' :: a :: b :: c :: d :: s => consTo (ofHex? [a, b, c, d]) (readBasic? s)
  | '\\' :: 'U' :: a :: b :: c :: d :: e :: f :: g :: h :: s =>
    consTo (ofHex? [a, b, c, d, e, f, g, h]) (readBasic? s)
  | '\\' :: c :: s => consTo (escaped? c) (readBasic? s)
  | c :: s => if isText c then consTo (some c) (readBasic? s) else none

/-- The rest of a string after its opening single quote. -/
def readLiteral? : List Char → Option (List Char × List Char)
  | [] => none
  | '\'' :: s => some ([], s)
  | c :: s => if isText c then consTo (some c) (readLiteral? s) else none

/-- Whether a line ends here, blanks aside. -/
def endsLine (s : List Char) : Bool :=
  (readNewline? (skipSpace s)).isSome

/-- The rest of a string after three opening double quotes.  A backslash at the end
of a line takes away the line feed and all blanks and line feeds after it; while
that goes on, the flag is set. -/
def readLongBasic? : Bool → List Char → Option (List Char × List Char)
  | _, [] => none
  | true, ' ' :: s => readLongBasic? true s
  | true, '\t' :: s => readLongBasic? true s
  | true, '\n' :: s => readLongBasic? true s
  | true, '\r' :: '\n' :: s => readLongBasic? true s
  | _, '"' :: '"' :: '"' :: '"' :: '"' :: s => some (['"', '"'], s)
  | _, '"' :: '"' :: '"' :: '"' :: s => some (['"'], s)
  | _, '"' :: '"' :: '"' :: s => some ([], s)
  | _, '\n' :: s => consTo (some '\n') (readLongBasic? false s)
  | _, '\r' :: '\n' :: s => consTo (some '\n') (readLongBasic? false s)
  | _, '\\' :: 'u' :: a :: b :: c :: d :: s =>
    consTo (ofHex? [a, b, c, d]) (readLongBasic? false s)
  | _, '\\' :: 'U' :: a :: b :: c :: d :: e :: f :: g :: h :: s =>
    consTo (ofHex? [a, b, c, d, e, f, g, h]) (readLongBasic? false s)
  | _, '\\' :: c :: s =>
    if endsLine (c :: s) then readLongBasic? true (c :: s)
    else consTo (escaped? c) (readLongBasic? false s)
  | _, c :: s => if isText c then consTo (some c) (readLongBasic? false s) else none

/-- The rest of a string after three opening single quotes. -/
def readLongLiteral? : List Char → Option (List Char × List Char)
  | [] => none
  | '\'' :: '\'' :: '\'' :: '\'' :: '\'' :: s => some (['\'', '\''], s)
  | '\'' :: '\'' :: '\'' :: '\'' :: s => some (['\''], s)
  | '\'' :: '\'' :: '\'' :: s => some ([], s)
  | '\n' :: s => consTo (some '\n') (readLongLiteral? s)
  | '\r' :: '\n' :: s => consTo (some '\n') (readLongLiteral? s)
  | c :: s => if isText c then consTo (some c) (readLongLiteral? s) else none

/-- The text without a line feed at its start. -/
def dropNewline (s : List Char) : List Char :=
  (readNewline? s).getD s

/-- A string of any kind. -/
def readString? : List Char → Option (List Char × List Char)
  | '"' :: '"' :: '"' :: s => readLongBasic? false (dropNewline s)
  | '"' :: s => readBasic? s
  | '\'' :: '\'' :: '\'' :: s => readLongLiteral? (dropNewline s)
  | '\'' :: s => readLiteral? s
  | _ => none

/-! ## Keys -/

/-- The most parts of a key, and the most arrays and inline tables inside one
another. -/
def nestingLimit : Nat := 127

/-- The characters of a key without quotes. -/
def isBareChar (c : Char) : Bool :=
  c.isAlphanum || c == '_' || c == '-'

/-- One part of a key: a string on one line, or a run of key characters. -/
def readKeyPart? : List Char → Option (List Char × List Char)
  | '"' :: s => readBasic? s
  | '\'' :: s => readLiteral? s
  | s =>
    match s.takeWhile isBareChar with
    | [] => none
    | part => some (part, s.dropWhile isBareChar)

/-- Parts with points between them, at most as many as the number says, blanks
around each allowed. -/
def readKeyParts? : Nat → List Char → Option (List String × List Char)
  | 0, _ => none
  | n + 1, s =>
    match readKeyPart? (skipSpace s) with
    | none => none
    | some (part, s) =>
      match skipSpace s with
      | '.' :: s => (readKeyParts? n s).map fun r => (String.ofList part :: r.1, r.2)
      | s => some ([String.ofList part], s)

/-- A key and the blanks around it. -/
def readKey? (s : List Char) : Option (List String × List Char) :=
  readKeyParts? nestingLimit s

end Toml
end SpecOverlay
