import SpecOverlay.Arguments
import SpecOverlay.Scope

/-!
# Layer lines

A layer line is a layer type followed by arguments, all separated by blanks.  Its
indent is the number of spaces it begins with; other blanks do not count.

A `LayerSpec` is what such a line says once variables are replaced by their
values.  What two lines build is the same if their `key` is, which leaves out the
indent and the scale.
-/

namespace SpecOverlay

/-- What a layer is made from: its type, its indent and its arguments. -/
structure LayerSpec where
  kind : String
  indent : Nat
  arguments : Arguments

/-- The type and the arguments of a layer. -/
structure LayerKey where
  kind : String
  values : Table Argument
  deriving DecidableEq, Hashable

namespace LayerSpec

/-- The part of a specification that layers are shared by. -/
def key (s : LayerSpec) : LayerKey :=
  ⟨s.kind, s.arguments.values⟩

/-- Two specifications are the same if their keys are. -/
instance : BEq LayerSpec where
  beq a b := a.key = b.key

instance : Hashable LayerSpec where
  hash s := hash s.key

/-! ## Reading -/

/-- The characters of an argument's key: ASCII letters and digits, the underscore
and the hyphen. -/
def isKeyChar (c : Char) : Bool :=
  c.isAlphanum || c == '_' || c == '-'

/-- A word as an argument: a key, or a key, an equals sign and a value. -/
def readArgument? (word : List Char) : Option (String × Argument) :=
  match word.takeWhile isKeyChar, word.dropWhile isKeyChar with
  | [], _ => none
  | key, [] => some (String.ofList key, .flag)
  | key, '=' :: c :: value => some (String.ofList key, .value (String.ofList (c :: value)))
  | _, _ => none

/-- An argument with a reference to a variable replaced by its value. -/
def resolveArgument (scope : Scope) (line : Nat) : Argument → Except Error Argument
  | .flag => .ok .flag
  | .value text => (scope.resolve line text).map .value

/-- Adds the arguments that words write, first to last.  The first word that is no
argument or names no variable is the error. -/
def addArguments (scope : Scope) (line : Nat) (args : Arguments) :
    List (List Char) → Except Error Arguments
  | [] => .ok args
  | word :: words =>
    match readArgument? word with
    | none => .error ⟨.malformedLayer (String.ofList word), some line⟩
    | some (key, a) =>
      match resolveArgument scope line a with
      | .ok a => addArguments scope line (args.set key a) words
      | .error e => .error e

/-- The number of spaces that a line begins with. -/
def indentOf (line : List Char) : Nat :=
  (line.takeWhile (· == ' ')).length

/-- The specification on a line, whose number in the document is given. -/
def ofText (scope : Scope) (scale : Scale) (line : Nat) (text : String) :
    Except Error LayerSpec :=
  match Text.words text.toList with
  | [] => .error ⟨.malformedLayer (String.ofList (Text.trim text.toList)), some line⟩
  | kind :: words =>
    (addArguments scope line (.empty scale) words).map fun args =>
      ⟨String.ofList kind, indentOf text.toList, args⟩

end LayerSpec
end SpecOverlay
