import SpecOverlay.Text.Blank
import SpecOverlay.Text.Line

/-!
# What can be wrong with a document

An error is a cause and, once it is known, the line of the document that shows
it.  Whoever detects a cause need not know the line: `atLine` supplies one and
keeps a line that is already there, while `withLine` replaces it.

A cause has a number, positional arguments and a sentence; `report` quotes the
line of the document under the sentence and underlines it.
-/

namespace SpecOverlay

/-! ## Causes -/

/-- The causes of failure, each with what its sentence names. -/
inductive Cause where
  | malformedVariable (declaration : String)
  | malformedLayer (token : String)
  | misplacedVariable
  | misplacedTitle
  | undeclaredVariable (name : String)
  | unknownLayer (kind : String) (known suggestions : List String)
  | layerFailure (kind message : String)
  | missingArgument (kind argument : String)
  | argumentNotOneOf (kind argument : String) (accepted : List String)
  | argumentNotPositive (kind argument sample : String)
  | argumentNotOfForm (kind argument sample : String)
  | malformedArgument (argument value expected : String)
  deriving DecidableEq

namespace Cause

/-- The number of a cause: 100 and 101 for the form of a line, 110 and 111 for
its place, 120 for names, 130 and 140 for layer types, and 150 to 154 for
arguments. -/
def code : Cause → Nat
  | malformedVariable _ => 100
  | malformedLayer _ => 101
  | misplacedVariable => 110
  | misplacedTitle => 111
  | undeclaredVariable _ => 120
  | unknownLayer _ _ _ => 130
  | layerFailure _ _ => 140
  | missingArgument _ _ => 150
  | argumentNotOneOf _ _ _ => 151
  | argumentNotPositive _ _ _ => 152
  | argumentNotOfForm _ _ _ => 153
  | malformedArgument _ _ _ => 154

/-- A list of names as a sentence shows it. -/
def listed (names : List String) : String :=
  ", ".intercalate names

/-- The positional arguments of a cause.  Suggestions are advice and no
argument. -/
def args : Cause → List String
  | malformedVariable declaration => [declaration]
  | malformedLayer token => [token]
  | misplacedVariable => []
  | misplacedTitle => []
  | undeclaredVariable name => [name]
  | unknownLayer kind known _ => [kind, listed known]
  | layerFailure kind message => [kind, message]
  | missingArgument kind argument => [kind, argument]
  | argumentNotOneOf kind argument accepted => [kind, argument, listed accepted]
  | argumentNotPositive kind argument sample => [kind, argument, sample]
  | argumentNotOfForm kind argument sample => [kind, argument, sample]
  | malformedArgument argument value expected => [argument, value, expected]

/-- The question that offers suggestions, empty if there are none. -/
def offer : List String → String
  | [] => ""
  | suggestions => " (did you mean `" ++ "`, `".intercalate suggestions ++ "`?)"

/-- The sentence that states a cause. -/
def message : Cause → String
  | malformedVariable declaration =>
    "malformed variable declaration `" ++ declaration ++ "`, expected `@name=value`"
  | malformedLayer token =>
    "malformed layer declaration near `" ++ token ++ "`, expected `key` or `key=value`"
  | misplacedVariable =>
    "variable declarations must precede layers and cannot form a block of their own"
  | misplacedTitle => "a title must be the first line of its block and appear once"
  | undeclaredVariable name => "variable `" ++ name ++ "` is not declared"
  | unknownLayer kind known suggestions =>
    "unknown layer type `" ++ kind ++ "`" ++ offer suggestions ++ "; known types: " ++
      listed known
  | layerFailure kind message => "failed to inflate `" ++ kind ++ "`: " ++ message
  | missingArgument kind argument => "`" ++ kind ++ "` requires argument `" ++ argument ++ "`"
  | argumentNotOneOf kind argument accepted =>
    "`" ++ kind ++ "` requires argument `" ++ argument ++ "` to be one of: " ++ listed accepted
  | argumentNotPositive kind argument sample =>
    "`" ++ kind ++ "` requires a positive `" ++ argument ++ "`, e.g. `" ++ argument ++ "=" ++
      sample ++ "`"
  | argumentNotOfForm kind argument sample =>
    "`" ++ kind ++ "` requires `" ++ argument ++ "` of the form `" ++ argument ++ "=" ++
      sample ++ "`"
  | malformedArgument argument value expected =>
    "cannot read `" ++ argument ++ "=" ++ value ++ "` as " ++ expected

end Cause

/-! ## Errors -/

/-- A cause and the document line that shows it, counted from one. -/
structure Error where
  cause : Cause
  line : Option Nat := none
  deriving DecidableEq

namespace Error

/-- Supplies a line to an error that has none. -/
def atLine (e : Error) (line : Nat) : Error :=
  { e with line := e.line.or (some line) }

/-- Gives an error a line, whatever line it had. -/
def withLine (e : Error) (line : Nat) : Error :=
  { e with line := some line }

@[simp] theorem cause_atLine (e : Error) (line : Nat) : (e.atLine line).cause = e.cause := rfl

@[simp] theorem cause_withLine (e : Error) (line : Nat) : (e.withLine line).cause = e.cause := rfl

/-- The sentence of an error, with its line if it has one. -/
def text (e : Error) : String :=
  match e.line with
  | none => e.cause.message
  | some line => e.cause.message ++ " (line " ++ toString line ++ ")"

/-! ## Reports -/

/-- The line of a text with a number counted from one, empty past the end.  The
number zero stands for the first line. -/
def quotedLine (source : String) (line : Nat) : List Char :=
  ((Text.lines source.toList)[line - 1]?).getD []

/-- A number, right-aligned in four columns. -/
def gutter (line : Nat) : String :=
  let digits := toString line
  String.ofList (List.replicate (4 - digits.length) ' ') ++ digits

/-- The row under a quoted line: blanks for the bytes it is indented by, then a
caret for every byte of the rest, and one caret for a blank line. -/
def underline (quoted : List Char) : String :=
  let bytes (s : List Char) := (String.ofList s).utf8ByteSize
  String.ofList
    (List.replicate (bytes quoted - bytes (Text.trimStart quoted)) ' ' ++
      List.replicate (max 1 (bytes (Text.trim quoted))) '^')

/-- The error as it is shown beside its document. -/
def report (e : Error) (source : String) : String :=
  let head := "error[R" ++ toString e.cause.code ++ "]: " ++ e.cause.message
  match e.line with
  | none => head
  | some line =>
    let quoted := quotedLine source line
    head ++ "\n --> line " ++ toString line ++ "\n" ++ gutter line ++ " | " ++
      String.ofList quoted ++ "\n     | " ++ underline quoted ++ "\n"

end Error
end SpecOverlay
