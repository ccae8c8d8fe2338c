import SpecOverlay.Canvas.Transcript
import SpecOverlay.Inflation
import SpecOverlay.Registry.BuiltIn
import SpecOverlay.Settings

/-!
# The command line

The program reads one document, from a file or from its input, and prints the
outline of every overlay in it, as text or as JSON.  On request it also draws the
overlays and lists the commands.

Words that begin with a hyphen are options, except a hyphen alone; after two
hyphens nothing is an option any more.  Options are taken in order, and the first
fault among them ends the program.  The settings come first from a file and then
from the options.

`run` does all of this for a `Host`, which says what files hold.  So one and the
same function serves the real program and one that has its files in memory.
-/

namespace SpecOverlay
namespace CommandLine

/-- The name of the program. -/
def programName : String := "rhythm"

/-- The version of the program. -/
def version : String := "0.1.0"

/-- The name and the version of the library. -/
def libraryVersion : String :=
  programName ++ " v" ++ version

/-! ## Options -/

/-- What the command line asks for. -/
structure Options where
  input : Option String := none
  config : Option String := none
  density : Option Float32 := none
  scaledDensity : Option Float32 := none
  xdpi : Option Float32 := none
  width : Option UInt32 := none
  height : Option UInt32 := none
  render : Bool := false
  json : Bool := false
  verbose : Bool := false

/-- How reading options can end early. -/
inductive Stop where
  | usage
  | version
  | help
  deriving DecidableEq

/-- The options that stand alone. -/
inductive Switch where
  | render
  | json
  | verbose
  | version
  | help
  deriving DecidableEq

/-- The options that have a value. -/
inductive Valued where
  | config
  | density
  | scaledDensity
  | xdpi
  | width
  | height
  deriving DecidableEq

/-- The switch with a long name. -/
def Switch.ofName? : String → Option Switch
  | "render" => some render
  | "json" => some json
  | "verbose" => some verbose
  | "version" => some version
  | "help" => some help
  | _ => none

/-- The switch with a letter. -/
def Switch.ofLetter? : Char → Option Switch
  | 'v' => some verbose
  | 'V' => some version
  | 'h' => some help
  | _ => none

/-- The option with a long name that has a value. -/
def Valued.ofName? : String → Option Valued
  | "config" => some config
  | "density" => some density
  | "scaled-density" => some scaledDensity
  | "xdpi" => some xdpi
  | "width" => some width
  | "height" => some height
  | _ => none

/-- Sets a field that has to be unset, to a value that has to be readable. -/
def once {α : Type} (old new : Option α) : Except Stop (Option α) :=
  match old, new with
  | none, some a => .ok (some a)
  | _, _ => .error .usage

/-- A text that is not empty. -/
def readPath? (text : String) : Option String :=
  if text.isEmpty then none else some text

/-- A number of pixels: an integer of 32 bits without a sign, which may be written
with one. -/
def readPixels? (text : String) : Option UInt32 :=
  match Decimal.readInteger? text.toList with
  | some n => if 0 ≤ n ∧ n < 4294967296 then some (UInt32.ofNat n.toNat) else none
  | none => none

namespace Options

/-- Turns a switch on, which is allowed once. -/
def switch (o : Options) : Switch → Except Stop Options
  | .render => if o.render then .error .usage else .ok { o with render := true }
  | .json => if o.json then .error .usage else .ok { o with json := true }
  | .verbose => if o.verbose then .error .usage else .ok { o with verbose := true }
  | .version => .error .version
  | .help => .error .help

/-- Turns on the switches of several letters behind one hyphen. -/
def switches (o : Options) : List Char → Except Stop Options
  | [] => .ok o
  | c :: cs =>
    match Switch.ofLetter? c with
    | none => .error .usage
    | some s =>
      match o.switch s with
      | .ok o => switches o cs
      | .error e => .error e

/-- Gives an option its value, which is allowed once. -/
def value (o : Options) (text : String) : Valued → Except Stop Options
  | .config => (once o.config (readPath? text)).map fun v => { o with config := v }
  | .density =>
    (once o.density (Decimal.readSingle? text.toList)).map fun v => { o with density := v }
  | .scaledDensity =>
    (once o.scaledDensity (Decimal.readSingle? text.toList)).map fun v =>
      { o with scaledDensity := v }
  | .xdpi => (once o.xdpi (Decimal.readSingle? text.toList)).map fun v => { o with xdpi := v }
  | .width => (once o.width (readPixels? text)).map fun v => { o with width := v }
  | .height => (once o.height (readPixels? text)).map fun v => { o with height := v }

/-- Names the document, which is allowed once. -/
def document (o : Options) (text : String) : Except Stop Options :=
  (once o.input (readPath? text)).map fun v => { o with input := v }

/-- Words after two hyphens. -/
def documents (o : Options) : List String → Except Stop Options
  | [] => .ok o
  | word :: words =>
    match o.document word with
    | .ok o => documents o words
    | .error e => .error e

/-- What a word is before its meaning is known. -/
inductive Word where
  | plain
  | separator
  | long (name : String) (value : Option String)
  | short (letters : List Char)

/-- Cuts a long option at its first equals sign. -/
def splitEquals : List Char → List Char × Option (List Char)
  | [] => ([], none)
  | '=' :: s => ([], some s)
  | c :: s => match splitEquals s with | (name, value) => (c :: name, value)

/-- The kind of a word. -/
def Word.of (word : String) : Word :=
  match word.toList with
  | ['-', '-'] => separator
  | '-' :: '-' :: s =>
    match splitEquals s with
    | (name, value) => long (String.ofList name) (value.map String.ofList)
  | '-' :: c :: s => short (c :: s)
  | _ => plain

/-- Reads words into options. -/
def read (o : Options) : List String → Except Stop Options
  | [] => .ok o
  | word :: words =>
    match Word.of word with
    | .plain =>
      match o.document word with
      | .ok o => read o words
      | .error e => .error e
    | .separator => documents o words
    | .short letters =>
      match o.switches letters with
      | .ok o => read o words
      | .error e => .error e
    | .long name attached =>
      match Switch.ofName? name, Valued.ofName? name, attached with
      | some s, _, none =>
        match o.switch s with
        | .ok o => read o words
        | .error e => .error e
      | none, some v, some text =>
        match o.value text v with
        | .ok o => read o words
        | .error e => .error e
      | none, some v, none =>
        match words with
        | [] => .error .usage
        | text :: words =>
          match Word.of text with
          | .plain =>
            match o.value text v with
            | .ok o => read o words
            | .error e => .error e
          | _ => .error .usage
      | _, _, _ => .error .usage

/-- The settings with the options that replace some of them. -/
def applyTo (o : Options) (s : Settings) : Settings :=
  { s with
    scale :=
      ⟨o.density.getD s.scale.density, o.scaledDensity.getD s.scale.scaledDensity,
        o.xdpi.getD s.scale.xdpi⟩
    surface := ⟨o.width.getD s.surface.width, o.height.getD s.surface.height⟩ }

end Options

/-! ## Output -/

/-- How the program ends and what it has written. -/
structure Outcome where
  exitCode : Nat
  output : String := ""
  errors : String := ""
  deriving DecidableEq

/-- The end with a sentence about what went wrong outside the document. -/
def failure (message : String) : Outcome :=
  { exitCode := 1, errors := "Error: " ++ message ++ "\n" }

/-- The outlines of overlays. -/
def outlines (json : Bool) (overlays : List Overlay) : String :=
  if json then (Json.array (overlays.map fun o => o.summary.toJson)).render 0 ++ "\n"
  else String.join (overlays.map fun o => o.summary.text)

/-- The commands that draw one overlay, under a line with its number. -/
def drawing (bounds : Rect Float32) (number : Nat) (o : Overlay) : String :=
  "-- overlay " ++ toString number ++ " --\n" ++
    String.join ((o.draw bounds .blank).commands.toList.map fun c => c.toText ++ "\n")

/-- The commands that draw overlays, the first of which has the given number. -/
def drawings (bounds : Rect Float32) (number : Nat) : List Overlay → String
  | [] => ""
  | o :: os => drawing bounds number o ++ drawings bounds (number + 1) os

/-- The end after a document was read. -/
def present (o : Options) (settings : Settings) (source : String) : Outcome :=
  match (Inflater.mk .builtIn settings.scale).text source with
  | (.error e, _) => { exitCode := 1, errors := e.report source ++ "\n" }
  | (.ok overlays, _) =>
    { exitCode := 0
      output := outlines o.json overlays ++
        if o.render then drawings settings.surface.bounds 1 overlays else "" }

/-- A short description of the options. -/
def help : String :=
  "Usage: " ++ programName ++ " [--config PATH] [--density N] [--scaled-density N] [--xdpi N]\n" ++
    "              [--width N] [--height N] [--render] [--json] [--verbose] [FILE]\n"

/-- The end after reading options stopped early. -/
def stop : Stop → Outcome
  | .usage => { exitCode := 2, errors := help }
  | .version => { exitCode := 0, output := programName ++ " " ++ version ++ "\n" }
  | .help => { exitCode := 0, output := help }

/-! ## Running -/

/-- What the program can ask of the world: whether a file exists, what a file
holds, what its input holds, and where the user keeps settings. -/
structure Host (m : Type → Type) where
  fileExists : String → m Bool
  fileText : String → m (Option String)
  inputText : m (Option String)
  userConfig : m (Option String)

variable {m : Type → Type} [Monad m]

/-- The settings: from the given file, else from the user's file if there is one. -/
def findSettings (host : Host m) (config : Option String) : m (Except SettingsError Settings) := do
  match config with
  | some path => return Settings.ofFile path (← host.fileText path)
  | none =>
    match ← host.userConfig with
    | none => return .ok .standard
    | some path =>
      if ← host.fileExists path then return Settings.ofFile path (← host.fileText path)
      else return .ok .standard

/-- The document, or what to say if it cannot be read. -/
def findDocument (host : Host m) (input : Option String) : m (Except String String) := do
  match input with
  | some path =>
    match ← host.fileText path with
    | some text => return .ok text
    | none => return .error ("failed to read document " ++ path)
  | none =>
    match ← host.inputText with
    | some text => return .ok text
    | none => return .error "failed to read from stdin"

/-- Runs the program with its arguments. -/
def run (host : Host m) (arguments : List String) : m Outcome := do
  match Options.read {} arguments with
  | .error e => return stop e
  | .ok options =>
    match ← findSettings host options.config with
    | .error e => return failure e.message
    | .ok settings =>
      match ← findDocument host options.input with
      | .error message => return failure message
      | .ok source => return present options (options.applyTo settings) source

end CommandLine
end SpecOverlay
