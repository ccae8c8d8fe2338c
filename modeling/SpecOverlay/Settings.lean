import SpecOverlay.Dimension
import SpecOverlay.Geometry
import SpecOverlay.Toml.Plain

/-!
# Settings

Settings hold the scale and the size of the surface.  They are kept in a TOML file
with two tables, `scale` and `surface`.  A key that is missing has its default, a
key that is not known is ignored, and a value of the wrong kind makes the file
unusable.

How TOML is read and written is up to a codec: `load` and `save?` are about any one,
`ofText`, `ofFile` and `toText` about the plain one, which the program uses.

The two tables have their defaults in different ways.  A factor that is missing is
taken from the standard scale, while each number of pixels has a default of its own.
-/

namespace SpecOverlay

/-- The size of a surface in pixels. -/
structure Surface where
  width : UInt32
  height : UInt32
  deriving DecidableEq

namespace Surface

/-- The width of a surface that is given none. -/
def defaultWidth : UInt32 := 360

/-- The height of a surface that is given none. -/
def defaultHeight : UInt32 := 640

/-- The surface without settings. -/
def standard : Surface :=
  ⟨defaultWidth, defaultHeight⟩

/-- The rectangle of a surface. -/
def bounds (s : Surface) : Rect Float32 :=
  .ofSize ((s.width.toNat : Int) : Float32) ((s.height.toNat : Int) : Float32)

end Surface

/-- The scale and the surface, and the file they were read from.

`negated` has the keys of the factors that the file gives as `-nan`.  A factor
loses that sign, but it is written back. -/
structure Settings where
  scale : Scale
  surface : Surface
  path : Option String
  negated : List String

/-- Why a file gave no settings. -/
inductive SettingsError where
  | unreadable (path : String)
  | malformed (path : String)
  deriving DecidableEq

/-- The sentence for a file that gave no settings. -/
def SettingsError.message : SettingsError → String
  | unreadable path => "failed to read config " ++ path
  | malformed path => "failed to parse config " ++ path

namespace Settings

/-- The settings without a file. -/
def standard : Settings :=
  ⟨.standard, .standard, none, []⟩

/-! ## Reading -/

section Reading

variable (c : Toml.Codec)

/-- A field of a record, or its default. -/
def readField? {α : Type} (read? : Toml.Value → Option α) (key : String) (default : α)
    (fields : List (String × Toml.Value)) : Option α :=
  c.optional? read? default (fields.lookup key)

/-- The keys of the factors, in their order. -/
def factorKeys : List String :=
  ["density", "scaled_density", "xdpi"]

/-- The scale in a value.  A factor that is missing is that of the standard scale. -/
def readScale? (v : Toml.Value) : Option Scale := do
  let fields ← c.fields? factorKeys v
  let default := Scale.standard
  return {
    density := ← readField? c c.single? "density" default.density fields
    scaledDensity := ← readField? c c.single? "scaled_density" default.scaledDensity fields
    xdpi := ← readField? c c.single? "xdpi" default.xdpi fields }

/-- The keys of the factors in a value that are `-nan`. -/
def negatedKeys (v : Toml.Value) : List String :=
  let fields := (c.fields? factorKeys v).getD []
  factorKeys.filter fun key =>
    match fields.lookup key with
    | some (.notANumber negative) => negative
    | _ => false

/-- The keys of the numbers of pixels, in their order. -/
def pixelKeys : List String :=
  ["width", "height"]

/-- The surface in a value.  Each number of pixels has a default of its own. -/
def readSurface? (v : Toml.Value) : Option Surface := do
  let fields ← c.fields? pixelKeys v
  return {
    width := ← readField? c c.word? "width" Surface.defaultWidth fields
    height := ← readField? c c.word? "height" Surface.defaultHeight fields }

/-- The settings in a document that was read from a file. -/
def ofFields? (path : String) (fields : List (String × Toml.Value)) : Option Settings := do
  let scale ← readField? c (readScale? c) "scale" .standard fields
  let surface ← readField? c (readSurface? c) "surface" .standard fields
  return ⟨scale, surface, some path, ((fields.lookup "scale").map (negatedKeys c)).getD []⟩

/-- The settings of a file, given its text unless it cannot be read. -/
def load (path : String) : Option String → Except SettingsError Settings
  | none => .error (.unreadable path)
  | some text =>
    match (c.read? text).bind (ofFields? c path) with
    | some s => .ok s
    | none => .error (.malformed path)

end Reading

/-! ## Writing -/

/-- The records that hold settings. -/
def records (s : Settings) : Toml.Records :=
  let factor (key : String) (x : Float32) := (key, .single (s.negated.contains key) x)
  [("scale", [factor "density" s.scale.density, factor "scaled_density" s.scale.scaledDensity,
      factor "xdpi" s.scale.xdpi]),
    ("surface", [("width", .word s.surface.width), ("height", .word s.surface.height)])]

/-- The text of a file that holds the settings. -/
def save? (c : Toml.Codec) (s : Settings) : Option String :=
  c.write? s.records

/-! ## The plain codec -/

/-- The settings in the text of a file. -/
def ofText (path text : String) : Except SettingsError Settings :=
  load Toml.plain path (some text)

/-- The settings of a file that may be missing. -/
def ofFile (path : String) (text? : Option String) : Except SettingsError Settings :=
  load Toml.plain path text?

/-- The text that the plain codec writes for the settings. -/
def toText (s : Settings) : String :=
  Toml.write s.records

end Settings
end SpecOverlay
