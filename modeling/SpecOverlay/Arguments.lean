import SpecOverlay.Color
import SpecOverlay.Dimension
import SpecOverlay.Gravity
import SpecOverlay.Table

/-!
# The arguments of a layer

A layer line gives its layer arguments of the form `key` or `key=value`.  A key
without a value is a *flag*, and a flag is not the same as an absent key.

Arguments are read through typed getters, each with the value to use for an
absent key.  A getter for values treats a flag as absent; only `bool` tells the
two apart.  A value that cannot be read is a complaint about its key, except for
edges and gravities, where it counts as absent.

Two collections of arguments are the same if their keys and values are.  The
scale that dimensions are read with does not take part in that.
-/

namespace SpecOverlay

/-- What a present key carries. -/
inductive Argument where
  | flag
  | value (text : String)
  deriving DecidableEq, Hashable

/-- The value that an argument carries, if it is not a flag. -/
def Argument.text? : Argument → Option String
  | flag => none
  | value text => some text

/-- The arguments of one layer and the scale its dimensions are read with. -/
structure Arguments where
  values : Table Argument
  scale : Scale

namespace Arguments

/-! ## The collection -/

/-- No arguments. -/
def empty (scale : Scale) : Arguments :=
  ⟨.empty, scale⟩

/-- What a key carries; nothing if it is absent. -/
def get? (args : Arguments) (key : String) : Option Argument :=
  args.values.get? key

/-- The arguments with what a key carries set. -/
def set (args : Arguments) (key : String) (a : Argument) : Arguments :=
  { args with values := args.values.insert key a }

/-- Sets what a key carries and tells what it carried before. -/
def insert (args : Arguments) (key : String) (a : Argument) : Option Argument × Arguments :=
  (args.get? key, args.set key a)

/-- The arguments of a list, a later one replacing an earlier one of its key. -/
def ofList (scale : Scale) (entries : List (String × Argument)) : Arguments :=
  entries.foldl (fun args e => args.set e.1 e.2) (empty scale)

/-- The arguments by ascending key. -/
def toList (args : Arguments) : List (String × Argument) :=
  args.values.entries

/-- The number of keys. -/
def count (args : Arguments) : Nat :=
  args.values.size

/-- Whether a key is present, as a flag or with a value. -/
def has (args : Arguments) (key : String) : Bool :=
  (args.get? key).isSome

/-- The scale is no part of the collection. -/
instance : BEq Arguments where
  beq a b := a.values = b.values

instance : Hashable Arguments where
  hash args := hash args.values

@[simp] theorem get?_empty (scale : Scale) (key : String) : (empty scale).get? key = none := rfl

theorem get?_set (args : Arguments) (key : String) (a : Argument) (k : String) :
    (args.set key a).get? k = if key = k then some a else args.get? k :=
  Table.get?_insert _ _ _ _

theorem beq_iff {a b : Arguments} : a == b ↔ ∀ k, a.get? k = b.get? k := by
  constructor
  · intro h k
    have hv : a.values = b.values := of_decide_eq_true h
    rw [get?, get?, hv]
  · intro h
    exact decide_eq_true (Table.ext_get? h)

/-! ## Values -/

/-- The value of a key; nothing for an absent key or a flag. -/
def text? (args : Arguments) (key : String) : Option String :=
  (args.get? key).bind Argument.text?

/-- The value of a key, or a default. -/
def text (args : Arguments) (key default : String) : String :=
  (args.text? key).getD default

/-- A value read by `read?`, a default if there is none, and a complaint that
says what was expected if it cannot be read. -/
def read {α : Type} (args : Arguments) (key expected : String) (default : α)
    (read? : List Char → Option α) : Except Error α :=
  match args.text? key with
  | none => .ok default
  | some raw =>
    match read? raw.toList with
    | some a => .ok a
    | none => .error ⟨.malformedArgument key raw expected, none⟩

/-- A 32-bit integer. -/
def int (args : Arguments) (key : String) (default : Int) : Except Error Int :=
  args.read key "an integer" default Decimal.readInt32?

/-- A number in single precision. -/
def single (args : Arguments) (key : String) (default : Float32) : Except Error Float32 :=
  args.read key "a number" default Decimal.readSingle?

/-- A truth value: `absent` without the key, `bare` for a flag. -/
def bool (args : Arguments) (key : String) (absent bare : Bool) : Except Error Bool :=
  match args.get? key with
  | none => .ok absent
  | some .flag => .ok bare
  | some (.value raw) =>
    if raw = "true" then .ok true
    else if raw = "false" then .ok false
    else .error ⟨.malformedArgument key raw "`true` or `false`", none⟩

/-- A color. -/
def color (args : Arguments) (key : String) (default : Color) : Except Error Color :=
  args.read key "a color" default Color.read?

/-- An edge.  An unknown token counts as absent. -/
def edge? (args : Arguments) (key : String) (default : Option Edge) : Option Edge :=
  ((args.text? key).bind Edge.read?).or default

/-- A gravity.  A text with an unknown token counts as absent, and an axis that
no token settles is taken from the default. -/
def gravity (args : Arguments) (key : String) (default : Gravity) : Gravity :=
  ((args.text? key).bind fun raw => Gravity.read? default raw.toList).getD default

/-! ## Dimensions -/

/-- The unit that a value ends with. -/
def unit? (args : Arguments) (key : String) : Option DimensionUnit :=
  (args.text? key).map fun raw => DimensionUnit.of raw.toList

/-- A dimension in pixels, if the key has a value. -/
def pixels? (args : Arguments) (key : String) : Except Error (Option Float32) :=
  match args.text? key with
  | none => .ok none
  | some raw => (Dimension.readPixels args.scale key raw).map some

/-- Exact pixels. -/
def exactPixels (args : Arguments) (key : String) (default : Float32) : Except Error Float32 :=
  (args.pixels? key).map fun px => px.getD default

/-- Whole pixels, cut toward zero. -/
def offset (args : Arguments) (key : String) (default : Int) : Except Error Int :=
  (args.pixels? key).map fun px => (px.map Dimension.toOffset).getD default

/-- Whole pixels, rounded and never lost. -/
def size (args : Arguments) (key : String) (default : Int) : Except Error Int :=
  (args.pixels? key).map fun px => (px.map Dimension.toSize).getD default

/-- A length.  Pixels are rounded, and a percentage is kept as it is written. -/
def length? (args : Arguments) (key : String) (rounding : Rounding) :
    Except Error (Option (Length Float32)) :=
  (args.pixels? key).map fun px? =>
    px?.map fun px =>
      if args.unit? key = some .percent then .percent px else .pixels (rounding.apply px)

end Arguments
end SpecOverlay
