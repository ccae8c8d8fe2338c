import SpecOverlay.Registry

/-!
# The built-in layer types

Eight layer types come with the library, and keylines answer to a second token.
Grid lines, keylines and fills are shared; labels and ratio keylines are made anew
each time, and so are groups.
-/

namespace SpecOverlay
namespace Factory

/-- A factory that makes leaves from arguments. -/
def ofLeaf {α : Type} (make : Arguments → Except Error α) (leaf : α → Leaf) : Factory := fun spec =>
  match make spec.arguments with
  | .ok a => .ok (.leaf (leaf a))
  | .error e => .error (.error e)

/-- A factory that makes groups from arguments. -/
def ofGroup {α : Type} (make : Arguments → Except Error α) (group : α → Group) : Factory :=
  fun spec =>
    match make spec.arguments with
    | .ok a => .ok (.group (group a))
    | .error e => .error (.error e)

/-- Makes grid lines. -/
def gridLines : Factory := ofLeaf GridLines.ofArguments .gridLines

/-- Makes keylines. -/
def keyline : Factory := ofLeaf Keyline.ofArguments .keyline

/-- Makes fills. -/
def fill : Factory := ofLeaf Fill.ofArguments .fill

/-- Makes labels. -/
def dimensionsLabel : Factory := ofLeaf DimensionsLabel.ofArguments .dimensionsLabel

/-- Makes ratio keylines. -/
def ratioKeyline : Factory := ofLeaf RatioKeyline.ofArguments .ratioKeyline

/-- Makes insets. -/
def inset : Factory := ofGroup Inset.ofArguments .inset

/-- Makes columns. -/
def columns : Factory := ofGroup (Columns.ofArguments .columns) .columns

/-- Makes rows. -/
def rows : Factory := ofGroup (Columns.ofArguments .rows) .columns

end Factory

/-- A built-in layer type. -/
structure BuiltIn where
  token : String
  factory : Factory
  shared : Bool

/-- The built-in layer types. -/
def BuiltIn.all : List BuiltIn :=
  [⟨GridLines.token, Factory.gridLines, true⟩,
   ⟨Keyline.token, Factory.keyline, true⟩,
   ⟨Keyline.guideToken, Factory.keyline, true⟩,
   ⟨Fill.token, Factory.fill, true⟩,
   ⟨Inset.token, Factory.inset, false⟩,
   ⟨Orientation.columns.token, Factory.columns, false⟩,
   ⟨Orientation.rows.token, Factory.rows, false⟩,
   ⟨DimensionsLabel.token, Factory.dimensionsLabel, false⟩,
   ⟨RatioKeyline.token, Factory.ratioKeyline, false⟩]

/-- The registry of the built-in layer types. -/
def Registry.builtIn : Registry :=
  BuiltIn.all.foldl (fun r b => r.register b.token b.factory b.shared) .empty

end SpecOverlay
