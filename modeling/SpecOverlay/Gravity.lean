import SpecOverlay.Text.Blank

/-!
# Edges and gravity

An `Edge` is the side of a rectangle that a layer is measured from.  A `Gravity`
says, for each axis on its own, where a smaller box lies in a larger one.

A gravity is written as tokens joined by bars.  A token that names one axis sets
that axis, and the last such token counts.  The tokens `center` and `fill` speak
of both axes and only settle what no earlier token has settled; an axis that no
token settles keeps its value from a base.
-/

namespace SpecOverlay

/-! ## Edges -/

/-- A side of a rectangle. -/
inductive Edge where
  | top
  | bottom
  | left
  | right
  deriving DecidableEq

namespace Edge

/-- The token of an edge. -/
def token : Edge → String
  | top => "top"
  | bottom => "bottom"
  | left => "left"
  | right => "right"

/-- All edges, in the order in which they are offered to the author. -/
def all : List Edge :=
  [top, bottom, left, right]

/-- The edge with the given token. -/
def read? (token : String) : Option Edge :=
  all.find? fun e => e.token = token

@[simp] theorem read?_token (e : Edge) : read? e.token = some e := by
  cases e <;> decide +kernel

/-- Distances from the top and the bottom are measured along the height. -/
def isVertical : Edge → Bool
  | top => true
  | bottom => true
  | left => false
  | right => false

end Edge

/-! ## Gravity -/

/-- The place of a box along one axis. -/
inductive AxisGravity where
  | start
  | center
  | finish
  | fill
  deriving DecidableEq

/-- The place of a box along both axes. -/
structure Gravity where
  horizontal : AxisGravity
  vertical : AxisGravity
  deriving DecidableEq

namespace Gravity

/-- What one token says. -/
inductive Token where
  | horizontal (g : AxisGravity)
  | vertical (g : AxisGravity)
  | both (g : AxisGravity)
  deriving DecidableEq

/-- The ten tokens and what they say. -/
def tokens : List (String × Token) :=
  [("top", .vertical .start), ("bottom", .vertical .finish),
   ("left", .horizontal .start), ("right", .horizontal .finish),
   ("center_vertical", .vertical .center), ("center_horizontal", .horizontal .center),
   ("fill_vertical", .vertical .fill), ("fill_horizontal", .horizontal .fill),
   ("center", .both .center), ("fill", .both .fill)]

/-- The token with the given text. -/
def Token.read? (text : List Char) : Option Token :=
  tokens.lookup (String.ofList text)

/-- A text cut at its bars; a text without bars is one piece. -/
def splitBars : List Char → List (List Char)
  | [] => [[]]
  | c :: s =>
    match splitBars s with
    | [] => [[c]]
    | piece :: pieces => if c = '|' then [] :: piece :: pieces else (c :: piece) :: pieces

/-- What the tokens read so far have settled. -/
structure Settled where
  horizontal : Option AxisGravity := none
  vertical : Option AxisGravity := none
  deriving DecidableEq

/-- One more token. -/
def Settled.add (p : Settled) : Token → Settled
  | .horizontal g => { p with horizontal := some g }
  | .vertical g => { p with vertical := some g }
  | .both g => ⟨p.horizontal.or (some g), p.vertical.or (some g)⟩

/-- Reads tokens joined by bars, with blanks around each allowed.  There is no
gravity if a token is unknown. -/
def read? (base : Gravity) (text : List Char) : Option Gravity :=
  ((splitBars text).mapM fun piece => Token.read? (Text.trim piece)).map fun ts =>
    let settled := ts.foldl Settled.add {}
    ⟨settled.horizontal.getD base.horizontal, settled.vertical.getD base.vertical⟩

end Gravity
end SpecOverlay
