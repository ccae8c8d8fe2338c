import SpecOverlay.Document.Block
import SpecOverlay.Nesting
import SpecOverlay.Overlay
import SpecOverlay.Registry

/-!
# From documents to overlays

Each block of a document becomes one overlay.  Within a block the order is fixed:
at most one title, then variables, then layers; comments may stand anywhere.
Variables alone are no overlay.

A block is read line by line.  `Progress` is what the lines so far have brought;
`Progress.step` adds a line and `Progress.run` a list of lines, stopping at the
first error.  Layers are created on the way, so a run returns the registry too,
and it does so even when it fails, because what was shared before the failure
stays shared.
-/

namespace SpecOverlay

/-- How far the order inside a block has come. -/
inductive Section where
  | start
  | title
  | declarations
  | layers
  deriving DecidableEq

/-- What the lines of a block have brought so far. -/
structure Progress where
  scope : Scope
  nesting : Nesting
  title : Option String
  hasTitle : Bool
  stage : Section

namespace Progress

/-- The beginning of a block, in which the given variables are in force. -/
def start (scope : Scope) : Progress :=
  ⟨scope, .empty, none, false, .start⟩

/-! ## Lines -/

/-- The error of a failed creation on a line.  A factory cannot know the line, so
whatever line it reports is replaced. -/
def creationError (kind : String) (line : Nat) : CreateError → Error
  | .lookup e => e.atLine line
  | .factory (.error e) => e.withLine line
  | .factory (.foreign message) => ⟨.layerFailure kind message, some line⟩

/-- A title, which has to come first. -/
def addTitle (p : Progress) (line : Nat) (text : String) : Except Error Progress :=
  if p.stage = .start then
    .ok { p with title := titleOf text, hasTitle := true, stage := .title }
  else .error ⟨.misplacedTitle, some line⟩

/-- A declaration, which has to come before the layers. -/
def addDeclaration (p : Progress) (line : Nat) (text : String) : Except Error Progress :=
  if p.stage = .layers then .error ⟨.misplacedVariable, some line⟩
  else (p.scope.declareLine line text).map fun scope =>
    { p with scope, stage := .declarations }

/-- A layer. -/
def addLayer (scale : Scale) (p : Progress) (registry : Registry) (line : Nat) (text : String) :
    Except Error Progress × Registry :=
  match LayerSpec.ofText p.scope scale line text with
  | .error e => (.error e, registry)
  | .ok spec =>
    match registry.create spec with
    | (.error e, registry) => (.error (creationError spec.kind line e), registry)
    | (.ok node, registry) =>
      (.ok { p with nesting := p.nesting.attach spec.indent node, stage := .layers }, registry)

/-- One more line. -/
def step (scale : Scale) (p : Progress) (registry : Registry) (line : Nat) (text : String) :
    Except Error Progress × Registry :=
  match LineKind.of text with
  | .blank => (.ok p, registry)
  | .comment => (.ok p, registry)
  | .title => (p.addTitle line text, registry)
  | .declaration => (p.addDeclaration line text, registry)
  | .layer => p.addLayer scale registry line text

/-- More lines, of which the first has the given number. -/
def run (scale : Scale) (p : Progress) (registry : Registry) (line : Nat) :
    List String → Except Error Progress × Registry
  | [] => (.ok p, registry)
  | text :: texts =>
    match p.step scale registry line text with
    | (.ok p, registry) => run scale p registry (line + 1) texts
    | (.error e, registry) => (.error e, registry)

/-! ## The end of a block -/

/-- The overlay of a finished block that began on the given line. -/
def finish (p : Progress) (start : Nat) : Except Error Overlay :=
  if p.stage = .declarations ∧ p.hasTitle = false then
    .error ⟨.misplacedVariable, some start⟩
  else .ok ⟨p.title, p.nesting.finish⟩

end Progress

/-! ## Blocks and documents -/

/-- A registry of layer types and the scale of a surface. -/
structure Inflater where
  registry : Registry
  scale : Scale

namespace Inflater

/-- The overlay of a block, and the inflater afterwards. -/
def block (i : Inflater) (globals : Scope) (b : Block) : Except Error Overlay × Inflater :=
  match (Progress.start globals).run i.scale i.registry b.start b.lines with
  | (.ok p, registry) => (p.finish b.start, { i with registry })
  | (.error e, registry) => (.error e, { i with registry })

/-- The overlay of lines that are one block, in which the given variables are in
force. -/
def overlay (i : Inflater) (scope : Scope) (lines : List String) : Except Error Overlay × Inflater :=
  i.block scope ⟨1, lines⟩

/-- The overlays of blocks, up to the first error. -/
def blocks (i : Inflater) (globals : Scope) : List Block → Except Error (List Overlay) × Inflater
  | [] => (.ok [], i)
  | b :: bs =>
    match i.block globals b with
    | (.error e, i) => (.error e, i)
    | (.ok o, i) =>
      match blocks i globals bs with
      | (.error e, i) => (.error e, i)
      | (.ok os, i) => (.ok (o :: os), i)

/-- The overlays of a document. -/
def document (i : Inflater) (lines : List String) : Except Error (List Overlay) × Inflater :=
  match Document.split lines with
  | .error e => (.error e, i)
  | .ok d => i.blocks d.globals d.blocks

/-- The overlays of a text. -/
def text (i : Inflater) (source : String) : Except Error (List Overlay) × Inflater :=
  i.document (Text.linesOf source)

end Inflater
end SpecOverlay
