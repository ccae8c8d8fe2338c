import SpecOverlay.CommandLine
import SpecOverlay.Main
import SpecOverlay.Proofs.Canvas.Clip
import SpecOverlay.Proofs.Inflation.Blocks
import SpecOverlay.Proofs.Inflation.Comments
import SpecOverlay.Proofs.Inflation.FirstError
import SpecOverlay.Proofs.Inflation.Layout
import SpecOverlay.Proofs.Inflation.Sharing
import SpecOverlay.Proofs.Inflation.Tree
import SpecOverlay.Proofs.Layer.Drawing
import SpecOverlay.Proofs.LayerSpec.Substitution
import SpecOverlay.Proofs.Registry.History
import SpecOverlay.Proofs.Registry.Instances
import SpecOverlay.Proofs.Registry.Scales
import SpecOverlay.Proofs.Scope.Declarations
import SpecOverlay.Proofs.LayerSpec.Grammar
import SpecOverlay.Proofs.Registry.Operations
import SpecOverlay.Proofs.Inflation.Aliases
import SpecOverlay.Proofs.Inflation.Terminators
import SpecOverlay.Proofs.Layer.GridMultiples
import SpecOverlay.Proofs.Layer.GridProgress
import SpecOverlay.Proofs.Layer.EdgeSymmetry
import SpecOverlay.Proofs.Gravity.Reading
import SpecOverlay.Proofs.Layer.Cells
import SpecOverlay.Proofs.Layer.InsetPlacement
import SpecOverlay.Proofs.Color.Spelling
import SpecOverlay.Proofs.Dimension.WholePixels
import SpecOverlay.Proofs.Registry.Suggestions
import SpecOverlay.Proofs.Dimension.Numeral
import SpecOverlay.Proofs.Dimension.Reading
import SpecOverlay.Proofs.Layer.GridLimit
import SpecOverlay.Proofs.Layer.Drawable
import SpecOverlay.Proofs.Overlay.Outline
import SpecOverlay.Proofs.Settings.ReadBack
import SpecOverlay.Proofs.Arguments.Insertions
import SpecOverlay.Proofs.Nesting.Frames
