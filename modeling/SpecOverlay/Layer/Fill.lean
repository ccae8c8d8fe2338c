import SpecOverlay.Arguments

/-!
# Fills

A fill paints the whole of its bounds with one color.
-/

namespace SpecOverlay

/-- One color for the whole bounds. -/
structure Fill where
  color : Color

namespace Fill

/-- The token of the layer type. -/
def token : String := "fill"

/-- A faint blue. -/
def defaultColor : Color := ⟨0x400091EA⟩

/-- A fill from arguments.  Nothing is required. -/
def ofArguments (args : Arguments) : Except Error Fill := do
  return { color := ← args.color "color" defaultColor }

end Fill
end SpecOverlay
