import SpecOverlay.Layer

/-!
# Nesting by indentation

Layers arrive one by one with their indents, in the order of their lines.  A layer
belongs to the nearest group before it that is still open and has a smaller
indent; without such a group it is a root.  A group is open until a layer arrives
that is not indented more.

A `Nesting` holds the open groups, innermost first, each with the children it has
so far, and the finished roots.  A group joins its parent when it is closed.  That
keeps children in order, because a later sibling closes the group first.
-/

namespace SpecOverlay

/-- A group that still takes children. -/
structure OpenGroup where
  indent : Nat
  id : Nat
  group : Group
  children : List Layer

/-- The layer that an open group becomes. -/
def OpenGroup.toLayer (g : OpenGroup) : Layer :=
  .group g.id g.group g.children

/-- The open groups, innermost first, and the finished roots. -/
structure Nesting where
  openGroups : List OpenGroup
  roots : List Layer

namespace Nesting

/-- Nothing has arrived. -/
def empty : Nesting :=
  ⟨[], []⟩

/-- The number of open groups. -/
def depth (n : Nesting) : Nat :=
  n.openGroups.length

/-- A finished layer as the last child of the innermost open group, or as the last
root. -/
def add (layer : Layer) : List OpenGroup → List Layer → Nesting
  | [], roots => ⟨[], roots ++ [layer]⟩
  | g :: gs, roots => ⟨{ g with children := g.children ++ [layer] } :: gs, roots⟩

/-- Closes a group and those around it, as long as they satisfy a condition on
their indent. -/
def closeFrom (p : Nat → Bool) (g : OpenGroup) : List OpenGroup → List Layer → Nesting
  | [], roots => if p g.indent then ⟨[], roots ++ [g.toLayer]⟩ else ⟨[g], roots⟩
  | h :: hs, roots =>
    if p g.indent then
      closeFrom p { h with children := h.children ++ [g.toLayer] } hs roots
    else ⟨g :: h :: hs, roots⟩

/-- Closes the innermost groups, as long as they satisfy a condition on their
indent. -/
def closeWhile (p : Nat → Bool) (groups : List OpenGroup) (roots : List Layer) : Nesting :=
  match groups with
  | [] => ⟨[], roots⟩
  | g :: gs => closeFrom p g gs roots

/-- A layer that arrives with an indent. -/
def attach (n : Nesting) (indent : Nat) (node : Node) : Nesting :=
  let closed := closeWhile (indent ≤ ·) n.openGroups n.roots
  match node.shape with
  | .leaf l => add (.leaf node.id l) closed.openGroups closed.roots
  | .group g => { closed with openGroups := ⟨indent, node.id, g, []⟩ :: closed.openGroups }

/-- The roots once every group is closed. -/
def finish (n : Nesting) : List Layer :=
  (closeWhile (fun _ => true) n.openGroups n.roots).roots

end Nesting
end SpecOverlay
