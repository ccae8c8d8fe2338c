import SpecOverlay.Layer

/-!
# Trees of layers, read in order

A finished layer is a tree.  Two lists say everything about a forest of layers:

* `Layer.preorderAll`: its nodes, each before its children and the children first
  to last;
* `Layer.parentsAll`: for each of these nodes, in the same order, the place of its
  parent in the first list, and nothing for a root.

Both are computed from left to right, so a forest that grows at its end only
appends to them (`preorderAll_concat`, `parentsAll_concat`).
-/

namespace SpecOverlay

/-! ## Nodes -/

mutual

/-- The nodes of a layer, each before its children. -/
def Layer.preorder : Layer → List Node
  | .leaf id l => [⟨id, .leaf l⟩]
  | .group id g children => ⟨id, .group g⟩ :: Layer.preorderAll children

/-- The nodes of several layers, those of an earlier layer first. -/
def Layer.preorderAll : List Layer → List Node
  | [] => []
  | l :: ls => Layer.preorder l ++ Layer.preorderAll ls

end

mutual

/-- The places of the parents of a layer's nodes.  The layer itself stands at
`place` and has the given parent. -/
def Layer.parents (parent : Option Nat) (place : Nat) : Layer → List (Option Nat)
  | .leaf _ _ => [parent]
  | .group _ _ children => parent :: Layer.parentsAll (some place) (place + 1) children

/-- The places of the parents of the nodes of several layers with one parent.  The
first layer stands at `place`. -/
def Layer.parentsAll (parent : Option Nat) (place : Nat) : List Layer → List (Option Nat)
  | [] => []
  | l :: ls =>
    Layer.parents parent place l ++
      Layer.parentsAll parent (place + (Layer.preorder l).length) ls

end

namespace Layer

@[simp] theorem preorder_leaf (id : Nat) (l : Leaf) :
    (Layer.leaf id l).preorder = [⟨id, .leaf l⟩] := rfl

@[simp] theorem preorder_group (id : Nat) (g : Group) (children : List Layer) :
    (Layer.group id g children).preorder = ⟨id, .group g⟩ :: preorderAll children := rfl

@[simp] theorem preorderAll_nil : preorderAll [] = [] := rfl

@[simp] theorem preorderAll_cons (l : Layer) (ls : List Layer) :
    preorderAll (l :: ls) = l.preorder ++ preorderAll ls := rfl

@[simp] theorem parents_leaf (parent : Option Nat) (place id : Nat) (l : Leaf) :
    (Layer.leaf id l).parents parent place = [parent] := rfl

@[simp] theorem parents_group (parent : Option Nat) (place id : Nat) (g : Group)
    (children : List Layer) :
    (Layer.group id g children).parents parent place =
      parent :: parentsAll (some place) (place + 1) children := rfl

@[simp] theorem parentsAll_nil (parent : Option Nat) (place : Nat) :
    parentsAll parent place [] = [] := rfl

@[simp] theorem parentsAll_cons (parent : Option Nat) (place : Nat) (l : Layer)
    (ls : List Layer) :
    parentsAll parent place (l :: ls) =
      l.parents parent place ++ parentsAll parent (place + l.preorder.length) ls := rfl

/-! ## Growing at the end -/

theorem preorderAll_concat (ls : List Layer) (l : Layer) :
    preorderAll (ls ++ [l]) = preorderAll ls ++ l.preorder := by
  induction ls with
  | nil => simp
  | cons k ks ih => rw [List.cons_append, preorderAll_cons, ih, preorderAll_cons, List.append_assoc]

theorem parentsAll_concat (parent : Option Nat) (place : Nat) (ls : List Layer) (l : Layer) :
    parentsAll parent place (ls ++ [l]) =
      parentsAll parent place ls ++ l.parents parent (place + (preorderAll ls).length) := by
  induction ls generalizing place with
  | nil => simp
  | cons k ks ih =>
    rw [List.cons_append, parentsAll_cons, ih, parentsAll_cons, preorderAll_cons,
      List.append_assoc, List.length_append, Nat.add_assoc]

end Layer
end SpecOverlay
