import SpecOverlay.Nesting
import SpecOverlay.Overlay

/-!
# Layers apart from their identities

Every node has an identity, and a leaf that is shared has the same one in two places.
Nothing but the identity tells whether a leaf was shared.  So two trees are the same
*apart from identities* if they are equal once every identity is set to zero, which is
what `anonymous` does to nodes, layers, nestings and overlays.

* Nesting does not look at identities: `anonymous_attach` and `anonymousAll_finish`.
* Drawing does not look at them either: `Layer.draw_anonymous` and
  `Overlay.draw_anonymous`.
-/

namespace SpecOverlay

/-! ## Forgetting identities -/

/-- A node without its identity. -/
def Node.anonymous (n : Node) : Node :=
  ⟨0, n.shape⟩

mutual

/-- A layer without the identities in it. -/
def Layer.anonymous : Layer → Layer
  | .leaf _ l => .leaf 0 l
  | .group _ g children => .group 0 g (Layer.anonymousAll children)

/-- Several layers without the identities in them. -/
def Layer.anonymousAll : List Layer → List Layer
  | [] => []
  | l :: ls => Layer.anonymous l :: Layer.anonymousAll ls

end

/-- An open group without the identities in it. -/
def OpenGroup.anonymous (g : OpenGroup) : OpenGroup :=
  ⟨g.indent, 0, g.group, Layer.anonymousAll g.children⟩

/-- A nesting without the identities in it. -/
def Nesting.anonymous (n : Nesting) : Nesting :=
  ⟨n.openGroups.map OpenGroup.anonymous, Layer.anonymousAll n.roots⟩

/-- An overlay without the identities in it. -/
def Overlay.anonymous (o : Overlay) : Overlay :=
  ⟨o.title, Layer.anonymousAll o.layers⟩

theorem Node.anonymous_eq_iff {n m : Node} : n.anonymous = m.anonymous ↔ n.shape = m.shape := by
  rw [Node.anonymous, Node.anonymous, Node.mk.injEq]
  exact and_iff_right rfl

namespace Layer

@[simp] theorem anonymous_leaf (id : Nat) (l : Leaf) : (leaf id l).anonymous = leaf 0 l := rfl

@[simp] theorem anonymous_group (id : Nat) (g : Group) (children : List Layer) :
    (group id g children).anonymous = group 0 g (anonymousAll children) := rfl

@[simp] theorem anonymousAll_nil : anonymousAll [] = [] := rfl

@[simp] theorem anonymousAll_cons (l : Layer) (ls : List Layer) :
    anonymousAll (l :: ls) = l.anonymous :: anonymousAll ls := rfl

theorem anonymousAll_concat (ls : List Layer) (l : Layer) :
    anonymousAll (ls ++ [l]) = anonymousAll ls ++ [l.anonymous] := by
  induction ls with
  | nil => rfl
  | cons k ks ih => rw [List.cons_append, anonymousAll_cons, ih, anonymousAll_cons, List.cons_append]

end Layer

/-! ## Nesting -/

namespace Nesting

theorem anonymous_add (layer : Layer) (groups : List OpenGroup) (roots : List Layer) :
    (add layer groups roots).anonymous =
      add layer.anonymous (groups.map OpenGroup.anonymous) (Layer.anonymousAll roots) := by
  cases groups with
  | nil =>
    rw [add, anonymous, Layer.anonymousAll_concat]
    rfl
  | cons g gs =>
    rw [add, anonymous, List.map_cons, OpenGroup.anonymous, Layer.anonymousAll_concat]
    rfl

theorem anonymous_closeFrom (p : Nat → Bool) (g : OpenGroup) (groups : List OpenGroup)
    (roots : List Layer) :
    (closeFrom p g groups roots).anonymous =
      closeFrom p g.anonymous (groups.map OpenGroup.anonymous) (Layer.anonymousAll roots) := by
  induction groups generalizing g with
  | nil =>
    rw [closeFrom, List.map_nil, closeFrom]
    by_cases hp : p g.indent = true
    · rw [if_pos hp, if_pos (show p g.anonymous.indent = true from hp), anonymous,
        Layer.anonymousAll_concat]
      rfl
    · rw [if_neg hp, if_neg (show ¬ p g.anonymous.indent = true from hp)]
      rfl
  | cons h hs ih =>
    rw [closeFrom, List.map_cons, closeFrom]
    by_cases hp : p g.indent = true
    · rw [if_pos hp, if_pos (show p g.anonymous.indent = true from hp), ih, OpenGroup.anonymous,
        Layer.anonymousAll_concat]
      rfl
    · rw [if_neg hp, if_neg (show ¬ p g.anonymous.indent = true from hp)]
      rfl

theorem anonymous_closeWhile (p : Nat → Bool) (groups : List OpenGroup) (roots : List Layer) :
    (closeWhile p groups roots).anonymous =
      closeWhile p (groups.map OpenGroup.anonymous) (Layer.anonymousAll roots) := by
  cases groups with
  | nil => rfl
  | cons g gs => exact anonymous_closeFrom p g gs roots

/-- **Where a layer goes does not depend on identities.** -/
theorem anonymous_attach (n : Nesting) (indent : Nat) (node : Node) :
    (n.attach indent node).anonymous = n.anonymous.attach indent node.anonymous := by
  have hclosed := anonymous_closeWhile (indent ≤ ·) n.openGroups n.roots
  obtain ⟨id, shape⟩ := node
  cases shape with
  | leaf l =>
    show (add (.leaf id l) _ _).anonymous = add (.leaf 0 l) _ _
    rw [anonymous_add]
    exact congrArg (fun c : Nesting => add (.leaf 0 l) c.openGroups c.roots) hclosed
  | group g =>
    exact congrArg (fun c : Nesting => { c with openGroups := ⟨indent, 0, g, []⟩ :: c.openGroups })
      hclosed

/-- The finished roots do not depend on identities. -/
theorem anonymousAll_finish (n : Nesting) :
    Layer.anonymousAll n.finish = n.anonymous.finish :=
  congrArg Nesting.roots (anonymous_closeWhile (fun _ => true) n.openGroups n.roots)

end Nesting

/-! ## Drawing -/

mutual

/-- **What a layer draws does not depend on identities.** -/
theorem Layer.draw_anonymous (bounds : Rect Float32) (canvas : Canvas) :
    ∀ l : Layer, l.anonymous.draw bounds canvas = l.draw bounds canvas
  | .leaf _ l => by
    rw [Layer.anonymous_leaf, Layer.draw, Layer.draw]
  | .group _ (.inset i) children => by
    rw [Layer.anonymous_group, Layer.draw, Layer.draw]
    simp only [Layer.drawAll_anonymous _ _ children]
  | .group _ (.columns c) children => by
    rw [Layer.anonymous_group, Layer.draw, Layer.draw]
    simp only [Layer.drawAll_anonymous _ _ children]

theorem Layer.drawAll_anonymous (bounds : Rect Float32) (canvas : Canvas) :
    ∀ ls : List Layer,
      Layer.drawAll bounds canvas (Layer.anonymousAll ls) = Layer.drawAll bounds canvas ls
  | [] => by
    rw [Layer.anonymousAll_nil]
  | l :: ls => by
    rw [Layer.anonymousAll_cons, Layer.drawAll, Layer.drawAll, Layer.draw_anonymous bounds canvas l,
      Layer.drawAll_anonymous bounds _ ls]

end

theorem Overlay.draw_anonymous (o : Overlay) (bounds : Rect Float32) (canvas : Canvas) :
    o.anonymous.draw bounds canvas = o.draw bounds canvas :=
  Layer.drawAll_anonymous bounds canvas o.layers

end SpecOverlay
