import Mathlib.Data.List.Forall2
import SpecOverlay.Proofs.Inflation.Run
import SpecOverlay.Proofs.Nesting.Parent

/-!
# The tree of a block

The overlay of a block is a forest of layers.  `forest_of_block` says which one, and
says it about the lines of the block: read in pre-order, its nodes are those created
for the layer lines, one for one and in order, and the parent of each is the last
earlier group line that encloses it (`IsParent`).

What a layer line creates depends on the lines before it, which have declared
variables and shared leaves.  So `layerLines` gives each layer line together with all
lines before it, and `Inflater.Creates` creates its node in the scope and from the
registry that these leave.
-/

namespace SpecOverlay

/-- The layer lines among lines, each with all the lines before it. -/
def layerLines (before : List String) : List String → List (List String × String)
  | [] => []
  | text :: texts =>
    if LineKind.of text = .layer then (before, text) :: layerLines (before ++ [text]) texts
    else layerLines (before ++ [text]) texts

/-- What arrives for a layer line of a block that begins on line `start`: the node
that is created for the line in the scope and from the registry that the lines before
it leave, with the indent of the line. -/
def Inflater.Creates (i : Inflater) (globals : Scope) (start : Nat)
    (layerLine : List String × String) (a : Arrival) : Prop :=
  ∃ p r spec,
    (Progress.start globals).run i.scale i.registry start layerLine.1 = (.ok p, r) ∧
      LayerSpec.ofText p.scope i.scale (start + layerLine.1.length) layerLine.2 = .ok spec ∧
      (r.create spec).1 = .ok a.node ∧ a.indent = LayerSpec.indentOf layerLine.2.toList

theorem LayerSpec.indent_of_ofText {scope : Scope} {scale : Scale} {line : Nat} {text : String}
    {spec : LayerSpec} (h : ofText scope scale line text = .ok spec) :
    spec.indent = indentOf text.toList := by
  rw [ofText] at h
  cases hwords : Text.words text.toList with
  | nil => simp [hwords] at h
  | cons kind words =>
    simp only [hwords] at h
    cases hargs : addArguments scope line (.empty scale) words with
    | error e => simp [hargs, Except.map] at h
    | ok args =>
      rw [hargs, Except.map, Except.ok.injEq] at h
      rw [← h]

namespace Inflater

variable {i : Inflater} {globals : Scope} {start : Nat}

/-- **What a run does to the nesting.**  It attaches, in order, what is created for its
layer lines, and nothing else. -/
theorem nesting_of_run {before texts : List String} {p q : Progress} {r s : Registry}
    (hbefore : (Progress.start globals).run i.scale i.registry start before = (.ok p, r))
    (h : p.run i.scale r (start + before.length) texts = (.ok q, s)) :
    ∃ as, List.Forall₂ (i.Creates globals start) (layerLines before texts) as ∧
      q.nesting = p.nesting.attachAll as := by
  induction texts generalizing before p r with
  | nil =>
    simp only [Progress.run, Prod.mk.injEq, Except.ok.injEq] at h
    exact ⟨[], .nil, by rw [h.1]; rfl⟩
  | cons text texts ih =>
    obtain ⟨result, r', hstep⟩ :
        ∃ result r', p.step i.scale r (start + before.length) text = (result, r') := ⟨_, _, rfl⟩
    cases result with
    | error e =>
      rw [Progress.run_cons_of_error hstep] at h
      exact absurd (congrArg Prod.fst h) (by simp)
    | ok p' =>
      have hnext : (Progress.start globals).run i.scale i.registry start (before ++ [text]) =
          (.ok p', r') := by
        rw [Progress.run_append_of_ok hbefore, Progress.run_cons_of_ok hstep]
        rfl
      have hrest : p'.run i.scale r' (start + (before ++ [text]).length) texts = (.ok q, s) := by
        rw [Progress.run_cons_of_ok hstep] at h
        rw [List.length_append]
        exact h
      obtain ⟨as, has, hnesting⟩ := ih hnext hrest
      rw [layerLines]
      -- only a layer line arrives; the other accepted lines leave the nesting as it is
      cases Progress.advances_of_step hstep with
      | skip kind =>
        rw [if_neg fun hlayer => by simp [hlayer, LineKind.isContent] at kind]
        exact ⟨as, has, hnesting⟩
      | title kind place =>
        rw [if_neg (by simp [kind])]
        exact ⟨as, has, hnesting⟩
      | declaration kind place declared =>
        rw [if_neg (by simp [kind])]
        exact ⟨as, has, hnesting⟩
      | @layer spec node _ kind read created =>
        rw [if_pos kind]
        refine ⟨⟨spec.indent, node⟩ :: as, .cons ?_ has, hnesting⟩
        exact ⟨p, r, spec, hbefore, read, by rw [created], LayerSpec.indent_of_ofText read⟩

/-- **The tree of a block follows from its indents.**  If a block inflates, there are
arrivals, one for each layer line in order, such that the nodes of the overlay in
pre-order are the nodes that arrived, the parent of each is the last group before it
that encloses it, and only groups are parents. -/
theorem forest_of_block {b : Block} {o : Overlay} (h : (i.block globals b).1 = .ok o) :
    ∃ as : List Arrival,
      List.Forall₂ (i.Creates globals b.start) (layerLines [] b.lines) as ∧
      Layer.preorderAll o.layers = as.map Arrival.node ∧
      (Layer.parentsAll none 0 o.layers).length = as.length ∧
      (∀ k p, (Layer.parentsAll none 0 o.layers)[k]? = some p → IsParent as k p) ∧
      ∀ k j : Nat, (Layer.parentsAll none 0 o.layers)[k]? = some (some j) →
        ∃ a, as[j]? = some a ∧ a.node.shape.isGroup = true := by
  obtain ⟨result, s, hrun⟩ : ∃ result s,
      (Progress.start globals).run i.scale i.registry b.start b.lines = (result, s) := ⟨_, _, rfl⟩
  rw [block, hrun] at h
  cases result with
  | error e => exact absurd h (by simp)
  | ok q =>
    have hfinish : q.finish b.start = .ok o := h
    rw [Progress.finish] at hfinish
    split at hfinish
    · exact absurd hfinish (by simp)
    · have hlayers : q.nesting.finish = o.layers := by
        rw [← Except.ok.inj hfinish]
      have hstart : (Progress.start globals).run i.scale i.registry b.start [] =
          (.ok (Progress.start globals), i.registry) := rfl
      obtain ⟨as, has, hnesting⟩ := nesting_of_run hstart hrun
      obtain ⟨hnodes, hlength, hparents⟩ := Nesting.forest_of_arrivals as
      have hforest : (Nesting.empty.attachAll as).finish = o.layers := by
        rw [← hlayers, hnesting]
        rfl
      rw [hforest] at hnodes hlength hparents
      refine ⟨as, has, hnodes, hlength, hparents, fun k j hkj => ?_⟩
      obtain ⟨⟨-, a, -, ha, -, hgroup, -⟩, -⟩ := hparents k (some j) hkj
      exact ⟨a, ha, hgroup⟩

/-- A first line that is indented, a dedent to a column not used before, a line
indented more than a leaf, and a group that is open at the end. -/
theorem forest_of_ragged_block :
    let b : Block := ⟨3, ["    columns count=2", "  rows count=3", "      fill color=#00FF00",
      "   columns count=1", "    fill color=#FF0000", "  // note", " fill color=#0000FF",
      "  rows count=1"]⟩
    let o : Overlay := ⟨none, [.group 0 (.columns ⟨.columns, 2, 0⟩) [],
      .group 1 (.columns ⟨.rows, 3, 0⟩) [.leaf 2 (.fill ⟨⟨0xFF00FF00⟩⟩),
        .group 3 (.columns ⟨.columns, 1, 0⟩) [.leaf 4 (.fill ⟨⟨0xFFFF0000⟩⟩)]],
      .leaf 5 (.fill ⟨⟨0xFF0000FF⟩⟩), .group 6 (.columns ⟨.rows, 1, 0⟩) []]⟩
    let i : Inflater := ⟨.builtIn, ⟨1, 1, 160⟩⟩
    (i.block .empty b).1 = .ok o ∧
      Layer.parentsAll none 0 o.layers = [none, none, some 1, some 1, some 3, none, none] ∧
      ∃ as : List Arrival,
        List.Forall₂ (i.Creates .empty b.start) (layerLines [] b.lines) as ∧
        Layer.preorderAll o.layers = as.map Arrival.node ∧
        ∀ k p, (Layer.parentsAll none 0 o.layers)[k]? = some p → IsParent as k p := by
  intro b o i
  have h : (i.block .empty b).1 = .ok o := rfl
  obtain ⟨as, has, hnodes, -, hparents, -⟩ := forest_of_block h
  exact ⟨h, rfl, as, has, hnodes, hparents⟩

end Inflater
end SpecOverlay
