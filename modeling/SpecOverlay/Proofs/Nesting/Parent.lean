import Mathlib.Data.List.TakeWhile
import SpecOverlay.Nesting
import SpecOverlay.Proofs.Layer.Forest

/-!
# Who is whose parent

`Nesting` builds a forest by closing groups: a group joins its parent only when a
later layer closes it.  The forest can be described without any closing.  Number
the layers in the order of their arrival.  Then

* the nodes of the forest in pre-order are the arrivals in order, and
* the parent of an arrival is the last group before it that *encloses* it: one
  that is indented less, while everything that arrived in between is indented more
  than the group (`Encloses`, `IsParent`).

## The invariant

A nesting is read in three ways: the nodes that have arrived, the places of their
parents, and the open groups with their places and indents, innermost first
(`nodes`, `parents`, `stack`).  Closing a group changes neither of the first two,
because the closed group becomes the last child of the next open one; it only
shortens the third.  So an arrival appends one entry to the first two, and the
parent it gets is the place on top of the shortened stack.

What is left is to know the stack.  `Reads` says that it holds exactly the groups
that everything after them is indented more than, that later and more indented
ones come first, and that the parents given so far are right.  One arrival keeps
it (`reads_attach`), and so does a run of arrivals (`reads_attachAll`).
-/

namespace SpecOverlay

/-- A layer that arrives: its indent and the node made for it. -/
structure Arrival where
  indent : Nat
  node : Node

/-! ## The rule -/

/-- Arrival `j` is a group that encloses the later arrival `i`: it is indented less
than `i`, and whatever arrived between the two is indented more than `j`. -/
def Encloses (as : List Arrival) (j i : Nat) : Prop :=
  j < i ∧ ∃ a b, as[j]? = some a ∧ as[i]? = some b ∧ a.node.shape.isGroup = true ∧
    a.indent < b.indent ∧ ∀ k c, j < k → k < i → as[k]? = some c → a.indent < c.indent

/-- The parent of an arrival is the last group that encloses it, and a root has
none. -/
def IsParent (as : List Arrival) (i : Nat) : Option Nat → Prop
  | some j => Encloses as j i ∧ ∀ k, Encloses as k i → k ≤ j
  | none => ∀ j, ¬ Encloses as j i

/-- Arrival `j` is a group of indent `d`, and whatever arrived after it is indented
more. -/
def IsOpen (as : List Arrival) (j d : Nat) : Prop :=
  ∃ a, as[j]? = some a ∧ a.node.shape.isGroup = true ∧ a.indent = d ∧
    ∀ k c, j < k → as[k]? = some c → d < c.indent

theorem IsOpen.lt_length {as : List Arrival} {j d : Nat} (h : IsOpen as j d) : j < as.length := by
  obtain ⟨a, ha, -⟩ := h
  exact (List.getElem?_eq_some_iff.mp ha).1

/-- What encloses an arrival is decided when it arrives. -/
theorem encloses_append {as bs : List Arrival} {j i : Nat} (hi : i < as.length) :
    Encloses (as ++ bs) j i ↔ Encloses as j i := by
  have hget : ∀ k, k ≤ i → (as ++ bs)[k]? = as[k]? := fun k hk =>
    List.getElem?_append_left (Nat.lt_of_le_of_lt hk hi)
  constructor
  · rintro ⟨hji, a, b, ha, hb, hgroup, hlt, hbetween⟩
    rw [hget j (Nat.le_of_lt hji)] at ha
    rw [hget i (Nat.le_refl i)] at hb
    refine ⟨hji, a, b, ha, hb, hgroup, hlt, fun k c hjk hki hc => ?_⟩
    exact hbetween k c hjk hki (by rw [hget k (Nat.le_of_lt hki)]; exact hc)
  · rintro ⟨hji, a, b, ha, hb, hgroup, hlt, hbetween⟩
    refine ⟨hji, a, b, ?_, ?_, hgroup, hlt, fun k c hjk hki hc => ?_⟩
    · rw [hget j (Nat.le_of_lt hji)]
      exact ha
    · rw [hget i (Nat.le_refl i)]
      exact hb
    · rw [hget k (Nat.le_of_lt hki)] at hc
      exact hbetween k c hjk hki hc

theorem isParent_append {as bs : List Arrival} {i : Nat} (hi : i < as.length) (p : Option Nat) :
    IsParent (as ++ bs) i p ↔ IsParent as i p := by
  cases p with
  | none => simp only [IsParent, encloses_append hi]
  | some j => simp only [IsParent, encloses_append hi]

/-- The groups that enclose the next arrival are the open ones indented less. -/
theorem encloses_last_iff {as : List Arrival} {a : Arrival} {j : Nat} :
    Encloses (as ++ [a]) j as.length ↔ ∃ d, IsOpen as j d ∧ d < a.indent := by
  have hget : ∀ k, k < as.length → (as ++ [a])[k]? = as[k]? := fun k hk =>
    List.getElem?_append_left hk
  have hlast : (as ++ [a])[as.length]? = some a := by simp
  constructor
  · rintro ⟨hj, b, c, hb, hc, hgroup, hlt, hbetween⟩
    rw [hget j hj] at hb
    rw [hlast] at hc
    obtain rfl := Option.some.inj hc
    refine ⟨b.indent, ⟨b, hb, hgroup, rfl, fun k c hjk hk => ?_⟩, hlt⟩
    have hkl : k < as.length := (List.getElem?_eq_some_iff.mp hk).1
    exact hbetween k c hjk hkl (by rw [hget k hkl]; exact hk)
  · rintro ⟨d, hopen, hlt⟩
    have hj := hopen.lt_length
    obtain ⟨b, hb, hgroup, rfl, hafter⟩ := hopen
    refine ⟨hj, b, a, ?_, hlast, hgroup, hlt, fun k c hjk hk hc => ?_⟩
    · rw [hget j hj]
      exact hb
    · rw [hget k hk] at hc
      exact hafter k c hjk hc

/-- After one more arrival those groups are open that were open and are indented
less, and the arrival itself if it is a group. -/
theorem isOpen_concat_iff {as : List Arrival} {a : Arrival} {j d : Nat} :
    IsOpen (as ++ [a]) j d ↔
      (IsOpen as j d ∧ d < a.indent) ∨
        (j = as.length ∧ d = a.indent ∧ a.node.shape.isGroup = true) := by
  have hget : ∀ k, k < as.length → (as ++ [a])[k]? = as[k]? := fun k hk =>
    List.getElem?_append_left hk
  have hlast : (as ++ [a])[as.length]? = some a := by simp
  constructor
  · intro h
    have hj : j < as.length + 1 := by simpa using h.lt_length
    obtain ⟨b, hb, hgroup, rfl, hafter⟩ := h
    rcases Nat.lt_succ_iff_lt_or_eq.mp hj with hlt | rfl
    · rw [hget j hlt] at hb
      refine Or.inl ⟨⟨b, hb, hgroup, rfl, fun k c hjk hc => ?_⟩, hafter _ a hlt hlast⟩
      have hk : k < as.length := (List.getElem?_eq_some_iff.mp hc).1
      exact hafter k c hjk (by rw [hget k hk]; exact hc)
    · rw [hlast] at hb
      obtain rfl := Option.some.inj hb
      exact Or.inr ⟨rfl, rfl, hgroup⟩
  · rintro (⟨hopen, hlt⟩ | ⟨rfl, rfl, hgroup⟩)
    · have hj := hopen.lt_length
      obtain ⟨b, hb, hgroup, rfl, hafter⟩ := hopen
      refine ⟨b, by rw [hget j hj]; exact hb, hgroup, rfl, fun k c hjk hc => ?_⟩
      have hk : k < as.length + 1 := by simpa using (List.getElem?_eq_some_iff.mp hc).1
      rcases Nat.lt_succ_iff_lt_or_eq.mp hk with hk | rfl
      · rw [hget k hk] at hc
        exact hafter k c hjk hc
      · rw [hlast] at hc
        rwa [← Option.some.inj hc]
    · refine ⟨a, hlast, hgroup, rfl, fun k c hjk hc => ?_⟩
      have hk : k < as.length + 1 := by simpa using (List.getElem?_eq_some_iff.mp hc).1
      omega

namespace Nesting

/-! ## Three readings of a nesting -/

/-- The nodes of finished roots and of open groups with the children they have so
far, outermost group first. -/
def nodesOf (roots : List Layer) : List OpenGroup → List Node
  | [] => Layer.preorderAll roots
  | g :: gs => nodesOf roots gs ++ ⟨g.id, .group g.group⟩ :: Layer.preorderAll g.children

/-- The open groups, innermost first, each by its place and its indent. -/
def stackOf (roots : List Layer) : List OpenGroup → List (Nat × Nat)
  | [] => []
  | g :: gs => ((nodesOf roots gs).length, g.indent) :: stackOf roots gs

/-- The place of the innermost open group. -/
def innermost (stack : List (Nat × Nat)) : Option Nat :=
  stack.head?.map Prod.fst

/-- The places of the parents of finished roots and of open groups with the
children they have so far. -/
def parentsOf (roots : List Layer) : List OpenGroup → List (Option Nat)
  | [] => Layer.parentsAll none 0 roots
  | g :: gs =>
    parentsOf roots gs ++ innermost (stackOf roots gs) ::
      Layer.parentsAll (some (nodesOf roots gs).length) ((nodesOf roots gs).length + 1) g.children

/-- The nodes that have arrived, in order. -/
def nodes (n : Nesting) : List Node :=
  nodesOf n.roots n.openGroups

/-- The places of the parents of the nodes that have arrived. -/
def parents (n : Nesting) : List (Option Nat) :=
  parentsOf n.roots n.openGroups

/-- The open groups, innermost first, each by its place and its indent. -/
def stack (n : Nesting) : List (Nat × Nat) :=
  stackOf n.roots n.openGroups

/-! ## Closing groups -/

theorem nodes_add (layer : Layer) (groups : List OpenGroup) (roots : List Layer) :
    (add layer groups roots).nodes = (Nesting.mk groups roots).nodes ++ layer.preorder := by
  cases groups with
  | nil => exact Layer.preorderAll_concat roots layer
  | cons g gs => simp [add, nodes, nodesOf, Layer.preorderAll_concat]

theorem stack_add (layer : Layer) (groups : List OpenGroup) (roots : List Layer) :
    (add layer groups roots).stack = (Nesting.mk groups roots).stack := by
  cases groups with
  | nil => rfl
  | cons g gs => rfl

theorem parents_add (layer : Layer) (groups : List OpenGroup) (roots : List Layer) :
    (add layer groups roots).parents =
      (Nesting.mk groups roots).parents ++
        layer.parents (innermost (Nesting.mk groups roots).stack)
          (Nesting.mk groups roots).nodes.length := by
  cases groups with
  | nil =>
    have h := Layer.parentsAll_concat none 0 roots layer
    rw [Nat.zero_add] at h
    exact h
  | cons g gs =>
    have hplace : (nodesOf roots gs).length + 1 + (Layer.preorderAll g.children).length =
        (nodesOf roots (g :: gs)).length := by
      rw [nodesOf, List.length_append, List.length_cons]
      omega
    show parentsOf roots ({ g with children := g.children ++ [layer] } :: gs) =
      parentsOf roots (g :: gs) ++
        layer.parents (some (nodesOf roots gs).length) (nodesOf roots (g :: gs)).length
    rw [parentsOf, parentsOf, Layer.parentsAll_concat, hplace, List.append_assoc,
      List.cons_append]

theorem length_openGroups_add (layer : Layer) (groups : List OpenGroup) (roots : List Layer) :
    (add layer groups roots).openGroups.length = groups.length := by
  cases groups with
  | nil => rfl
  | cons g gs => rfl

/-- To close the innermost open group is to add it to what is below. -/
theorem closeWhile_cons (p : Nat → Bool) (g : OpenGroup) (groups : List OpenGroup)
    (roots : List Layer) :
    closeWhile p (g :: groups) roots =
      if p g.indent then
        closeWhile p (add g.toLayer groups roots).openGroups (add g.toLayer groups roots).roots
      else ⟨g :: groups, roots⟩ := by
  cases groups with
  | nil => rfl
  | cons h hs => rfl

/-- **Closing groups loses no node and changes no parent**, and it takes from the
stack what it closes. -/
theorem readings_closeWhile (p : Nat → Bool) (groups : List OpenGroup) (roots : List Layer) :
    (closeWhile p groups roots).nodes = (Nesting.mk groups roots).nodes ∧
      (closeWhile p groups roots).parents = (Nesting.mk groups roots).parents ∧
      (closeWhile p groups roots).stack =
        (Nesting.mk groups roots).stack.dropWhile fun e => p e.2 := by
  -- the induction is on the number of open groups, since closing one changes the next
  generalize hn : groups.length = n
  induction n generalizing groups roots with
  | zero =>
    obtain rfl := List.length_eq_zero_iff.mp hn
    exact ⟨rfl, rfl, rfl⟩
  | succ n ih =>
    obtain ⟨g, gs, rfl⟩ := List.exists_cons_of_length_eq_add_one hn
    have hstack : (Nesting.mk (g :: gs) roots).stack =
        ((Nesting.mk gs roots).nodes.length, g.indent) :: (Nesting.mk gs roots).stack := rfl
    rw [closeWhile_cons, hstack]
    by_cases hp : p g.indent = true
    · have hlength : (add g.toLayer gs roots).openGroups.length = n := by
        rw [length_openGroups_add]
        exact Nat.succ.inj hn
      obtain ⟨hnodes, hparents, hrest⟩ := ih _ (add g.toLayer gs roots).roots hlength
      rw [if_pos hp, hnodes, hparents, hrest]
      refine ⟨nodes_add g.toLayer gs roots, parents_add g.toLayer gs roots, ?_⟩
      rw [List.dropWhile_cons, if_pos hp]
      exact congrArg _ (stack_add g.toLayer gs roots)
    · rw [if_neg hp, List.dropWhile_cons, if_neg hp]
      exact ⟨rfl, rfl, hstack⟩

/-! ## One arrival -/

/-- The open groups that stay open when a layer arrives with an indent. -/
def stackAbove (n : Nesting) (indent : Nat) : List (Nat × Nat) :=
  n.stack.dropWhile fun e => indent ≤ e.2

/-- **An arrival appends its node, and its parent is the innermost group that stays
open**; if it is a group itself, it is the innermost open one from then on. -/
theorem readings_attach (n : Nesting) (indent : Nat) (node : Node) :
    (n.attach indent node).nodes = n.nodes ++ [node] ∧
      (n.attach indent node).parents = n.parents ++ [innermost (n.stackAbove indent)] ∧
      (n.attach indent node).stack =
        if node.shape.isGroup then (n.nodes.length, indent) :: n.stackAbove indent
        else n.stackAbove indent := by
  obtain ⟨hnodes, hparents, hstack⟩ := readings_closeWhile (indent ≤ ·) n.openGroups n.roots
  obtain ⟨id, shape⟩ := node
  rw [attach]
  generalize closeWhile (indent ≤ ·) n.openGroups n.roots = closed at hnodes hparents hstack
  have hnodes : closed.nodes = n.nodes := hnodes
  have hparents : closed.parents = n.parents := hparents
  have hstack : closed.stack = n.stackAbove indent := hstack
  cases shape with
  | leaf l =>
    refine ⟨?_, ?_, ?_⟩
    · rw [← hnodes]
      exact nodes_add _ _ _
    · rw [← hparents, ← hstack]
      exact parents_add _ _ _
    · rw [← hstack]
      exact stack_add _ _ _
  | group g =>
    rw [← hnodes, ← hparents, ← hstack]
    exact ⟨rfl, rfl, rfl⟩

/-- The layers that arrive one after another. -/
def attachAll (n : Nesting) (as : List Arrival) : Nesting :=
  as.foldl (fun n a => n.attach a.indent a.node) n

/-! ## The invariant -/

/-- A nesting that holds the given arrivals: it has their nodes in order and knows
their parents, and the groups on its stack are those that are open, the later and
more indented ones first. -/
structure Reads (n : Nesting) (as : List Arrival) : Prop where
  nodes_eq : n.nodes = as.map Arrival.node
  length_parents : n.parents.length = as.length
  isParent : ∀ i p, n.parents[i]? = some p → IsParent as i p
  mem_stack : ∀ e, e ∈ n.stack ↔ IsOpen as e.1 e.2
  descending : n.stack.Pairwise fun e f => f.1 < e.1 ∧ f.2 < e.2

theorem reads_empty : empty.Reads [] where
  nodes_eq := rfl
  length_parents := rfl
  isParent i p h := absurd h (by simp [parents, parentsOf, empty])
  mem_stack e := by
    constructor
    · intro h
      exact absurd h List.not_mem_nil
    · intro h
      exact absurd h.lt_length (Nat.not_lt_zero _)
  descending := List.Pairwise.nil

/-- On a descending stack the groups that stay open are those indented less. -/
theorem mem_stackAbove {n : Nesting} {as : List Arrival} (h : n.Reads as) {indent : Nat}
    {e : Nat × Nat} : e ∈ n.stackAbove indent ↔ IsOpen as e.1 e.2 ∧ e.2 < indent := by
  rw [← h.mem_stack, stackAbove]
  have hdesc := h.descending
  generalize n.stack = stack at hdesc
  induction stack with
  | nil => simp
  | cons f fs ih =>
    obtain ⟨hf, hfs⟩ := List.pairwise_cons.mp hdesc
    by_cases hle : indent ≤ f.2
    · rw [List.dropWhile_cons_of_pos (by simpa using hle), List.mem_cons]
      refine (ih hfs).trans ?_
      constructor
      · rintro ⟨he, hlt⟩
        exact ⟨Or.inr he, hlt⟩
      · rintro ⟨rfl | he, hlt⟩
        · omega
        · exact ⟨he, hlt⟩
    · rw [List.dropWhile_cons_of_neg (by simpa using hle)]
      refine ⟨fun he => ⟨he, ?_⟩, And.left⟩
      rcases List.mem_cons.mp he with rfl | he
      · omega
      · have := (hf e he).2
        omega

/-- The innermost group that stays open is the parent of what arrives. -/
theorem isParent_innermost {n : Nesting} {as : List Arrival} (h : n.Reads as) (a : Arrival) :
    IsParent (as ++ [a]) as.length (innermost (n.stackAbove a.indent)) := by
  have hmem : ∀ j, Encloses (as ++ [a]) j as.length ↔ ∃ d, (j, d) ∈ n.stackAbove a.indent :=
    fun j => encloses_last_iff.trans
      (exists_congr fun d => (mem_stackAbove (e := (j, d)) h).symm)
  have hdesc : (n.stackAbove a.indent).Pairwise fun e f => f.1 < e.1 ∧ f.2 < e.2 :=
    h.descending.sublist (List.dropWhile_sublist _)
  rw [innermost]
  cases hstack : n.stackAbove a.indent with
  | nil =>
    intro j hj
    obtain ⟨d, hd⟩ := (hmem j).mp hj
    rw [hstack] at hd
    exact List.not_mem_nil hd
  | cons f fs =>
    rw [hstack] at hmem hdesc
    refine ⟨(hmem f.1).mpr ⟨f.2, List.mem_cons_self⟩, fun k hk => ?_⟩
    obtain ⟨d, hd⟩ := (hmem k).mp hk
    rcases List.mem_cons.mp hd with heq | hd
    · exact Nat.le_of_eq (congrArg Prod.fst heq)
    · exact Nat.le_of_lt ((List.pairwise_cons.mp hdesc).1 _ hd).1

/-- **One arrival keeps the invariant.** -/
theorem reads_attach {n : Nesting} {as : List Arrival} (h : n.Reads as) (a : Arrival) :
    (n.attach a.indent a.node).Reads (as ++ [a]) := by
  obtain ⟨hnodes, hparents, hstack⟩ := readings_attach n a.indent a.node
  have hlength : n.nodes.length = as.length := by rw [h.nodes_eq, List.length_map]
  have hdesc : (n.stackAbove a.indent).Pairwise fun e f => f.1 < e.1 ∧ f.2 < e.2 :=
    h.descending.sublist (List.dropWhile_sublist _)
  refine ⟨?_, ?_, ?_, ?_, ?_⟩
  · rw [hnodes, h.nodes_eq, List.map_append]
    rfl
  · rw [hparents, List.length_append, List.length_append, h.length_parents]
    rfl
  · intro i p hp
    rw [hparents] at hp
    rcases Nat.lt_or_ge i as.length with hi | hi
    · rw [List.getElem?_append_left (by rw [h.length_parents]; exact hi)] at hp
      exact (isParent_append hi p).mpr (h.isParent i p hp)
    · have hi' : i < as.length + 1 := by
        have := (List.getElem?_eq_some_iff.mp hp).1
        rwa [List.length_append, h.length_parents] at this
      obtain rfl : i = as.length := by omega
      rw [← h.length_parents, List.getElem?_concat_length] at hp
      rw [← Option.some.inj hp]
      exact isParent_innermost h a
  · intro e
    rw [hstack, isOpen_concat_iff, ← mem_stackAbove h]
    split
    · rename_i hgroup
      rw [List.mem_cons, hlength, Prod.ext_iff]
      simp [hgroup, or_comm]
    · rename_i hleaf
      simp [hleaf]
  · rw [hstack]
    split
    · refine List.pairwise_cons.mpr ⟨fun e he => ?_, hdesc⟩
      obtain ⟨hopen, hlt⟩ := (mem_stackAbove h).mp he
      exact ⟨by rw [hlength]; exact hopen.lt_length, hlt⟩
    · exact hdesc

/-- **Any run of arrivals keeps the invariant.** -/
theorem reads_attachAll {n : Nesting} {as : List Arrival} (h : n.Reads as) (bs : List Arrival) :
    (n.attachAll bs).Reads (as ++ bs) := by
  induction bs generalizing n as with
  | nil => simpa [attachAll] using h
  | cons b bs ih =>
    have hstep := ih (reads_attach h b)
    rwa [List.append_assoc] at hstep

/-! ## The finished forest -/

theorem openGroups_finish (groups : List OpenGroup) (roots : List Layer) :
    (closeWhile (fun _ => true) groups roots).openGroups = [] := by
  obtain ⟨-, -, hstack⟩ := readings_closeWhile (fun _ => true) groups roots
  have hnil : (closeWhile (fun _ => true) groups roots).stack = [] := by
    rw [hstack, List.dropWhile_eq_nil_iff]
    exact fun _ _ => rfl
  cases hgroups : (closeWhile (fun _ => true) groups roots).openGroups with
  | nil => rfl
  | cons g gs =>
    rw [stack, hgroups] at hnil
    exact absurd hnil (List.cons_ne_nil _ _)

/-- Closing all groups at the end loses no node and changes no parent. -/
theorem readings_finish (n : Nesting) :
    Layer.preorderAll n.finish = n.nodes ∧ Layer.parentsAll none 0 n.finish = n.parents := by
  obtain ⟨hnodes, hparents, -⟩ := readings_closeWhile (fun _ => true) n.openGroups n.roots
  rw [nodes, openGroups_finish] at hnodes
  rw [parents, openGroups_finish] at hparents
  exact ⟨hnodes, hparents⟩

/-- **The forest of any sequence of arrivals.**  Its nodes in pre-order are the
arrivals in order, and the parent of each is the last group that encloses it. -/
theorem forest_of_arrivals (as : List Arrival) :
    Layer.preorderAll (empty.attachAll as).finish = as.map Arrival.node ∧
      (Layer.parentsAll none 0 (empty.attachAll as).finish).length = as.length ∧
      ∀ i p, (Layer.parentsAll none 0 (empty.attachAll as).finish)[i]? = some p →
        IsParent as i p := by
  have h := reads_attachAll reads_empty as
  obtain ⟨hnodes, hparents⟩ := readings_finish (empty.attachAll as)
  rw [hnodes, hparents]
  exact ⟨h.nodes_eq, h.length_parents, h.isParent⟩

end Nesting
end SpecOverlay
