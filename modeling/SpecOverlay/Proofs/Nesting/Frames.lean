import SpecOverlay.Overlay
import SpecOverlay.Proofs.Inflation.Indents
import SpecOverlay.Proofs.Nesting.Parent

/-!
# One stack of frames

The open groups and the overlay they are built into can be kept on one stack.  The bottom
frame holds the overlay, at indent -1, and every other frame holds an open group.  A
`FrameStack` as such may look otherwise: it may be empty, and an overlay may lie anywhere.
So its operations have a case for what should not occur:

* `add`, and with it `attach`, has no result on an empty stack;
* `pop` drops a frame that holds no group, and what it holds is lost;
* `finish` falls back to an overlay without layers if what is left holds no overlay.

`shape_of_run` says that none of these cases is ever reached.  Whatever arrives, the stack
has its shape (`Shaped`), and `finish` hands out the overlay of the bottom frame with the
open groups attached, each as the last child of the one around it (`OpenGroup.nest`).

## Indents as words

An indent arrives as a word of 64 bits without a sign, and a frame keeps it with one
(`signed`).  From `2 ^ 63` on that makes it negative.  Then a group may lie on the overlay at
the same indent or at a smaller one, so the indents need not increase from the bottom frame on
(`not_increasing_of_largest`).  They do if no indent is that large.

The groups among themselves keep their order all the same, since nothing but comparisons is
done with their indents.  That is why a `Nesting` still writes every such stack
(`Nesting.frames`), if it counts indents from the least number with a sign (`rank`).  Popping,
attaching and finishing are the same on both sides (`pop_frames`, `attach_frames`,
`finish_frames`), and to count from elsewhere makes no difference where nothing wraps
(`attachAll_ranked`).
-/

namespace SpecOverlay

/-! ## Frames -/

/-- What a frame holds: the overlay that is built, or an open group with the children it
has so far. -/
inductive Holder where
  | overlay (o : Overlay)
  | group (id : Nat) (g : Group) (children : List Layer)

namespace Holder

/-- A layer as the last one of what is held. -/
def add (layer : Layer) : Holder → Holder
  | overlay o => overlay { o with layers := o.layers ++ [layer] }
  | group id g children => group id g (children ++ [layer])

/-- The layer that a group becomes when it is closed. -/
def toLayer? : Holder → Option Layer
  | overlay _ => none
  | group id g children => some (.group id g children)

end Holder

/-- What is held, and the indent that a layer has to exceed to belong to it. -/
structure Frame where
  indent : Int
  holder : Holder

/-- Whether a frame holds an open group. -/
def Frame.isGroup (f : Frame) : Bool :=
  f.holder.toLayer?.isSome

/-- Frames, the top one first. -/
abbrev FrameStack := List Frame

namespace FrameStack

/-- Nothing has arrived: an overlay without title and layers. -/
def start : FrameStack :=
  [⟨-1, .overlay ⟨none, []⟩⟩]

/-- The number of frames above the bottom one. -/
def depth (s : FrameStack) : Nat :=
  s.length - 1

/-- A finished layer goes to the top frame, if there is one. -/
def add (layer : Layer) : FrameStack → Option FrameStack
  | [] => none
  | f :: fs => some ({ f with holder := f.holder.add layer } :: fs)

/-- Pops a frame and those below it, as long as a frame is left and their indent is not
below a limit.  A popped group is added to the frame below it, and what else is popped is
dropped. -/
def popFrom (limit : Int) (f : Frame) : List Frame → FrameStack
  | [] => [f]
  | g :: fs =>
    if f.indent < limit then f :: g :: fs
    else
      match f.holder.toLayer? with
      | some layer => popFrom limit { g with holder := g.holder.add layer } fs
      | none => popFrom limit g fs

/-- Pops frames from the top, as long as one is left and their indent is not below a
limit. -/
def pop (limit : Int) : FrameStack → FrameStack
  | [] => []
  | f :: fs => popFrom limit f fs

/-- A word of 64 bits, read with a sign. -/
def signed (indent : Nat) : Int :=
  (BitVec.ofNat 64 indent).toInt

/-- A layer that arrives with an indent. -/
def attach (s : FrameStack) (indent : Nat) (node : Node) : Option FrameStack :=
  match node.shape with
  | .leaf l => (s.pop (signed indent)).add (.leaf node.id l)
  | .group g => some (⟨signed indent, .group node.id g []⟩ :: s.pop (signed indent))

/-- The layers that arrive one after another on the stack of a new overlay. -/
def run (as : List Arrival) : Option FrameStack :=
  as.foldlM (fun s a => s.attach a.indent a.node) start

/-- The least signed number of 64 bits. -/
def lowest : Int :=
  -0x8000000000000000

/-- The overlay on top once every frame that can be popped is popped. -/
def overlay? (s : FrameStack) : Option Overlay :=
  match s.pop lowest with
  | ⟨_, .overlay o⟩ :: _ => some o
  | _ => none

/-- The finished overlay, with its title; an overlay without layers if the stack does not
leave one. -/
def finish (s : FrameStack) (title : Option String) : Overlay :=
  { s.overlay?.getD ⟨none, []⟩ with title }

/-- The indents increase from the bottom frame to the top one. -/
def Increasing (s : FrameStack) : Prop :=
  s.Pairwise fun f g => g.indent < f.indent

/-- The shape of a stack: an overlay at indent -1 at the bottom, open groups above it, and
indents of the groups that increase to the top. -/
structure Shaped (s : FrameStack) : Prop where
  bottom : ∃ o, s.getLast? = some ⟨-1, .overlay o⟩
  groups : ∀ f ∈ s.dropLast, f.isGroup = true
  increasing : Increasing s.dropLast

theorem Shaped.ne_nil {s : FrameStack} (h : s.Shaped) : s ≠ [] := by
  rintro rfl
  obtain ⟨o, ho⟩ := h.bottom
  exact absurd ho (by simp)

/-- On a stack with its shape, the depth is the number of open groups. -/
theorem Shaped.depth_eq {s : FrameStack} (h : s.Shaped) : s.depth = s.countP Frame.isGroup := by
  obtain ⟨o, ho⟩ := h.bottom
  obtain ⟨fs, rfl⟩ := List.getLast?_eq_some_iff.mp ho
  have hgroups := h.groups
  rw [List.dropLast_concat] at hgroups
  rw [depth, List.countP_append, List.countP_eq_length.mpr hgroups, List.length_append]
  rfl

/-! ## Indents counted from the least number -/

/-- An indent, counted from the least signed number. -/
def rank (indent : Nat) : Nat :=
  (signed indent - lowest).toNat

theorem rank_add_lowest (indent : Nat) : rank indent + lowest = signed indent := by
  have hleast := BitVec.le_two_mul_toInt (x := BitVec.ofNat 64 indent)
  rw [← signed] at hleast
  rw [rank, lowest]
  omega

/-- An indent that fits is the same number with a sign. -/
theorem rank_of_lt {indent : Nat} (h : indent < 0x8000000000000000) :
    rank indent = indent + 0x8000000000000000 := by
  have hnat : (BitVec.ofNat 64 indent).toNat = indent := by
    rw [BitVec.toNat_ofNat, Nat.mod_eq_of_lt (by omega)]
  have hsame : signed indent = indent := by
    rw [signed, BitVec.toInt_eq_toNat_of_lt (by omega), hnat]
  rw [rank, hsame, lowest]
  omega

end FrameStack

/-- The same arrival, with its indent counted from the least signed number. -/
def Arrival.ranked (a : Arrival) : Arrival :=
  { a with indent := FrameStack.rank a.indent }

/-! ## A nesting as a stack -/

/-- The frame of an open group whose indent is counted from the least signed number. -/
def OpenGroup.frame (g : OpenGroup) : Frame :=
  ⟨g.indent + FrameStack.lowest, .group g.id g.group g.children⟩

/-- The layers that open groups become, outermost first: each group has the next one as
its last child. -/
def OpenGroup.nest : List OpenGroup → List Layer
  | [] => []
  | g :: inner => [.group g.id g.group (g.children ++ nest inner)]

namespace Nesting

/-- The stack with the open groups of a nesting, above an overlay with its roots. -/
def frames (n : Nesting) : FrameStack :=
  n.openGroups.map OpenGroup.frame ++ [⟨-1, .overlay ⟨none, n.roots⟩⟩]

theorem frames_empty : empty.frames = FrameStack.start := rfl

theorem add_frames (layer : Layer) (n : Nesting) :
    n.frames.add layer = some (add layer n.openGroups n.roots).frames := by
  obtain ⟨_ | ⟨g, gs⟩, roots⟩ := n <;> rfl

theorem depth_frames (n : Nesting) : n.frames.depth = n.depth := by
  rw [FrameStack.depth, frames, List.length_append, List.length_map]
  rfl

/-! ## Popping -/

theorem popFrom_frame (limit : Int) (g : OpenGroup) (groups : List OpenGroup)
    (roots : List Layer) :
    FrameStack.popFrom limit g.frame (Nesting.mk groups roots).frames =
      (closeFrom (fun d => limit ≤ d + FrameStack.lowest) g groups roots).frames := by
  induction groups generalizing g with
  | nil =>
    rw [closeFrom]
    by_cases hlt : g.indent + FrameStack.lowest < limit
    · rw [if_neg (by simpa using hlt)]
      exact if_pos hlt
    · rw [if_pos (by simpa using hlt)]
      exact if_neg hlt
  | cons h hs ih =>
    rw [closeFrom]
    by_cases hlt : g.indent + FrameStack.lowest < limit
    · rw [if_neg (by simpa using hlt)]
      exact if_pos hlt
    · rw [if_pos (by simpa using hlt), ← ih]
      exact if_neg hlt

/-- **A pop closes groups**: those that are not indented less than the limit. -/
theorem pop_frames (limit : Int) (n : Nesting) :
    n.frames.pop limit =
      (closeWhile (fun d => limit ≤ d + FrameStack.lowest) n.openGroups n.roots).frames := by
  obtain ⟨_ | ⟨g, gs⟩, roots⟩ := n
  · rfl
  · exact popFrom_frame limit g gs roots

/-! ## Arrivals -/

/-- **An arrival does the same to the stack and to the nesting**, if that counts its indent from
the least signed number. -/
theorem attach_frames (n : Nesting) (indent : Nat) (node : Node) :
    n.frames.attach indent node = some (n.attach (FrameStack.rank indent) node).frames := by
  have hpop : n.frames.pop (FrameStack.signed indent) =
      (closeWhile (FrameStack.rank indent ≤ ·) n.openGroups n.roots).frames := by
    rw [pop_frames, ← FrameStack.rank_add_lowest]
    simp only [Int.add_le_add_iff_right, Int.ofNat_le]
  rw [FrameStack.attach, attach, hpop]
  cases node.shape with
  | leaf l => exact add_frames _ _
  | group g => rw [← FrameStack.rank_add_lowest]; rfl

/-- So do any arrivals. -/
theorem run_frames (as : List Arrival) :
    FrameStack.run as = some (empty.attachAll (as.map Arrival.ranked)).frames := by
  have hrun : ∀ n : Nesting, as.foldlM (fun s a => FrameStack.attach s a.indent a.node) n.frames =
      some (n.attachAll (as.map Arrival.ranked)).frames := by
    induction as with
    | nil => exact fun n => rfl
    | cons a as ih =>
      intro n
      rw [List.foldlM_cons, attach_frames]
      exact ih _
  rw [FrameStack.run, ← frames_empty]
  exact hrun empty

/-! ## The shape -/

theorem indents_eq (groups : List OpenGroup) (roots : List Layer) :
    (Nesting.mk groups roots).stack.map Prod.snd = groups.map OpenGroup.indent := by
  induction groups with
  | nil => rfl
  | cons g gs ih => exact congrArg (g.indent :: ·) ih

/-- The stack has its shape if the open groups are indented more, the further inside they
are. -/
theorem shaped_frames {n : Nesting} (h : n.stack.Pairwise fun e f => f.2 < e.2) :
    n.frames.Shaped where
  bottom := ⟨⟨none, n.roots⟩, List.getLast?_concat⟩
  groups f hf := by
    rw [frames, List.dropLast_concat, List.mem_map] at hf
    obtain ⟨g, -, rfl⟩ := hf
    rfl
  increasing := by
    have hindents : n.openGroups.Pairwise fun g h => h.indent < g.indent := by
      rw [← List.pairwise_map (f := OpenGroup.indent) (R := fun a b => b < a),
        ← indents_eq n.openGroups n.roots, List.pairwise_map]
      exact h
    rw [frames, List.dropLast_concat, FrameStack.Increasing, List.pairwise_map]
    exact hindents.imp fun hlt => Int.add_lt_add_right (Int.ofNat_lt.mpr hlt) _

/-- A pop keeps the shape: it takes open groups from the inside, and those that stay are
indented as before. -/
theorem shaped_pop_frames {n : Nesting} (h : n.stack.Pairwise fun e f => f.2 < e.2)
    (limit : Int) : (n.frames.pop limit).Shaped := by
  obtain ⟨-, -, hstack⟩ :=
    readings_closeWhile (fun d => limit ≤ d + FrameStack.lowest) n.openGroups n.roots
  rw [pop_frames]
  refine shaped_frames ?_
  rw [hstack]
  exact h.sublist (List.dropWhile_sublist _)

/-- Whatever arrives, the open groups are indented more, the further inside they are. -/
theorem descending_attachAll (as : List Arrival) :
    (empty.attachAll as).stack.Pairwise fun e f => f.2 < e.2 :=
  (reads_attachAll reads_empty as).descending.imp And.right

/-! ## Indents that fit -/

theorem reindent_attachAll {f : Nat → Nat} (hf : StrictMono f) (n : Nesting) (as : List Arrival) :
    (n.attachAll as).reindent f =
      (n.reindent f).attachAll (as.map fun a => { a with indent := f a.indent }) := by
  induction as generalizing n with
  | nil => rfl
  | cons a as ih =>
    rw [List.map_cons]
    exact (ih _).trans (congrArg (attachAll · _) (reindent_attach hf n a.indent a.node))

/-- **Where nothing wraps, only the indents of the open groups are counted otherwise.** -/
theorem attachAll_ranked {as : List Arrival} (h : ∀ a ∈ as, a.indent < 0x8000000000000000) :
    empty.attachAll (as.map Arrival.ranked) =
      (empty.attachAll as).reindent (· + 0x8000000000000000) := by
  have hranked : as.map Arrival.ranked =
      as.map fun a => { a with indent := a.indent + 0x8000000000000000 } :=
    List.map_congr_left fun a ha => by rw [Arrival.ranked, FrameStack.rank_of_lt (h a ha)]
  rw [hranked, reindent_attachAll fun _ _ hlt => Nat.add_lt_add_right hlt _]
  rfl

/-- There the indents increase from the bottom frame on. -/
theorem increasing_frames_reindent {n : Nesting}
    (h : (n.reindent (· + 0x8000000000000000)).frames.Shaped) :
    (n.reindent (· + 0x8000000000000000)).frames.Increasing := by
  have hgroups := h.increasing
  rw [frames, List.dropLast_concat] at hgroups
  rw [frames, FrameStack.Increasing, List.pairwise_append]
  refine ⟨hgroups, List.pairwise_singleton _ _, fun f hf b hb => ?_⟩
  obtain ⟨g', hg', rfl⟩ := List.mem_map.mp hf
  obtain ⟨g, -, rfl⟩ := List.mem_map.mp hg'
  rw [List.mem_singleton.mp hb]
  show (-1 : Int) < (g.indent + 0x8000000000000000 : Nat) + FrameStack.lowest
  rw [FrameStack.lowest]
  omega

/-! ## The end -/

/-- To close the innermost group into the next one makes no difference to the layers that
the groups become. -/
theorem nest_concat (groups : List OpenGroup) (h g : OpenGroup) :
    OpenGroup.nest (groups ++ [{ h with children := h.children ++ [g.toLayer] }]) =
      OpenGroup.nest (groups ++ [h, g]) := by
  induction groups with
  | nil => simp [OpenGroup.nest, OpenGroup.toLayer]
  | cons k ks ih => simp only [List.cons_append, OpenGroup.nest, ih]

/-- To close all groups is to add the outermost one, with those inside it, to the roots. -/
theorem roots_closeFrom (g : OpenGroup) (groups : List OpenGroup) (roots : List Layer) :
    (closeFrom (fun _ => true) g groups roots).roots =
      roots ++ OpenGroup.nest (g :: groups).reverse := by
  induction groups generalizing g with
  | nil => simp [closeFrom, OpenGroup.nest, OpenGroup.toLayer]
  | cons h hs ih =>
    rw [closeFrom, if_pos rfl, ih, List.reverse_cons, nest_concat, List.reverse_cons,
      List.reverse_cons, List.append_assoc]
    rfl

theorem finish_eq (n : Nesting) : n.finish = n.roots ++ OpenGroup.nest n.openGroups.reverse := by
  obtain ⟨_ | ⟨g, gs⟩, roots⟩ := n
  · exact (List.append_nil roots).symm
  · exact roots_closeFrom g gs roots

/-- Groups may be closed before the end. -/
theorem finish_closeWhile (p : Nat → Bool) (n : Nesting) :
    (closeWhile p n.openGroups n.roots).finish = n.finish := by
  obtain ⟨_ | ⟨g, gs⟩, roots⟩ := n
  · rfl
  · show (closeFrom p g gs roots).finish = (closeFrom (fun _ => true) g gs roots).roots
    induction gs generalizing g with
    | nil =>
      rw [closeFrom]
      split <;> rfl
    | cons h hs ih =>
      rw [closeFrom]
      split
      · exact ih _
      · rfl

/-- **Popping all frames leaves the overlay**, so the fallback is not reached. -/
theorem overlay?_frames (n : Nesting) : n.frames.overlay? = some ⟨none, n.finish⟩ := by
  have hall : (fun d : Nat => decide (FrameStack.lowest ≤ d + FrameStack.lowest)) =
      fun _ => true := by
    funext d
    rw [decide_eq_true_eq]
    omega
  rw [FrameStack.overlay?, pop_frames, hall, frames, openGroups_finish]
  rfl

/-- A pop loses nothing of the overlay. -/
theorem overlay?_pop_frames (limit : Int) (n : Nesting) :
    (n.frames.pop limit).overlay? = n.frames.overlay? := by
  rw [pop_frames, overlay?_frames, overlay?_frames, finish_closeWhile]

theorem finish_frames (n : Nesting) (title : Option String) :
    n.frames.finish title = ⟨title, n.finish⟩ := by
  rw [FrameStack.finish, overlay?_frames]
  rfl

end Nesting

namespace FrameStack

/-- **The stack keeps its shape.**  Whatever arrives on the stack of a new overlay:

* every arrival has a result, and the stack that results has its shape;
* its depth is the number of open groups;
* no pop empties it, whatever the limit; the shape stays, and so does the overlay that is
  left at the end;
* an overlay is left at the end: the one of the bottom frame, followed by the open groups,
  each with the next one as its last child.  It has the nodes that arrived, in order;
* if no indent is `2 ^ 63` or more, the indents increase from the bottom frame on, and the
  stack has the depth and the finished layers of the nesting that the same arrivals give. -/
theorem shape_of_run (as : List Arrival) :
    ∃ (s : FrameStack) (groups : List OpenGroup) (roots : List Layer),
      run as = some s ∧
      s = groups.map OpenGroup.frame ++ [⟨-1, .overlay ⟨none, roots⟩⟩] ∧
      s.Shaped ∧
      s.depth = s.countP Frame.isGroup ∧
      (∀ limit, s.pop limit ≠ [] ∧ (s.pop limit).Shaped ∧ (s.pop limit).overlay? = s.overlay?) ∧
      s.overlay? = some ⟨none, roots ++ OpenGroup.nest groups.reverse⟩ ∧
      (∀ title, s.finish title = ⟨title, roots ++ OpenGroup.nest groups.reverse⟩) ∧
      Layer.preorderAll (roots ++ OpenGroup.nest groups.reverse) = as.map Arrival.node ∧
      ((∀ a ∈ as, a.indent < 0x8000000000000000) →
        s.Increasing ∧
        s.depth = (Nesting.empty.attachAll as).depth ∧
        roots ++ OpenGroup.nest groups.reverse = (Nesting.empty.attachAll as).finish) := by
  obtain ⟨n, hn⟩ : ∃ n, n = Nesting.empty.attachAll (as.map Arrival.ranked) := ⟨_, rfl⟩
  have hdesc := hn ▸ Nesting.descending_attachAll (as.map Arrival.ranked)
  have hnodes := hn ▸ (Nesting.forest_of_arrivals (as.map Arrival.ranked)).1
  rw [List.map_map] at hnodes
  have hshape := Nesting.shaped_frames hdesc
  have hpop := Nesting.shaped_pop_frames hdesc
  refine ⟨n.frames, n.openGroups, n.roots, hn ▸ Nesting.run_frames as, rfl, hshape,
    hshape.depth_eq,
    fun limit => ⟨(hpop limit).ne_nil, hpop limit, n.overlay?_pop_frames limit⟩, ?_⟩
  rw [← Nesting.finish_eq]
  refine ⟨n.overlay?_frames, n.finish_frames, hnodes, fun hfits => ?_⟩
  obtain rfl := hn.trans (Nesting.attachAll_ranked hfits)
  refine ⟨Nesting.increasing_frames_reindent hshape, ?_, Nesting.finish_reindent _⟩
  rw [Nesting.depth_frames]
  exact List.length_map _

/-- One group with the indent 0 and one with the indent 1, and a leaf with the indent 3. -/
def nestedArrivals : List Arrival :=
  [⟨0, ⟨0, .group (.columns ⟨.columns, 4, 0⟩)⟩⟩, ⟨1, ⟨1, .group (.columns ⟨.rows, 2, 0⟩)⟩⟩,
    ⟨3, ⟨2, .leaf (.fill ⟨Fill.defaultColor⟩)⟩⟩]

theorem increasing_of_nestedArrivals :
    (∀ a ∈ nestedArrivals, a.indent < 0x8000000000000000) ∧
      ∃ s, run nestedArrivals = some s ∧ s.Increasing ∧ s.depth = 2 := by
  have hfits : ∀ a ∈ nestedArrivals, a.indent < 0x8000000000000000 := by decide
  obtain ⟨s, _, _, hrun, -, -, -, -, -, -, -, hsame⟩ := shape_of_run nestedArrivals
  obtain ⟨hincreasing, hdepth, -⟩ := hsame hfits
  exact ⟨hfits, s, hrun, hincreasing, hdepth⟩

/-- The largest word without a sign. -/
def largest : Nat :=
  0xFFFFFFFFFFFFFFFF

/-- A group, and a leaf that is indented as far as a word can say. -/
def largestArrivals : List Arrival :=
  [⟨0, ⟨0, .group (.columns ⟨.columns, 4, 0⟩)⟩⟩, ⟨largest, ⟨1, .leaf (.fill ⟨Fill.defaultColor⟩)⟩⟩]

/-- **The indents need not increase from the bottom frame on.**  A group with the largest indent
lies at -1, as the overlay below it does.  A leaf with that indent closes the group that is open
and goes to the overlay. -/
theorem not_increasing_of_largest :
    ¬ (∀ as : List Arrival, (∀ a ∈ as, a.indent ≤ largest) →
        ∃ s, run as = some s ∧ s.Increasing) ∧
      (run largestArrivals).map depth = some 0 ∧
      (run largestArrivals).bind overlay? = some ⟨none,
        [.group 0 (.columns ⟨.columns, 4, 0⟩) [], .leaf 1 (.fill ⟨Fill.defaultColor⟩)]⟩ := by
  refine ⟨fun h => ?_, rfl, rfl⟩
  have hrun : run [⟨largest, ⟨0, .group (.columns ⟨.columns, 4, 0⟩)⟩⟩] =
      some [⟨-1, .group 0 (.columns ⟨.columns, 4, 0⟩) []⟩, ⟨-1, .overlay ⟨none, []⟩⟩] := rfl
  obtain ⟨s, hs, hincreasing⟩ := h [⟨largest, ⟨0, .group (.columns ⟨.columns, 4, 0⟩)⟩⟩]
    (by simp)
  obtain rfl := Option.some.inj (hrun.symm.trans hs)
  exact absurd (List.rel_of_pairwise_cons hincreasing List.mem_cons_self) (Int.lt_irrefl (-1))

end FrameStack

end SpecOverlay
