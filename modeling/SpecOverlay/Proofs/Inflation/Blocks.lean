import SpecOverlay.Proofs.Inflation.Run

/-!
# A document is its blocks, one by one

The lines of a block can be inflated as an overlay of their own, with the variables of
the document in force.  `document_of_overlays` says that a document is no more than
that, done block after block on one inflater: it gives what the overlays give and
leaves what they leave.  If one of them fails, so does the document, with the same cause
and with the line counted from the start of the document, and no later block is looked
at.

The two differ in the numbers of their lines alone.  A number that is larger by `d`
makes the line of the error larger by `d` and changes nothing else, for a line, for a
run and for a block (`step_shift`, `run_shift`, `block_shift`).
-/

namespace SpecOverlay

/-- The error, seen from a place that is some lines before the one it was counted from. -/
def Error.shift (d : Nat) (e : Error) : Error :=
  { e with line := e.line.map (· + d) }

/-! ## Line numbers -/

namespace Progress

variable {scale : Scale} {p : Progress} {r : Registry}

theorem step_shift (scale : Scale) (p : Progress) (r : Registry) (line d : Nat) (text : String) :
    p.step scale r (line + d) text =
      ((p.step scale r line text).1.mapError (Error.shift d), (p.step scale r line text).2) := by
  rw [step_line scale p r (line + d), step_line scale p r line]
  cases (p.step scale r 0 text).1 <;> rfl

theorem run_shift (line d : Nat) (texts : List String) :
    p.run scale r (line + d) texts =
      ((p.run scale r line texts).1.mapError (Error.shift d), (p.run scale r line texts).2) := by
  induction texts generalizing p r line with
  | nil => rfl
  | cons text texts ih =>
    have hshift := step_shift scale p r line d text
    obtain ⟨result, s, h⟩ : ∃ result s, p.step scale r line text = (result, s) := ⟨_, _, rfl⟩
    rw [h] at hshift
    cases result with
    | error e =>
      rw [run_cons_of_error h, run_cons_of_error hshift]
      rfl
    | ok q =>
      rw [run_cons_of_ok h, run_cons_of_ok hshift, Nat.add_right_comm]
      exact ih (line + 1)

theorem finish_shift (start d : Nat) :
    p.finish (start + d) = (p.finish start).mapError (Error.shift d) := by
  rw [finish, finish]
  by_cases h : p.stage = .declarations ∧ p.hasTitle = false
  · rw [if_pos h, if_pos h]
    rfl
  · rw [if_neg h, if_neg h]
    rfl

end Progress

namespace Inflater

variable {i : Inflater} {globals : Scope}

/-- **Where a block begins matters for nothing but the line of its error.** -/
theorem block_shift (start d : Nat) (lines : List String) :
    i.block globals ⟨start + d, lines⟩ =
      ((i.block globals ⟨start, lines⟩).1.mapError (Error.shift d),
        (i.block globals ⟨start, lines⟩).2) := by
  rw [block, block, Progress.run_shift]
  obtain ⟨result, r, h⟩ : ∃ result r,
    (Progress.start globals).run i.scale i.registry start lines = (result, r) := ⟨_, _, rfl⟩
  rw [h]
  cases result with
  | error e => rfl
  | ok p =>
    show (p.finish (start + d), _) = _
    rw [Progress.finish_shift]

/-- The error of a block has a line. -/
theorem exists_line_of_block {b : Block} {e : Error} (h : (i.block globals b).1 = .error e) :
    ∃ line, e.line = some line := by
  obtain ⟨result, s, hrun⟩ : ∃ result s,
    (Progress.start globals).run i.scale i.registry b.start b.lines = (result, s) := ⟨_, _, rfl⟩
  rw [block, hrun] at h
  cases result with
  | error e' =>
    obtain rfl : e' = e := Except.error.inj h
    obtain ⟨before, text, after, q, r, -, -, hfault⟩ := Progress.exists_faulty_line hrun
    exact ⟨_, Progress.line_of_step (congrArg Prod.fst hfault)⟩
  | ok p =>
    have hfinish : p.finish b.start = .error e := h
    rw [Progress.finish] at hfinish
    split at hfinish
    · rw [← Except.error.inj hfinish]
      exact ⟨b.start, rfl⟩
    · exact absurd hfinish (by simp)

/-! ## Blocks as overlays of their own -/

/-- The inflater after the lines of blocks were inflated as overlays, one after the
other. -/
def afterOverlays (i : Inflater) (globals : Scope) (bs : List Block) : Inflater :=
  bs.foldl (fun j b => (j.overlay globals b.lines).2) i

/-- What the lines of a block give as an overlay, once the blocks before it had their
turn. -/
def overlayAt (i : Inflater) (globals : Scope) (bs : List Block) (k : Nat) :
    Option (Except Error Overlay) :=
  bs[k]?.map fun b => ((i.afterOverlays globals (bs.take k)).overlay globals b.lines).1

theorem overlayAt_cons_zero (b : Block) (bs : List Block) :
    i.overlayAt globals (b :: bs) 0 = some (i.overlay globals b.lines).1 := rfl

theorem overlayAt_cons_succ (b : Block) (bs : List Block) (k : Nat) :
    i.overlayAt globals (b :: bs) (k + 1) =
      (i.overlay globals b.lines).2.overlayAt globals bs k := rfl

/-- A block is an overlay whose line numbers begin with the block. -/
theorem block_eq_overlay {b : Block} (hb : 1 ≤ b.start) :
    i.block globals b =
      ((i.overlay globals b.lines).1.mapError (Error.shift (b.start - 1)),
        (i.overlay globals b.lines).2) := by
  have hshift := @block_shift i globals 1 (b.start - 1) b.lines
  rw [Nat.add_sub_cancel' hb] at hshift
  exact hshift

theorem blocks_of_overlays {bs : List Block} {os : List Overlay} (hbs : ∀ b ∈ bs, 1 ≤ b.start)
    (h : ∀ k : Nat, i.overlayAt globals bs k = os[k]?.map .ok) :
    i.blocks globals bs = (.ok os, i.afterOverlays globals bs) := by
  induction bs generalizing i os with
  | nil =>
    cases os with
    | nil => rfl
    | cons o os => exact absurd (h 0) (by simp [overlayAt])
  | cons b bs ih =>
    rw [List.forall_mem_cons] at hbs
    cases os with
    | nil => exact absurd (h 0) (by simp [overlayAt_cons_zero])
    | cons o os =>
      have hoverlay : (i.overlay globals b.lines).1 = .ok o := Option.some.inj (h 0)
      have hblock : i.block globals b = (.ok o, (i.overlay globals b.lines).2) := by
        rw [block_eq_overlay hbs.1, hoverlay]
        rfl
      have hrest : ∀ k : Nat,
          (i.overlay globals b.lines).2.overlayAt globals bs k = os[k]?.map .ok := by
        intro k
        rw [← overlayAt_cons_succ]
        exact h (k + 1)
      rw [blocks_cons_of_ok hblock, ih hbs.2 hrest]
      rfl

theorem blocks_of_failure {bs : List Block} {k : Nat} {b : Block} {e : Error}
    (hbs : ∀ b ∈ bs, 1 ≤ b.start) (hb : bs[k]? = some b)
    (hbefore : ∀ j < k, ∃ o, i.overlayAt globals bs j = some (.ok o))
    (hfails : i.overlayAt globals bs k = some (.error e)) :
    i.blocks globals bs =
      (.error (e.shift (b.start - 1)), i.afterOverlays globals (bs.take (k + 1))) := by
  induction bs generalizing i k with
  | nil => exact absurd hb (by simp)
  | cons c bs ih =>
    rw [List.forall_mem_cons] at hbs
    cases k with
    | zero =>
      obtain rfl : c = b := Option.some.inj hb
      have hoverlay : (i.overlay globals c.lines).1 = .error e := Option.some.inj hfails
      have hblock : i.block globals c =
          (.error (e.shift (c.start - 1)), (i.overlay globals c.lines).2) := by
        rw [block_eq_overlay hbs.1, hoverlay]
        rfl
      rw [blocks_cons_of_error hblock]
      rfl
    | succ k =>
      obtain ⟨o, ho⟩ := hbefore 0 (Nat.succ_pos k)
      have hoverlay : (i.overlay globals c.lines).1 = .ok o := Option.some.inj ho
      have hblock : i.block globals c = (.ok o, (i.overlay globals c.lines).2) := by
        rw [block_eq_overlay hbs.1, hoverlay]
        rfl
      have hrest : ∀ j < k, ∃ o,
          (i.overlay globals c.lines).2.overlayAt globals bs j = some (.ok o) := by
        intro j hj
        rw [← overlayAt_cons_succ]
        exact hbefore (j + 1) (Nat.succ_lt_succ hj)
      rw [overlayAt_cons_succ] at hfails
      rw [blocks_cons_of_ok hblock, ih hbs.2 hb hrest hfails]
      rfl

end Inflater

/-! ## Documents -/

theorem Document.le_line_of_readGlobals {scope scope' : Scope} {line line' : Nat}
    {lines body : List String} (h : readGlobals scope line lines = .ok (scope', line', body)) :
    line ≤ line' := by
  induction lines generalizing scope line with
  | nil =>
    rw [readGlobals, Except.ok.injEq, Prod.mk.injEq, Prod.mk.injEq] at h
    exact Nat.le_of_eq h.2.1
  | cons text texts ih =>
    rw [readGlobals] at h
    cases hkind : LineKind.of text with
    | blank =>
      simp only [hkind] at h
      exact Nat.le_of_succ_le (ih h)
    | comment =>
      simp only [hkind] at h
      exact Nat.le_of_succ_le (ih h)
    | declaration =>
      simp only [hkind] at h
      cases hdeclared : scope.declareLine line text with
      | error e => simp [hdeclared] at h
      | ok scope =>
        simp only [hdeclared] at h
        exact Nat.le_of_succ_le (ih h)
    | title =>
      simp only [hkind, Except.ok.injEq, Prod.mk.injEq] at h
      exact Nat.le_of_eq h.2.1
    | layer =>
      simp only [hkind, Except.ok.injEq, Prod.mk.injEq] at h
      exact Nat.le_of_eq h.2.1

/-- The lines of a document are counted from one. -/
theorem Document.one_le_start {lines : List String} {d : Document} (h : split lines = .ok d) :
    ∀ b ∈ d.blocks, 1 ≤ b.start := by
  intro b hb
  rw [split] at h
  cases hread : readGlobals .empty 1 lines with
  | error e => simp [hread] at h
  | ok globals =>
    obtain ⟨globals, line, body⟩ := globals
    simp only [hread, Except.ok.injEq] at h
    rw [← h] at hb
    have hline : 1 ≤ line := le_line_of_readGlobals hread
    have hstart : line ≤ b.start := Block.le_start_of_mem_runs (List.mem_filter.mp hb).1
    omega

namespace Inflater

/-- **A document is its blocks, one by one.**  Let a list of lines have globals and
blocks.  If the lines of every block give an overlay, each from the globals and from the
inflater that the blocks before it leave, then the document gives these overlays and
leaves the inflater that the last block leaves.  If a block is the first to fail, the
document fails with the same cause, on the line that the error has in the document, and
leaves the inflater that this block leaves. -/
theorem document_of_overlays {lines : List String} {d : Document} (i : Inflater)
    (hd : Document.split lines = .ok d) :
    (∀ os : List Overlay, (∀ k : Nat, i.overlayAt d.globals d.blocks k = os[k]?.map .ok) →
      i.document lines = (.ok os, i.afterOverlays d.globals d.blocks)) ∧
    ∀ (k : Nat) (b : Block) (e : Error), d.blocks[k]? = some b →
      (∀ j < k, ∃ o, i.overlayAt d.globals d.blocks j = some (.ok o)) →
      i.overlayAt d.globals d.blocks k = some (.error e) →
      ∃ line, e.line = some line ∧
        i.document lines = (.error ⟨e.cause, some (line + b.start - 1)⟩,
          i.afterOverlays d.globals (d.blocks.take (k + 1))) := by
  have hstart := Document.one_le_start hd
  have hdocument : i.document lines = i.blocks d.globals d.blocks := by
    rw [document, hd]
  rw [hdocument]
  refine ⟨fun os hos => blocks_of_overlays hstart hos, fun k b e hb hbefore hfails => ?_⟩
  have hblocks := blocks_of_failure hstart hb hbefore hfails
  have hoverlay : ((i.afterOverlays d.globals (d.blocks.take k)).overlay d.globals b.lines).1 =
      .error e := by
    rw [overlayAt, hb] at hfails
    exact Option.some.inj hfails
  obtain ⟨line, hline⟩ := exists_line_of_block hoverlay
  have hb1 : 1 ≤ b.start := hstart b (List.mem_of_getElem? hb)
  have hshift : e.shift (b.start - 1) = ⟨e.cause, some (line + b.start - 1)⟩ := by
    rw [Error.shift, hline, Option.map_some, Nat.add_sub_assoc hb1]
  rw [hshift] at hblocks
  exact ⟨line, hline, hblocks⟩

/-- A document whose second block redeclares a global variable for itself, and whose
third block fails on its second line. -/
theorem document_of_three_blocks :
    let i : Inflater := ⟨.builtIn, ⟨1, 1, 160⟩⟩
    let lines : List String := ["@accent=#FF0000", "fill color=@accent", "",
      "@accent=#0000FF", "fill color=@accent", "", "fill color=@accent", "fill color=#12"]
    let cause : Cause := .malformedArgument "color" "#12" "a color"
    ∃ d, Document.split lines = .ok d ∧
      i.overlayAt d.globals d.blocks 2 = some (.error ⟨cause, some 2⟩) ∧
      i.document lines =
        (.error ⟨cause, some 8⟩, i.afterOverlays d.globals (d.blocks.take 3)) := by
  intro i lines cause
  let d : Document := ⟨⟨Table.empty.insert "accent" "#FF0000"⟩,
    [⟨2, ["fill color=@accent"]⟩, ⟨4, ["@accent=#0000FF", "fill color=@accent"]⟩,
      ⟨7, ["fill color=@accent", "fill color=#12"]⟩]⟩
  have hd : Document.split lines = .ok d := rfl
  have hbefore : ∀ j < 2, ∃ o, i.overlayAt d.globals d.blocks j = some (.ok o) := by
    intro j hj
    cases j with
    | zero => exact ⟨⟨none, [.leaf 0 (.fill ⟨⟨0xFFFF0000⟩⟩)]⟩, rfl⟩
    | succ j =>
      obtain rfl : j = 0 := by omega
      exact ⟨⟨none, [.leaf 1 (.fill ⟨⟨0xFF0000FF⟩⟩)]⟩, rfl⟩
  have hfails : i.overlayAt d.globals d.blocks 2 = some (.error ⟨cause, some 2⟩) := rfl
  obtain ⟨line, hline, hdocument⟩ :=
    (document_of_overlays i hd).2 2 ⟨7, ["fill color=@accent", "fill color=#12"]⟩ _ rfl hbefore
      hfails
  obtain rfl : 2 = line := Option.some.inj hline
  exact ⟨d, hd, hfails, hdocument⟩

end Inflater
end SpecOverlay
