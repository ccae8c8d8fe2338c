import Mathlib.Data.Finset.Dedup
import Mathlib.Data.Nat.Count
import SpecOverlay.Proofs.Inflation.FirstError

/-!
# Comments are inert

Comments may be deleted from a document, all of them or some.  Nothing of this can be seen
but in the numbers of the lines: `document_withoutLines` says that what is left gives the
same overlays, or fails with the same cause on the line that the error had, less the lines
deleted before it.

A deletion is given by the numbers of the deleted lines.  It gives every line a new number,
`renumber`, and a deleted line gets that of the next line that stays (`renumber_succ`).  So
the number of a run's first line is right even if that line is deleted, which is what the
error for variables alone needs.

* A run of lines gives the same without the deleted ones, with the new number in its error
  (`Progress.run_withoutLines`).
* A run of lines that are not blank stays one run, unless it holds nothing but deleted
  comments, and then it was no block (`Block.contentRuns_withoutLines`).
* The globals are the same, because comments among them are passed over
  (`Document.readGlobals_withoutLines`).
-/

namespace SpecOverlay

/-! ## Deleted lines -/

/-- The numbers of the comments of a document, whose lines are counted from one. -/
def commentLines (lines : List String) : Finset Nat :=
  (((lines.zipIdx 1).filter fun l => LineKind.of l.1 = .comment).map Prod.snd).toFinset

/-- The lines that stay when the lines with some numbers are deleted, where the first line
has the given number. -/
def withoutLines (deleted : Finset Nat) (line : Nat) (lines : List String) : List String :=
  ((lines.zipIdx line).filter fun l => l.2 ∉ deleted).map Prod.fst

/-- The number that a line gets when the lines with some numbers are deleted. -/
def renumber (deleted : Finset Nat) (line : Nat) : Nat :=
  line - Nat.count (· ∈ deleted) line

/-- The error whose line has got its new number. -/
def Error.renumber (deleted : Finset Nat) (e : Error) : Error :=
  { e with line := e.line.map (SpecOverlay.renumber deleted) }

/-- The deleted lines are comments, where the first line has the given number. -/
def DeletesComments (deleted : Finset Nat) (line : Nat) (lines : List String) : Prop :=
  ∀ l ∈ lines.zipIdx line, l.2 ∈ deleted → LineKind.of l.1 = .comment

variable {deleted : Finset Nat} {line : Nat} {text : String} {texts rest lines : List String}

theorem withoutLines_cons_of_mem (h : line ∈ deleted) (text : String) (texts : List String) :
    withoutLines deleted line (text :: texts) = withoutLines deleted (line + 1) texts := by
  rw [withoutLines, List.zipIdx_cons, List.filter_cons_of_neg (by simpa using h), withoutLines]

theorem withoutLines_cons_of_not_mem (h : line ∉ deleted) (text : String)
    (texts : List String) :
    withoutLines deleted line (text :: texts) =
      text :: withoutLines deleted (line + 1) texts := by
  rw [withoutLines, List.zipIdx_cons, List.filter_cons_of_pos (by simpa using h), List.map_cons,
    withoutLines]

theorem withoutLines_append (line : Nat) (texts rest : List String) :
    withoutLines deleted line (texts ++ rest) =
      withoutLines deleted line texts ++ withoutLines deleted (line + texts.length) rest := by
  rw [withoutLines, List.zipIdx_append, List.filter_append, List.map_append]
  rfl

theorem mem_of_mem_withoutLines (h : text ∈ withoutLines deleted line texts) : text ∈ texts := by
  obtain ⟨l, hl, rfl⟩ := List.mem_map.mp h
  exact List.fst_mem_of_mem_zipIdx (List.mem_filter.mp hl).1

/-! ## New numbers -/

/-- A line that stays takes a number, and a deleted one leaves its number to the next. -/
theorem renumber_succ (deleted : Finset Nat) (line : Nat) :
    renumber deleted (line + 1) =
      if line ∈ deleted then renumber deleted line else renumber deleted line + 1 := by
  have hle : Nat.count (· ∈ deleted) line ≤ line := Nat.count_le _
  rw [renumber, renumber, Nat.count_succ]
  by_cases h : line ∈ deleted
  · rw [if_pos h, if_pos h]
    omega
  · rw [if_neg h, if_neg h]
    omega

theorem renumber_add_length (deleted : Finset Nat) (line : Nat) (texts : List String) :
    renumber deleted (line + texts.length) =
      renumber deleted line + (withoutLines deleted line texts).length := by
  induction texts generalizing line with
  | nil => rfl
  | cons text texts ih =>
    rw [List.length_cons, Nat.add_comm texts.length 1, ← Nat.add_assoc, ih, renumber_succ]
    by_cases h : line ∈ deleted
    · rw [if_pos h, withoutLines_cons_of_mem h]
    · rw [if_neg h, withoutLines_cons_of_not_mem h, List.length_cons]
      omega

/-! ## What is deleted are comments -/

theorem deletesComments_cons_iff :
    DeletesComments deleted line (text :: texts) ↔
      (line ∈ deleted → LineKind.of text = .comment) ∧
        DeletesComments deleted (line + 1) texts := by
  rw [DeletesComments, List.zipIdx_cons, List.forall_mem_cons, DeletesComments]

theorem deletesComments_append_iff :
    DeletesComments deleted line (texts ++ rest) ↔
      DeletesComments deleted line texts ∧
        DeletesComments deleted (line + texts.length) rest := by
  rw [DeletesComments, List.zipIdx_append, List.forall_mem_append]
  rfl

theorem deletesComments_of_subset (h : deleted ⊆ commentLines lines) :
    DeletesComments deleted 1 lines := by
  rintro ⟨text, n⟩ hl hn
  have hcomment := h hn
  rw [commentLines, List.mem_toFinset, List.mem_map] at hcomment
  obtain ⟨⟨text', n'⟩, hl', rfl⟩ := hcomment
  obtain ⟨hl', hkind⟩ := List.mem_filter.mp hl'
  -- both texts stand on the line with this number
  have htext := (List.mem_zipIdx_iff_le_and_getElem?_sub.mp hl).2
  have htext' := (List.mem_zipIdx_iff_le_and_getElem?_sub.mp hl').2
  obtain rfl : text = text' := Option.some.inj (htext.symm.trans htext')
  exact of_decide_eq_true hkind

theorem renumber_one (h : deleted ⊆ commentLines lines) : renumber deleted 1 = 1 := by
  have hzero : 0 ∉ deleted := fun h0 => by
    obtain ⟨l, hl, hnumber⟩ := List.mem_map.mp (List.mem_toFinset.mp (h h0))
    have hfirst := (List.mem_zipIdx_iff_le_and_getElem?_sub.mp (List.mem_filter.mp hl).1).1
    omega
  rw [renumber, Nat.count_succ, if_neg hzero]
  rfl

/-! ## Reading without comments -/

namespace Progress

variable {scale : Scale} {p : Progress} {r : Registry}

/-- **A run gives the same without comments**, with the new number in its error. -/
theorem run_withoutLines (h : DeletesComments deleted line texts) :
    p.run scale r (renumber deleted line) (withoutLines deleted line texts) =
      ((p.run scale r line texts).1.mapError (Error.renumber deleted),
        (p.run scale r line texts).2) := by
  induction texts generalizing p r line with
  | nil => rfl
  | cons text texts ih =>
    obtain ⟨hcomment, htexts⟩ := deletesComments_cons_iff.mp h
    have hnext := renumber_succ deleted line
    by_cases hmem : line ∈ deleted
    · have hskip : p.step scale r line text = (.ok p, r) :=
        step_of_not_content (by rw [hcomment hmem]; rfl)
      rw [if_pos hmem] at hnext
      rw [withoutLines_cons_of_mem hmem, run_cons_of_ok hskip, ← hnext, ih htexts]
    · rw [if_neg hmem] at hnext
      rw [withoutLines_cons_of_not_mem hmem]
      have hstep := step_line scale p r line text
      have hstep' := step_line scale p r (renumber deleted line) text
      obtain ⟨result, s, h0⟩ : ∃ result s, p.step scale r 0 text = (result, s) := ⟨_, _, rfl⟩
      rw [h0] at hstep hstep'
      cases result with
      | error e =>
        rw [run_cons_of_error hstep, run_cons_of_error hstep']
        rfl
      | ok q =>
        rw [run_cons_of_ok hstep, run_cons_of_ok hstep', ← hnext, ih htexts]

theorem finish_renumber (deleted : Finset Nat) (start : Nat) :
    p.finish (renumber deleted start) = (p.finish start).mapError (Error.renumber deleted) := by
  rw [finish, finish]
  split <;> rfl

end Progress

/-! ## Blocks without comments -/

namespace Block

variable {b : Block}

/-- What is left of a block. -/
def withoutLines (deleted : Finset Nat) (b : Block) : Block :=
  ⟨renumber deleted b.start, SpecOverlay.withoutLines deleted b.start b.lines⟩

/-- The deleted lines of a block are comments. -/
def DeletesComments (deleted : Finset Nat) (b : Block) : Prop :=
  SpecOverlay.DeletesComments deleted b.start b.lines

theorem any_isContent_withoutLines (h : SpecOverlay.DeletesComments deleted line texts) :
    ((SpecOverlay.withoutLines deleted line texts).any fun t => (LineKind.of t).isContent) =
      texts.any fun t => (LineKind.of t).isContent := by
  induction texts generalizing line with
  | nil => rfl
  | cons text texts ih =>
    obtain ⟨hcomment, htexts⟩ := deletesComments_cons_iff.mp h
    by_cases hmem : line ∈ deleted
    · rw [withoutLines_cons_of_mem hmem, ih htexts, List.any_cons, hcomment hmem]
      rfl
    · rw [withoutLines_cons_of_not_mem hmem, List.any_cons, ih htexts, List.any_cons]

theorem hasContent_withoutLines (h : b.DeletesComments deleted) :
    (b.withoutLines deleted).hasContent = b.hasContent :=
  any_isContent_withoutLines h

theorem beginsBlank_withoutLines (h : SpecOverlay.DeletesComments deleted line rest)
    (hrest : BeginsBlank rest) : BeginsBlank (SpecOverlay.withoutLines deleted line rest) := by
  cases rest with
  | nil => exact hrest
  | cons text texts =>
    have hblank : LineKind.of text = .blank := hrest text rfl
    have hmem : line ∉ deleted := fun hmem => by
      have hcomment := (deletesComments_cons_iff.mp h).1 hmem
      rw [hblank] at hcomment
      exact absurd hcomment (by decide)
    rw [withoutLines_cons_of_not_mem hmem]
    exact beginsBlank_cons hblank _

/-- **The blocks without comments are what is left of the blocks.**  A run of which nothing
is left held comments only, and so was no block. -/
theorem contentRuns_withoutLines (h : SpecOverlay.DeletesComments deleted line texts) :
    (runs (renumber deleted line) (SpecOverlay.withoutLines deleted line texts)).filter hasContent =
        ((runs line texts).filter hasContent).map (withoutLines deleted) ∧
      ∀ b ∈ runs line texts, b.DeletesComments deleted := by
  induction line, texts using runs_induction with
  | nil line => exact ⟨rfl, fun b hb => absurd hb List.not_mem_nil⟩
  | blank line text texts hblank ih =>
    obtain ⟨hcomment, htexts⟩ := deletesComments_cons_iff.mp h
    have hmem : line ∉ deleted := fun hmem => by
      rw [hblank] at hcomment
      exact absurd (hcomment hmem) (by decide)
    have hnext := renumber_succ deleted line
    rw [if_neg hmem] at hnext
    rw [withoutLines_cons_of_not_mem hmem, runs_cons_of_blank hblank, runs_cons_of_blank hblank,
      ← hnext]
    exact ih htexts
  | run line lines rest hlines hrest ih =>
    obtain ⟨hdeleted, hdeletedRest⟩ := deletesComments_append_iff.mp h
    obtain ⟨hruns, hall⟩ := ih hdeletedRest
    have hbegins := beginsBlank_withoutLines hdeletedRest hrest
    have hblock : (⟨line, lines⟩ : Block).DeletesComments deleted := hdeleted
    have hcontent := hasContent_withoutLines hblock
    rw [renumber_add_length] at hruns
    rw [runs_unbroken_append hlines hrest, withoutLines_append]
    refine ⟨?_, List.forall_mem_cons.mpr ⟨hblock, hall⟩⟩
    by_cases hleft : SpecOverlay.withoutLines deleted line lines = []
    · -- nothing is left of the run, so it held comments only
      have hempty : hasContent ⟨line, lines⟩ = false := by
        rw [← hcontent, hasContent, withoutLines, hleft]
        rfl
      rw [hleft, List.length_nil, Nat.add_zero] at hruns
      rw [hleft, List.nil_append, List.filter_cons_of_neg (by simp [hempty]), hruns]
    · have hunbroken : Unbroken (SpecOverlay.withoutLines deleted line lines) :=
        ⟨hleft, fun t ht => hlines.2 t (mem_of_mem_withoutLines ht)⟩
      rw [runs_unbroken_append hunbroken hbegins, List.filter_cons, List.filter_cons, hruns]
      have hsame : hasContent ⟨renumber deleted line, SpecOverlay.withoutLines deleted line lines⟩ =
          hasContent ⟨line, lines⟩ := hcontent
      rw [hsame]
      split <;> rfl

end Block

/-! ## Documents without comments -/

namespace Document

/-- **The globals are the same without comments**, and what is left of the body follows
them. -/
theorem readGlobals_withoutLines (h : DeletesComments deleted line texts) (scope : Scope) :
    readGlobals scope (renumber deleted line) (withoutLines deleted line texts) =
      ((readGlobals scope line texts).map fun g =>
        (g.1, renumber deleted g.2.1, withoutLines deleted g.2.1 g.2.2)).mapError
          (Error.renumber deleted) := by
  induction texts generalizing scope line with
  | nil => rfl
  | cons text texts ih =>
    obtain ⟨hcomment, htexts⟩ := deletesComments_cons_iff.mp h
    have hnext := renumber_succ deleted line
    by_cases hmem : line ∈ deleted
    · rw [if_pos hmem] at hnext
      rw [withoutLines_cons_of_mem hmem, ← hnext, ih htexts, readGlobals, hcomment hmem]
    · rw [if_neg hmem] at hnext
      cases hopens : (LineKind.of text).opensBody with
      | true =>
        rw [withoutLines_cons_of_not_mem hmem, readGlobals_cons_of_opensBody hopens,
          readGlobals_cons_of_opensBody hopens]
        show _ = Except.ok (scope, _, withoutLines deleted line (text :: texts))
        rw [withoutLines_cons_of_not_mem hmem]
      | false =>
        rw [withoutLines_cons_of_not_mem hmem]
        by_cases hkind : LineKind.of text = .declaration
        · rw [readGlobals, readGlobals, hkind, Scope.declareLine_line,
            Scope.declareLine_line scope line]
          cases scope.declareLine 0 text with
          | error e => rfl
          | ok scope' =>
            dsimp only [mapError_ok]
            rw [← hnext, ih htexts]
        · rw [readGlobals_cons_of_ne_declaration hopens hkind,
            readGlobals_cons_of_ne_declaration hopens hkind, ← hnext, ih htexts]

theorem deletesComments_of_readGlobals {scope globals : Scope} {start : Nat}
    {body : List String} (h : DeletesComments deleted line texts)
    (hread : readGlobals scope line texts = .ok (globals, start, body)) :
    DeletesComments deleted start body := by
  rw [readGlobals_eq] at hread
  cases hdeclared : scope.declareAll (globalDeclarations line texts) with
  | error e => simp [hdeclared, Except.map] at hread
  | ok globals' =>
    rw [hdeclared, Except.map, Except.ok.injEq, Prod.mk.injEq, Prod.mk.injEq] at hread
    obtain ⟨-, rfl, rfl⟩ := hread
    have hlength : bodyIndex texts ≤ texts.length := List.findIdx_le_length
    rw [← List.take_append_drop (bodyIndex texts) texts, deletesComments_append_iff,
      List.length_take_of_le hlength] at h
    exact h.2

/-- **A document without comments has the same globals, and what is left of the blocks.** -/
theorem split_withoutLines (h : deleted ⊆ commentLines lines) :
    split (withoutLines deleted 1 lines) =
        ((split lines).map fun d => ⟨d.globals, d.blocks.map (Block.withoutLines deleted)⟩).mapError
          (Error.renumber deleted) ∧
      ∀ d, split lines = .ok d → ∀ b ∈ d.blocks, b.DeletesComments deleted := by
  have hdeleted := deletesComments_of_subset h
  have hglobals := readGlobals_withoutLines hdeleted .empty
  rw [renumber_one h] at hglobals
  rw [split, split, hglobals]
  cases hread : readGlobals .empty 1 lines with
  | error e => exact ⟨rfl, fun d hd => absurd hd (by simp)⟩
  | ok g =>
    obtain ⟨globals, start, body⟩ := g
    obtain ⟨hruns, hall⟩ := Block.contentRuns_withoutLines (deletesComments_of_readGlobals hdeleted
      hread)
    refine ⟨?_, fun d hd b hb => ?_⟩
    · show Except.ok (Document.mk globals _) = Except.ok (Document.mk globals _)
      rw [hruns]
    · obtain rfl := Except.ok.inj hd
      exact hall b (List.mem_filter.mp hb).1

end Document

namespace Inflater

variable {i j : Inflater} {globals : Scope} {b : Block} {bs : List Block} {e : Error}

/-- **A block gives the same without comments**, with the new number in its error. -/
theorem block_withoutLines (h : b.DeletesComments deleted) (i : Inflater) (globals : Scope) :
    i.block globals (b.withoutLines deleted) =
      ((i.block globals b).1.mapError (Error.renumber deleted), (i.block globals b).2) := by
  rw [block, block, Block.withoutLines, Progress.run_withoutLines h]
  obtain ⟨result, r, hrun⟩ : ∃ result r,
    (Progress.start globals).run i.scale i.registry b.start b.lines = (result, r) := ⟨_, _, rfl⟩
  rw [hrun]
  cases result with
  | error e => rfl
  | ok p =>
    show (p.finish (renumber deleted b.start), _) = _
    rw [Progress.finish_renumber]

theorem blocks_withoutLines (h : ∀ b ∈ bs, b.DeletesComments deleted) (i : Inflater)
    (globals : Scope) :
    i.blocks globals (bs.map (Block.withoutLines deleted)) =
      ((i.blocks globals bs).1.mapError (Error.renumber deleted), (i.blocks globals bs).2) := by
  induction bs generalizing i with
  | nil => rfl
  | cons b bs ih =>
    obtain ⟨hb, hbs⟩ := List.forall_mem_cons.mp h
    have hblock := block_withoutLines hb i globals
    obtain ⟨result, j, hresult⟩ : ∃ result j, i.block globals b = (result, j) := ⟨_, _, rfl⟩
    rw [hresult] at hblock
    rw [List.map_cons]
    cases result with
    | error e =>
      rw [blocks_cons_of_error hblock, blocks_cons_of_error hresult]
      rfl
    | ok o =>
      rw [blocks_cons_of_ok hblock, blocks_cons_of_ok hresult, ih hbs]
      cases (j.blocks globals bs).1 <;> rfl

/-- The error of a document has a line. -/
theorem exists_line_of_document (h : i.document lines = (.error e, j)) :
    ∃ n, e.line = some n := by
  by_cases hmore : IsVariablesOnlyError lines e
  · obtain ⟨n, text, hline, -⟩ := hmore.exists_line
    exact ⟨n + 1, hline⟩
  · obtain ⟨before, text, after, -, -, hline, -⟩ := exists_forcing_line h hmore
    exact ⟨before.length + 1, hline⟩

/-- A document gives the same without comments, with the new number in its error. -/
theorem document_eq_of_subset (h : deleted ⊆ commentLines lines) (i : Inflater) :
    i.document (withoutLines deleted 1 lines) =
      ((i.document lines).1.mapError (Error.renumber deleted), (i.document lines).2) := by
  obtain ⟨hsplit, hblocks⟩ := Document.split_withoutLines h
  rw [document, document, hsplit]
  cases hd : Document.split lines with
  | error e => rfl
  | ok d => exact blocks_withoutLines (hblocks d hd) i d.globals

/-- **Comments are inert.**  Let some of the comments of a document be deleted.  If the
document inflates, so does what is left of it, to the same overlays.  If it fails, so does
what is left, with the same cause, on the line that the error had less the number of deleted
lines before that line.  In both cases the inflater is left as the document leaves it. -/
theorem document_withoutLines (h : deleted ⊆ commentLines lines) (i : Inflater) :
    (∀ os j, i.document lines = (.ok os, j) →
      i.document (withoutLines deleted 1 lines) = (.ok os, j)) ∧
    ∀ e j, i.document lines = (.error e, j) →
      ∃ n, e.line = some n ∧
        i.document (withoutLines deleted 1 lines) =
          (.error ⟨e.cause, some (n - Nat.count (· ∈ deleted) n)⟩, j) := by
  rw [document_eq_of_subset h]
  refine ⟨fun os j hok => by rw [hok]; rfl, fun e j herror => ?_⟩
  obtain ⟨n, hline⟩ := exists_line_of_document herror
  refine ⟨n, hline, ?_⟩
  rw [herror]
  show (Except.error (Error.renumber deleted e), j) = _
  rw [Error.renumber, hline]
  rfl

/-- A document with a comment before its title, one between a group and its child, one that
stands alone, and one before variables that have no layers.  The error for these variables is
on the last of the comments, and then on the first of the variables. -/
theorem document_withoutLines_of_four_comments :
    let i : Inflater := ⟨.builtIn, .standard⟩
    let lines : List String := ["// top", "# Grid", "inset", "// inside", "  fill", "", "// alone",
      "", "// colors", "@accent=#FF0000"]
    ∃ j, ({1, 4, 7, 9} : Finset Nat) ⊆ commentLines lines ∧
      i.document lines = (.error ⟨.misplacedVariable, some 9⟩, j) ∧
      i.document ["# Grid", "inset", "  fill", "", "", "@accent=#FF0000"] =
        (.error ⟨.misplacedVariable, some 6⟩, j) := by
  intro i lines
  have hcomments : ({1, 4, 7, 9} : Finset Nat) ⊆ commentLines lines := by decide
  have h : i.document lines = (.error ⟨.misplacedVariable, some 9⟩, (i.document lines).2) := rfl
  obtain ⟨n, hline, hleft⟩ := (document_withoutLines hcomments i).2 _ _ h
  obtain rfl : 9 = n := Option.some.inj hline
  exact ⟨_, hcomments, h, hleft⟩

end Inflater
end SpecOverlay
