import SpecOverlay.Proofs.Document.Partition
import SpecOverlay.Proofs.Inflation.Order

/-!
# An error is decided by what precedes it

A document is split as a whole before any line of a block is read.  Still, what it fails
with depends on nothing after the line of the error: `Inflater.error_decided` says that
every document with the same lines up to that one fails in the same way.  The one
exception is a block of variables alone, since a line that follows them may make an
overlay of them (`Inflater.IsVariablesOnlyError`).

There are three places where a document fails.

* A declaration among the globals is refused.  The globals are read line by line, so what
  follows does not matter (`Document.exists_refused_declaration`).
* A line of a block is misplaced or refused.  What follows that line may make the block
  longer and may change the blocks after it, but the blocks before it are what they were,
  and the block begins as it did (`Document.exists_beginning`).
* A block holds variables alone.  Then the error is on the first line of the block.

Lines *force* an error if every document that begins with them fails with it
(`Inflater.Forces`).
-/

namespace SpecOverlay

/-! ## Globals and blocks of the beginning of a document -/

namespace Document

variable {lines init before after rest : List String} {text : String} {scope : Scope}
  {line : Nat} {e : Error} {b : Block} {bs cs : List Block}

/-- **Globals that cannot be read have a declaration that is refused**, and what follows
it does not matter. -/
theorem exists_refused_declaration (h : readGlobals scope line lines = .error e) :
    ∃ before text after, lines = before ++ text :: after ∧ LineKind.of text = .declaration ∧
      e.line = some (line + before.length) ∧
      ∀ rest, readGlobals scope line (before ++ text :: rest) = .error e := by
  induction lines generalizing scope line with
  | nil => exact absurd h (by simp [readGlobals])
  | cons first texts ih =>
    -- a line that is passed over leaves the rest, counted from the next line
    have hpassed (scope' : Scope) (hread : ∀ rest, readGlobals scope line (first :: rest) =
        readGlobals scope' (line + 1) rest) :
        ∃ before text after, first :: texts = before ++ text :: after ∧
          LineKind.of text = .declaration ∧ e.line = some (line + before.length) ∧
          ∀ rest, readGlobals scope line (before ++ text :: rest) = .error e := by
      rw [hread] at h
      obtain ⟨before, text, after, rfl, hkind, hline, hforced⟩ := ih h
      refine ⟨first :: before, text, after, rfl, hkind, ?_, fun rest => ?_⟩
      · rw [hline, List.length_cons, Nat.add_right_comm, Nat.add_assoc]
      · rw [List.cons_append, hread, hforced]
    cases hopens : (LineKind.of first).opensBody with
    | true =>
      rw [readGlobals_cons_of_opensBody hopens] at h
      exact absurd h (by simp)
    | false =>
      by_cases hkind : LineKind.of first = .declaration
      · cases hdeclared : scope.declareLine line first with
        | ok scope' =>
          refine hpassed scope' fun rest => ?_
          rw [readGlobals, hkind]
          simp only [hdeclared]
        | error e' =>
          have hread (rest : List String) :
              readGlobals scope line (first :: rest) = .error e' := by
            rw [readGlobals, hkind]
            simp only [hdeclared]
          obtain rfl : e' = e := Except.error.inj ((hread texts).symm.trans h)
          exact ⟨[], first, texts, rfl, hkind, Scope.line_of_declareLine hdeclared, hread⟩
      · exact hpassed scope fun rest => readGlobals_cons_of_ne_declaration hopens hkind

/-- A document that cannot be split has such a declaration. -/
theorem exists_forcing_declaration (h : split lines = .error e) :
    ∃ before text after, lines = before ++ text :: after ∧ LineKind.of text = .declaration ∧
      e.line = some (before.length + 1) ∧
      ∀ rest, split (before ++ text :: rest) = .error e := by
  have hread : readGlobals .empty 1 lines = .error e := by
    rw [split] at h
    cases hglobals : readGlobals .empty 1 lines with
    | error e' => simpa [hglobals] using h
    | ok globals => simp [hglobals] at h
  obtain ⟨before, text, after, hcut, hkind, hline, hforced⟩ := exists_refused_declaration hread
  refine ⟨before, text, after, hcut, hkind, by rw [hline, Nat.add_comm], fun rest => ?_⟩
  rw [split, hforced]

/-- The body begins where it began, if that is before the lines that are exchanged. -/
theorem bodyIndex_append (h : bodyIndex (init ++ after) < init.length) (rest : List String) :
    bodyIndex (init ++ rest) = bodyIndex (init ++ after) := by
  rw [bodyIndex, List.findIdx_append] at h ⊢
  rw [bodyIndex, List.findIdx_append]
  split at h
  · rename_i hinit
    rw [if_pos hinit, if_pos hinit]
  · omega

theorem globalDeclarations_append (h : bodyIndex (init ++ after) < init.length) (line : Nat)
    (rest : List String) :
    globalDeclarations line (init ++ rest) = globalDeclarations line (init ++ after) := by
  rw [globalDeclarations, bodyIndex_append h, List.take_append_of_le_length (Nat.le_of_lt h),
    globalDeclarations, List.take_append_of_le_length (Nat.le_of_lt h)]

theorem bodyBlocks_append (h : bodyIndex (init ++ after) = init.length) :
    bodyBlocks (init ++ after) =
      (Block.runs (init.length + 1) after).filter Block.hasContent := by
  rw [bodyBlocks, h, List.drop_left]

/-- A document is the lines before its body and the body. -/
theorem exists_body (lines : List String) :
    ∃ top body, lines = top ++ body ∧ bodyIndex (top ++ body) = top.length := by
  have hlength : bodyIndex lines ≤ lines.length := List.findIdx_le_length
  refine ⟨lines.take (bodyIndex lines), lines.drop (bodyIndex lines),
    (List.take_append_drop _ _).symm, ?_⟩
  rw [List.take_append_drop, List.length_take_of_le hlength]

/-- **The beginning of a document up to a line of a block.**  Whatever follows that line,
the globals are the same, and so are the blocks before it and the lines of its block up to
it. -/
theorem exists_beginning (h : bodyBlocks lines = bs ++ b :: cs)
    (hlines : b.lines = before ++ text :: after) (hcontent : (LineKind.of text).isContent = true) :
    ∃ init tail, lines = init ++ text :: tail ∧ init.length + 1 = b.start + before.length ∧
      ∀ rest, globalDeclarations 1 (init ++ text :: rest) = globalDeclarations 1 lines ∧
        ∃ more cs', bodyBlocks (init ++ text :: rest) =
          bs ++ ⟨b.start, before ++ text :: more⟩ :: cs' := by
  obtain ⟨top, body, rfl, htop⟩ := exists_body lines
  rw [bodyBlocks_append htop] at h
  obtain ⟨front, back, hcut, hfront⟩ := Block.exists_cut_of_filter_runs h
  have hbody : body = front ++ before ++ text :: (after ++ back) := by
    rw [hcut.texts_eq, hlines]
    simp
  subst hbody
  -- the line ends the lines that decide, and the body begins before their end
  have hend (tail : List String) : top ++ (front ++ before) ++ text :: tail =
      top ++ (front ++ before) ++ [text] ++ tail := List.append_cons _ _ _
  have hbegins : bodyIndex (top ++ (front ++ before) ++ [text] ++ (after ++ back)) <
      (top ++ (front ++ before) ++ [text]).length := by
    have hlength : top.length < (top ++ (front ++ before) ++ [text]).length := by
      simp only [List.length_append, List.length_singleton]
      omega
    rwa [← hend, List.append_assoc, htop]
  refine ⟨top ++ (front ++ before), after ++ back, (List.append_assoc _ _ _).symm, ?_,
    fun rest => ⟨?_, ?_⟩⟩
  · rw [List.length_append, List.length_append, hcut.start_eq]
    omega
  · rw [hend, globalDeclarations_append hbegins, ← hend, List.append_assoc]
  · obtain ⟨more, back', hmore⟩ := hcut.exists_continuation hlines rest
    have htop' : bodyIndex (top ++ (front ++ (before ++ text :: rest))) = top.length := by
      rw [← List.append_assoc front, ← List.append_assoc, hend, bodyIndex_append hbegins, ← hend,
        List.append_assoc, htop]
    have hhas : Block.hasContent ⟨b.start, before ++ text :: more⟩ = true := by
      rw [Block.hasContent, List.any_eq_true]
      exact ⟨text, List.mem_append_right _ List.mem_cons_self, hcontent⟩
    rw [List.append_assoc, List.append_assoc, bodyBlocks_append htop', hmore.runs_eq,
      List.filter_append, hfront, List.filter_cons_of_pos hhas]
    exact ⟨more, _, rfl⟩

end Document

/-! ## The line of an error in a block -/

variable {scale : Scale} {scope : Scope} {r : Registry} {c : LineContext} {start line : Nat}
  {lines before : List String} {text : String} {e : Error}

/-- A line that is flawed after sound lines says something, and the error is on it. -/
theorem Flawed.line_eq (h : Flawed scale c before line text e)
    (hbefore : Sound scale ⟨scope, r⟩ start before c) :
    e.line = some line ∧ (LineKind.of text).isContent = true := by
  obtain ⟨p, s, -, rfl, hfits⟩ := run_of_sound hbefore
  have hstep := step_of_flawed hfits h
  refine ⟨Progress.line_of_step (congrArg Prod.fst hstep), ?_⟩
  by_contra hcontent
  rw [Progress.step_of_not_content (Bool.not_eq_true _ ▸ hcontent)] at hstep
  exact absurd (congrArg Prod.fst hstep) (by simp)

/-- An error comes of a flawed line or of variables alone. -/
theorem Verdict.flawed_or_variablesOnly (h : Verdict scale c start lines (.error e) r) :
    (∃ before text after c', lines = before ++ text :: after ∧ Sound scale c start before c' ∧
      Flawed scale c' before (start + before.length) text e) ∨
    (VariablesOnly lines ∧ e = ⟨.misplacedVariable, some start⟩) := by
  cases h with
  | @flawed before after text c' e cut sound flaw =>
    exact .inl ⟨before, text, after, c', cut, sound, flaw⟩
  | variablesOnly sound only => exact .inr ⟨only, rfl⟩

namespace Inflater

variable {i j k : Inflater} {globals : Scope} {b : Block} {bs : List Block} {os : List Overlay}

/-- A block fails at a flawed line, whatever follows it. -/
theorem block_of_flawed (hbefore : Sound i.scale ⟨globals, i.registry⟩ start before c)
    (h : Flawed i.scale c before (start + before.length) text e) (after : List String) :
    i.block globals ⟨start, before ++ text :: after⟩ =
      (.error e, { i with registry := c.registry }) := by
  rw [block, run_of_flawed hbefore h]

/-- A block that fails has a flawed line or holds variables alone.  After a flawed line,
whatever else follows it makes no difference. -/
theorem forced_or_variablesOnly (h : i.block globals b = (.error e, j)) :
    (∃ before text after, b.lines = before ++ text :: after ∧
      (LineKind.of text).isContent = true ∧ e.line = some (b.start + before.length) ∧
      ∀ more, i.block globals ⟨b.start, before ++ text :: more⟩ = (.error e, j)) ∨
    (VariablesOnly b.lines ∧ e = ⟨.misplacedVariable, some b.start⟩) := by
  have hverdict : Verdict i.scale ⟨globals, i.registry⟩ b.start b.lines (.error e) j.registry := by
    have hblock := verdict_of_block i globals b
    rwa [h] at hblock
  rcases hverdict.flawed_or_variablesOnly with
    ⟨before, text, after, c, hlines, hsound, hflaw⟩ | honly
  · obtain ⟨hline, hcontent⟩ := hflaw.line_eq hsound
    have hforced := block_of_flawed hsound hflaw
    have hafter := hforced after
    rw [← hlines, h] at hafter
    refine .inl ⟨before, text, after, hlines, hcontent, hline, fun more => ?_⟩
    rw [hforced more, hafter]
  · exact .inr honly

/-! ## The first block that fails -/

/-- **Blocks that fail do so at one block**, and the blocks before it inflate. -/
theorem exists_failing_block (h : i.blocks globals bs = (.error e, j)) :
    ∃ before b after os k, bs = before ++ b :: after ∧ i.blocks globals before = (.ok os, k) ∧
      k.block globals b = (.error e, j) := by
  induction bs generalizing i with
  | nil => exact absurd (congrArg Prod.fst h) (by simp [blocks])
  | cons b bs ih =>
    obtain ⟨result, i', hblock⟩ : ∃ result i', i.block globals b = (result, i') := ⟨_, _, rfl⟩
    cases result with
    | error e' =>
      rw [blocks_cons_of_error hblock, Prod.mk.injEq, Except.error.injEq] at h
      obtain ⟨rfl, rfl⟩ := h
      exact ⟨[], b, bs, [], i, rfl, rfl, hblock⟩
    | ok o =>
      rw [blocks_cons_of_ok hblock] at h
      obtain ⟨result, i'', hrest⟩ : ∃ result i'', i'.blocks globals bs = (result, i'') :=
        ⟨_, _, rfl⟩
      rw [hrest] at h
      cases result with
      | ok os => exact absurd (congrArg Prod.fst h) (by simp [Except.map])
      | error e' =>
        obtain ⟨before, c, after, os, k, rfl, hbefore, hfails⟩ := ih (hrest.trans h)
        refine ⟨b :: before, c, after, o :: os, k, rfl, ?_, hfails⟩
        rw [blocks_cons_of_ok hblock, hbefore]
        rfl

/-- After blocks that inflate, a block that fails ends it, whatever follows. -/
theorem blocks_append_of_error {before after : List Block}
    (hbefore : i.blocks globals before = (.ok os, k)) (h : k.block globals b = (.error e, j)) :
    i.blocks globals (before ++ b :: after) = (.error e, j) := by
  induction before generalizing i os with
  | nil =>
    rw [blocks, Prod.mk.injEq] at hbefore
    obtain ⟨-, rfl⟩ := hbefore
    exact blocks_cons_of_error h
  | cons a before ih =>
    obtain ⟨result, i', hblock⟩ : ∃ result i', i.block globals a = (result, i') := ⟨_, _, rfl⟩
    cases result with
    | error e' =>
      rw [blocks_cons_of_error hblock] at hbefore
      exact absurd (congrArg Prod.fst hbefore) (by simp)
    | ok o =>
      obtain ⟨result, i'', hrest⟩ : ∃ result i'', i'.blocks globals before = (result, i'') :=
        ⟨_, _, rfl⟩
      rw [blocks_cons_of_ok hblock, hrest] at hbefore
      cases result with
      | error e' => exact absurd (congrArg Prod.fst hbefore) (by simp [Except.map])
      | ok os' =>
        obtain rfl : i'' = k := congrArg Prod.snd hbefore
        rw [List.cons_append, blocks_cons_of_ok hblock, ih hrest]
        rfl

/-! ## Documents -/

/-- The error is the one for a block of the document that holds variables alone. -/
def IsVariablesOnlyError (lines : List String) (e : Error) : Prop :=
  ∃ d b, Document.split lines = .ok d ∧ b ∈ d.blocks ∧ VariablesOnly b.lines ∧
    e = ⟨.misplacedVariable, some b.start⟩

/-- Every document that begins with the lines fails in the same way. -/
def Forces (i : Inflater) (lines : List String) (e : Error) (j : Inflater) : Prop :=
  ∀ rest, i.document (lines ++ rest) = (.error e, j)

/-- The error for a block of variables alone is on the first line of the block. -/
theorem IsVariablesOnlyError.exists_line (h : IsVariablesOnlyError lines e) :
    ∃ n text, e.line = some (n + 1) ∧ lines[n]? = some text ∧ LineKind.of text ≠ .blank := by
  obtain ⟨d, b, hd, hb, -, rfl⟩ := h
  have hpartitions := Document.split_eq_ok_iff.mp hd
  obtain ⟨⟨front, back, hcut⟩, -⟩ := (hpartitions.mem_blocks_iff b).mp hb
  obtain ⟨text, texts, hlines⟩ := List.exists_cons_of_ne_nil hcut.unbroken.1
  obtain ⟨hstart, htext, hblank⟩ := hpartitions.numbered b hb 0 text (by rw [hlines]; rfl)
  have hline : b.start = b.start - 1 + 1 := by omega
  exact ⟨b.start - 1, text, congrArg some hline, htext, hblank⟩

/-- **A document that fails has a line at which every document fails that begins as it
does up to that line**, unless what is wrong is a block of variables alone. -/
theorem exists_forcing_line (h : i.document lines = (.error e, j))
    (hmore : ¬ IsVariablesOnlyError lines e) :
    ∃ before text after, lines = before ++ text :: after ∧ LineKind.of text ≠ .blank ∧
      e.line = some (before.length + 1) ∧ i.Forces (before ++ [text]) e j := by
  rw [document] at h
  cases hsplit : Document.split lines with
  | error e' =>
    rw [hsplit, Prod.mk.injEq, Except.error.injEq] at h
    obtain ⟨rfl, rfl⟩ := h
    obtain ⟨before, text, after, rfl, hkind, hline, hforced⟩ :=
      Document.exists_forcing_declaration hsplit
    refine ⟨before, text, after, rfl, by simp [hkind], hline, fun rest => ?_⟩
    rw [← List.append_cons, document, hforced]
  | ok d =>
    rw [hsplit] at h
    obtain ⟨hglobals, hbody⟩ := Document.split_eq_ok_iff_bodyBlocks.mp hsplit
    obtain ⟨bs, b, cs, os, k, hblocks, hbefore, hfails⟩ := exists_failing_block h
    rcases forced_or_variablesOnly hfails with
      ⟨before, text, after, hlines, hcontent, hline, hforced⟩ | ⟨honly, he⟩
    · obtain ⟨init, tail, hcut, hlength, hbeginning⟩ :=
        Document.exists_beginning (hbody.symm.trans hblocks) hlines hcontent
      refine ⟨init, text, tail, hcut, LineKind.ne_blank_of_isContent hcontent,
        by rw [hline, hlength], fun rest => ?_⟩
      obtain ⟨hsame, more, cs', hbs⟩ := hbeginning rest
      have hsplit' : Document.split (init ++ text :: rest) =
          .ok ⟨d.globals, bs ++ ⟨b.start, before ++ text :: more⟩ :: cs'⟩ :=
        Document.split_eq_ok_iff_bodyBlocks.mpr ⟨hsame ▸ hglobals, hbs.symm⟩
      rw [← List.append_cons, document, hsplit']
      exact blocks_append_of_error hbefore (hforced more)
    · have hb : b ∈ d.blocks := hblocks ▸ List.mem_append_right _ List.mem_cons_self
      exact absurd ⟨d, b, hsplit, hb, honly, he⟩ hmore

/-- **An error is decided by its line and the lines before it.**  If a document fails, the
error has a line of the document, which is not blank.  Unless the error is the one for a
block of variables alone, every document with the same lines up to that one fails with
the same error, and leaves the same inflater. -/
theorem error_decided (h : i.document lines = (.error e, j)) :
    ∃ n text, e.line = some n ∧ 1 ≤ n ∧ n ≤ lines.length ∧ lines[n - 1]? = some text ∧
      LineKind.of text ≠ .blank ∧
      (¬ IsVariablesOnlyError lines e → ∀ lines', lines'.take n = lines.take n →
        i.document lines' = (.error e, j)) := by
  by_cases hmore : IsVariablesOnlyError lines e
  · obtain ⟨n, text, hline, htext, hblank⟩ := hmore.exists_line
    have hn : n < lines.length := (List.getElem?_eq_some_iff.mp htext).1
    exact ⟨n + 1, text, hline, by omega, hn, htext, hblank, fun h => absurd hmore h⟩
  · obtain ⟨before, text, after, rfl, hblank, hline, hforces⟩ := exists_forcing_line h hmore
    refine ⟨before.length + 1, text, hline, by omega, by simp, by simp, hblank,
      fun _ lines' hsame => ?_⟩
    have hbeginning : lines'.take (before.length + 1) = before ++ [text] := by
      rw [hsame, List.append_cons, List.take_left' (by simp)]
    rw [← List.take_append_drop (before.length + 1) lines', hbeginning]
    exact hforces _

/-- A layer type whose factory fails with an error on a line of its own.  The document
fails on the line of the layer, and so does every document that begins with its first five
lines. -/
theorem error_decided_of_far_line :
    let failure : Error := ⟨.missingArgument "typed" "thing", some 99⟩
    let i : Inflater := ⟨Registry.builtIn.register "typed" (fun _ => .error (.error failure)) false,
      ⟨1, 1, 160⟩⟩
    let lines : List String := ["@accent=#FF0000", "", "# Grid", "fill color=@accent", "typed",
      "fill", "", "@spare=1"]
    ∃ j, i.document lines = (.error (failure.withLine 5), j) ∧
      ∀ rest, i.document (lines.take 5 ++ rest) = (.error (failure.withLine 5), j) := by
  intro failure i lines
  have h : i.document lines = (.error (failure.withLine 5), (i.document lines).2) := rfl
  obtain ⟨n, text, hline, -, -, -, -, hforced⟩ := error_decided h
  obtain rfl : 5 = n := Option.some.inj hline
  have hmore : ¬ IsVariablesOnlyError lines (failure.withLine 5) := by
    rintro ⟨d, b, -, -, -, he⟩
    exact absurd (congrArg Error.cause he) (by simp [failure])
  exact ⟨_, h, fun rest => hforced hmore _ (List.take_left' rfl)⟩

end Inflater
end SpecOverlay
