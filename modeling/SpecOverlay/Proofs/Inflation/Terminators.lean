import SpecOverlay.Proofs.Error.Report
import SpecOverlay.Proofs.Inflation.FirstError
import SpecOverlay.Proofs.Text.Terminators

/-!
# How the lines of a document end

A document may be given as its lines or as one text.  With which terminators the text is
joined from the lines does not matter: it inflates as the lines do, and a report of an error
quotes the line with the number of the error (`text_of_joins`).

A text has the lines that it is joined from, apart from an empty one at its end
(`Text.Joins.linesOf_eq`).  A blank line at the end of a document does nothing
(`document_append_blank`), and no error is on it, since the line of an error is never blank.
-/

namespace SpecOverlay

variable {text blank : String} {lines texts : List String}

/-! ## A blank line at the end -/

namespace Block

theorem runs_append_blank (h : LineKind.of blank = .blank) (line : Nat) (texts : List String) :
    runs line (texts ++ [blank]) = runs line texts := by
  rw [runs_append_of_beginsBlank (beginsBlank_cons h []), runs_cons_of_blank h, runs,
    List.append_nil]

end Block

namespace Document

/-- The globals are the same with a blank line at the end, and so are the runs after them. -/
theorem readGlobals_append_blank (h : LineKind.of blank = .blank) (scope : Scope) (line : Nat)
    (texts : List String) :
    (readGlobals scope line (texts ++ [blank])).map
        (fun globals => (globals.1, Block.runs globals.2.1 globals.2.2)) =
      (readGlobals scope line texts).map
        fun globals => (globals.1, Block.runs globals.2.1 globals.2.2) := by
  induction texts generalizing scope line with
  | nil =>
    have hlast : readGlobals scope line [blank] = .ok (scope, line + 1, []) := by
      rw [readGlobals, h, readGlobals]
    rw [List.nil_append, hlast]
    rfl
  | cons text texts ih =>
    rw [List.cons_append, readGlobals, readGlobals]
    cases hkind : LineKind.of text with
    | blank => exact ih scope (line + 1)
    | comment => exact ih scope (line + 1)
    | declaration =>
      cases scope.declareLine line text with
      | error e => rfl
      | ok scope' => exact ih scope' (line + 1)
    | title =>
      dsimp only [Except.map]
      rw [← List.cons_append, Block.runs_append_blank h]
    | layer =>
      dsimp only [Except.map]
      rw [← List.cons_append, Block.runs_append_blank h]

theorem split_eq_map (lines : List String) :
    split lines = ((readGlobals .empty 1 lines).map
        fun globals => (globals.1, Block.runs globals.2.1 globals.2.2)).map
      fun parts => ⟨parts.1, parts.2.filter Block.hasContent⟩ := by
  rw [split]
  cases readGlobals .empty 1 lines with
  | error e => rfl
  | ok globals => rfl

/-- A blank line at the end does not change the division of a document. -/
theorem split_append_blank (h : LineKind.of blank = .blank) (lines : List String) :
    split (lines ++ [blank]) = split lines := by
  rw [split_eq_map, readGlobals_append_blank h, ← split_eq_map]

end Document

namespace Inflater

variable {i j : Inflater} {e : Error} {source : String}

/-- **A blank line at the end of a document does nothing.** -/
theorem document_append_blank (h : LineKind.of blank = .blank) (i : Inflater)
    (lines : List String) : i.document (lines ++ [blank]) = i.document lines := by
  rw [document, Document.split_append_blank h, document]

/-! ## Joined texts -/

/-- The line of an error is a line of the document, and it is not blank. -/
theorem exists_text_of_document (h : i.document lines = (.error e, j)) :
    ∃ n text, e.line = some (n + 1) ∧ lines[n]? = some text ∧ LineKind.of text ≠ .blank := by
  by_cases hmore : IsVariablesOnlyError lines e
  · exact hmore.exists_line
  · obtain ⟨before, text, after, rfl, hblank, hline, -⟩ := exists_forcing_line h hmore
    exact ⟨before.length, text, hline, by simp, hblank⟩

/-- A text that is joined from lines has the same lines, as far as they are not blank. -/
theorem quotedLine_of_joins (hlines : ∀ text ∈ lines, Text.IsLine text)
    (hsource : Text.Joins lines source.toList) {n : Nat} (htext : lines[n]? = some text)
    (hblank : LineKind.of text ≠ .blank) : Error.quotedLine source (n + 1) = text.toList := by
  have hlast : (Text.linesOf source)[n]? = some text := by
    rcases hsource.linesOf_eq hlines with h | h
    · rwa [← h]
    · rw [h, List.getElem?_append] at htext
      split at htext
      · exact htext
      · -- the line that leaves no trace is blank
        have hmem : text ∈ [""] := List.mem_of_getElem? htext
        rw [List.mem_singleton.mp hmem] at hblank
        exact absurd rfl hblank
  rw [Text.linesOf, List.getElem?_map, Option.map_eq_some_iff] at hlast
  obtain ⟨quoted, hquoted, rfl⟩ := hlast
  rw [Error.quotedLine, Nat.add_sub_cancel, hquoted, Option.getD_some, String.toList_ofList]

/-- **Line endings do not matter.**  Let texts be joined from lines with terminators of either
kind, in any mixture, with or without one at the end.

* Each of them inflates as the document of these lines does, to the same overlays or the same
  error, and leaves the same inflater.
* An error is on one of the lines, and its report for any of the texts is the same: it quotes
  this line with its number. -/
theorem text_of_joins (hlines : ∀ text ∈ lines, Text.IsLine text) (i : Inflater) :
    (∀ source : String, Text.Joins lines source.toList → i.text source = i.document lines) ∧
      ∀ e j, i.document lines = (.error e, j) →
        ∃ n text, e.line = some n ∧ 1 ≤ n ∧ lines[n - 1]? = some text ∧
          ∀ source : String, Text.Joins lines source.toList →
            (e.report source).toList =
              Error.heading e n ++ '\n' :: Error.quotedRow n text.toList ++
                '\n' :: Error.caretRow text.toList ++ ['\n'] := by
  refine ⟨fun source hsource => ?_, fun e j h => ?_⟩
  · rcases hsource.linesOf_eq hlines with hsame | hmore
    · rw [text, ← hsame]
    · rw [hmore, document_append_blank rfl, text]
  · obtain ⟨n, text, hline, htext, hblank⟩ := exists_text_of_document h
    refine ⟨n + 1, text, hline, Nat.le_add_left 1 n, htext, fun source hsource => ?_⟩
    rw [Error.toList_report hline, quotedLine_of_joins hlines hsource htext hblank, Error.quoting]

/-- A title, a layer without a distance and an empty line. -/
def unfinishedLines : List String :=
  ["# Edge", "  keyline from=top", ""]

theorem isLine_unfinishedLines : ∀ text ∈ unfinishedLines, Text.IsLine text := by
  decide

theorem joins_unfinishedLines :
    Text.Joins unfinishedLines "# Edge\r\n  keyline from=top\n".toList :=
  .cons "# Edge" .returnFeed (.cons "  keyline from=top" .feed (.last ""))

/-- The text is refused as its lines are, and the report quotes the second line. -/
theorem text_of_joins_unfinishedLines :
    ∃ e j, (⟨.builtIn, .standard⟩ : Inflater).document unfinishedLines = (.error e, j) ∧
      (⟨.builtIn, .standard⟩ : Inflater).text "# Edge\r\n  keyline from=top\n" = (.error e, j) ∧
      ∃ n text, e.line = some n ∧ unfinishedLines[n - 1]? = some text ∧
        (e.report "# Edge\r\n  keyline from=top\n").toList =
          Error.heading e n ++ '\n' :: Error.quotedRow n text.toList ++
            '\n' :: Error.caretRow text.toList ++ ['\n'] := by
  obtain ⟨hsame, hreport⟩ := text_of_joins isLine_unfinishedLines ⟨.builtIn, .standard⟩
  have hfails : (⟨.builtIn, .standard⟩ : Inflater).document unfinishedLines =
      (.error ⟨.missingArgument "keyline" "distance", some 2⟩, ⟨.builtIn, .standard⟩) := rfl
  obtain ⟨n, text, hline, -, hquoted, hrows⟩ := hreport _ _ hfails
  exact ⟨_, _, hfails, (hsame _ joins_unfinishedLines).trans hfails, n, text, hline, hquoted,
    hrows _ joins_unfinishedLines⟩

end Inflater
end SpecOverlay
