import SpecOverlay.Document.Line
import SpecOverlay.Scope

/-!
# Documents and their blocks

The variable declarations before the first title or layer are global.  From that
line on, the document falls into blocks: the maximal runs of lines that are not
blank.  A run that holds nothing but comments is no block.

`Block.runs` makes the runs from the last line to the first: a line that is not
blank joins the run that begins on the next line, if there is one.  So every line
keeps its number, and no run begins before the first line
(`Block.le_start_of_mem_runs`).
-/

namespace SpecOverlay

/-- Lines that belong together, and the number of the first one in the document,
counted from one. -/
structure Block where
  start : Nat
  lines : List String
  deriving DecidableEq

namespace Block

/-- Whether a block says anything. -/
def hasContent (b : Block) : Bool :=
  b.lines.any fun line => (LineKind.of line).isContent

/-- The maximal runs of lines that are not blank, where the first line has the
given number. -/
def runs (line : Nat) : List String → List Block
  | [] => []
  | text :: texts =>
    match LineKind.of text, runs (line + 1) texts with
    | .blank, blocks => blocks
    | _, [] => [⟨line, [text]⟩]
    | _, b :: blocks =>
      if b.start = line + 1 then ⟨line, text :: b.lines⟩ :: blocks
      else ⟨line, [text]⟩ :: b :: blocks

/-- No run begins before the first line. -/
theorem le_start_of_mem_runs {line : Nat} {texts : List String} {b : Block}
    (h : b ∈ runs line texts) : line ≤ b.start := by
  induction texts generalizing line b with
  | nil => simp [runs] at h
  | cons text texts ih =>
    rw [runs] at h
    split at h
    · exact Nat.le_of_succ_le (ih h)
    · obtain rfl := List.mem_singleton.1 h
      exact Nat.le_refl _
    · rename_i hruns _
      split at h
      · rcases List.mem_cons.1 h with rfl | h
        · exact Nat.le_refl _
        · exact Nat.le_of_succ_le (ih (hruns ▸ List.mem_cons_of_mem _ h))
      · rcases List.mem_cons.1 h with rfl | h
        · exact Nat.le_refl _
        · exact Nat.le_of_succ_le (ih (hruns ▸ h))

end Block

/-- The global variables of a document and its blocks. -/
structure Document where
  globals : Scope
  blocks : List Block
  deriving DecidableEq

namespace Document

/-- Declares the variables before the first title or layer, where the first line
has the given number.  The result holds that number and the lines from there on. -/
def readGlobals (scope : Scope) (line : Nat) : List String → Except Error (Scope × Nat × List String)
  | [] => .ok (scope, line, [])
  | text :: texts =>
    match LineKind.of text with
    | .blank => readGlobals scope (line + 1) texts
    | .comment => readGlobals scope (line + 1) texts
    | .declaration =>
      match scope.declareLine line text with
      | .ok scope => readGlobals scope (line + 1) texts
      | .error e => .error e
    | .title => .ok (scope, line, text :: texts)
    | .layer => .ok (scope, line, text :: texts)

/-- The globals and the blocks of a list of lines. -/
def split (lines : List String) : Except Error Document :=
  match readGlobals .empty 1 lines with
  | .ok (globals, line, body) => .ok ⟨globals, (Block.runs line body).filter Block.hasContent⟩
  | .error e => .error e

end Document
end SpecOverlay
