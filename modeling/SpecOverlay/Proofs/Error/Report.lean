import SpecOverlay.Error
import SpecOverlay.Proofs.Text.Words

/-!
# The rows of a report

The report of an error that has a line ends in two rows: the quoted line behind its number,
and the carets under it (`toList_report`).  Carets should stand under the text of the quoted
line, blanks around it aside (`Underlines`).

The carets are counted and placed by the bytes of the line, and the row of carets keeps four
columns for a number that may need more.  So there is a caret for every byte of the text, and
the first one is as far from the margin as the blanks before the text have bytes
(`count_caretRow`, `idxOf_caretRow`).  `report_underlines_iff` says which texts are underlined
all the same.
-/

namespace SpecOverlay

/-! ## Bytes -/

namespace Text

/-- How many bytes a text takes. -/
def byteCount (s : List Char) : Nat :=
  (String.ofList s).utf8ByteSize

variable {s t : List Char} {c : Char}

theorem byteCount_append (s t : List Char) :
    byteCount (s ++ t) = byteCount s + byteCount t := by
  rw [byteCount, String.ofList_append, String.utf8ByteSize_append, byteCount, byteCount]

theorem byteCount_cons (c : Char) (s : List Char) :
    byteCount (c :: s) = c.utf8Size + byteCount s := by
  rw [← List.singleton_append, byteCount_append, byteCount, ← String.singleton_eq_ofList,
    String.utf8ByteSize_singleton]

/-- No character takes less than a byte. -/
theorem length_le_byteCount (s : List Char) : s.length ≤ byteCount s := by
  induction s with
  | nil => exact Nat.zero_le _
  | cons c s ih =>
    have hc := c.utf8Size_pos
    rw [List.length_cons, byteCount_cons]
    omega

/-- A text has as many bytes as characters exactly if every character takes one byte. -/
theorem byteCount_eq_length_iff : byteCount s = s.length ↔ ∀ c ∈ s, c.utf8Size = 1 := by
  induction s with
  | nil => exact ⟨fun _ _ hc => absurd hc List.not_mem_nil, fun _ => rfl⟩
  | cons c s ih =>
    have hc := c.utf8Size_pos
    have hs := length_le_byteCount s
    rw [List.forall_mem_cons, ← ih, List.length_cons, byteCount_cons]
    omega

/-- The blanks that a text begins with are those before its first other character. -/
theorem length_takeWhile_isBlank (s : List Char) :
    (s.takeWhile isBlank).length = s.findIdx (!isBlank ·) := by
  rw [List.takeWhile_eq_take_findIdx_not, List.length_take]
  exact Nat.min_eq_left List.findIdx_le_length

end Text

namespace Error

variable {e : Error} {line : Nat} {quoted : List Char} {source : String}

/-! ## The rows -/

/-- What a report says before it quotes a line. -/
def heading (e : Error) (line : Nat) : List Char :=
  ("error[R" ++ toString e.cause.code ++ "]: " ++ e.cause.message ++ "\n --> line " ++
    toString line).toList

/-- What stands before a quoted line in its row. -/
def margin (line : Nat) : List Char :=
  (gutter line).toList ++ [' ', '|', ' ']

/-- The row of a quoted line. -/
def quotedRow (line : Nat) (quoted : List Char) : List Char :=
  margin line ++ quoted

/-- What stands before the carets in theirs. -/
def caretMargin : List Char :=
  [' ', ' ', ' ', ' ', ' ', '|', ' ']

/-- The row of the carets under a quoted line. -/
def caretRow (quoted : List Char) : List Char :=
  caretMargin ++ (underline quoted).toList

/-- The report of an error that quotes a line with a number. -/
def quoting (e : Error) (line : Nat) (quoted : List Char) : List Char :=
  heading e line ++ '\n' :: quotedRow line quoted ++ '\n' :: caretRow quoted ++ ['\n']

/-- **A report ends in the row of the quoted line and the row of the carets.** -/
theorem toList_report (h : e.line = some line) (source : String) :
    (e.report source).toList = e.quoting line (quotedLine source line) := by
  have hbar : " | ".toList = [' ', '|', ' '] := by decide
  have hcarets : "\n     | ".toList = '\n' :: caretMargin := by decide
  have hfeed : "\n".toList = ['\n'] := by decide
  simp only [report, h, quoting, heading, quotedRow, margin, caretRow, String.toList_append,
    hbar, hcarets, hfeed, String.toList_ofList, List.append_assoc, List.cons_append,
    List.nil_append]

/-- The carets underline the text of a quoted line.  There is one for each character between
the blanks around it, and a single one if there is no character; and the first caret is in the
column of the first of these characters, if there is one. -/
structure Underlines (line : Nat) (quoted carets : List Char) : Prop where
  count_eq : carets.count '^' = max 1 (Text.trim quoted).length
  column_eq : Text.trim quoted ≠ [] →
    carets.idxOf '^' = (margin line).length + quoted.findIdx (!Text.isBlank ·)

/-! ## The columns -/

theorem toList_gutter (line : Nat) :
    (gutter line).toList =
      List.replicate (4 - (Nat.toDigits 10 line).length) ' ' ++ Nat.toDigits 10 line := by
  simp [gutter, Nat.toString_eq_repr, Nat.toList_repr, ← String.length_toList]

/-- A number takes four columns, or as many as it has digits if these are more. -/
theorem length_margin (line : Nat) :
    (margin line).length = max 4 (Nat.toDigits 10 line).length + 3 := by
  rw [margin, List.length_append, toList_gutter, List.length_append, List.length_replicate]
  dsimp only [List.length_cons, List.length_nil]
  omega

theorem toList_underline (quoted : List Char) :
    (underline quoted).toList =
      List.replicate (Text.byteCount (quoted.takeWhile Text.isBlank)) ' ' ++
        List.replicate (max 1 (Text.byteCount (Text.trim quoted))) '^' := by
  have hbytes : Text.byteCount quoted - Text.byteCount (Text.trimStart quoted) =
      Text.byteCount (quoted.takeWhile Text.isBlank) := by
    have happend : Text.byteCount quoted = Text.byteCount (quoted.takeWhile Text.isBlank) +
        Text.byteCount (Text.trimStart quoted) := by
      rw [← Text.byteCount_append, Text.trimStart, List.takeWhile_append_dropWhile]
    omega
  rw [underline, String.toList_ofList, ← hbytes, Text.byteCount, Text.byteCount, Text.byteCount]

/-- There is a caret for every byte of the text. -/
theorem count_caretRow (quoted : List Char) :
    (caretRow quoted).count '^' = max 1 (Text.byteCount (Text.trim quoted)) := by
  have hbar : caretMargin.count '^' = 0 := by decide
  rw [caretRow, List.count_append, hbar, toList_underline, List.count_append, List.count_replicate,
    List.count_replicate_self, if_neg (by decide), Nat.zero_add, Nat.zero_add]

/-- The first caret is as far from the margin as the blanks before the text have bytes. -/
theorem idxOf_caretRow (quoted : List Char) :
    (caretRow quoted).idxOf '^' = 7 + Text.byteCount (quoted.takeWhile Text.isBlank) := by
  have hbar : '^' ∉ caretMargin := by decide
  have hspaces (n : Nat) : '^' ∉ List.replicate n ' ' := fun h =>
    absurd (List.eq_of_mem_replicate h) (by decide)
  obtain ⟨n, hn⟩ : ∃ n, max 1 (Text.byteCount (Text.trim quoted)) = n + 1 :=
    ⟨_, (Nat.sub_add_cancel (Nat.le_max_left 1 _)).symm⟩
  rw [caretRow, List.idxOf_append, if_neg hbar, toList_underline, List.idxOf_append,
    if_neg (hspaces _), hn, List.replicate_succ, List.idxOf_cons_self, List.length_replicate]
  have hlength : caretMargin.length = 7 := rfl
  omega

theorem newline_notMem_quotedLine (source : String) (line : Nat) :
    '\n' ∉ quotedLine source line := by
  rw [quotedLine]
  cases hline : (Text.lines source.toList)[line - 1]? with
  | none => exact List.not_mem_nil
  | some quoted => exact Text.newline_notMem_of_mem_lines (List.mem_of_getElem? hline)

theorem newline_notMem_quotedRow (h : '\n' ∉ quoted) (line : Nat) :
    '\n' ∉ quotedRow line quoted := by
  have hspaces : '\n' ∉ List.replicate (4 - (Nat.toDigits 10 line).length) ' ' := fun hc =>
    absurd (List.eq_of_mem_replicate hc) (by decide)
  have hdigits : '\n' ∉ Nat.toDigits 10 line := fun hc =>
    absurd (Nat.isDigit_of_mem_toDigits (by decide) (by decide) hc) (by decide)
  have hbar : '\n' ∉ [' ', '|', ' '] := by decide
  rw [quotedRow, margin, toList_gutter]
  simp only [List.mem_append, not_or]
  exact ⟨⟨⟨hspaces, hdigits⟩, hbar⟩, h⟩

theorem newline_notMem_caretRow (quoted : List Char) : '\n' ∉ caretRow quoted := by
  have hbar : '\n' ∉ caretMargin := by decide
  have hreplicate (n : Nat) {c : Char} (hc : '\n' ≠ c) : '\n' ∉ List.replicate n c := fun h =>
    hc (List.eq_of_mem_replicate h)
  rw [caretRow, toList_underline]
  simp only [List.mem_append, not_or]
  exact ⟨hbar, hreplicate _ (by decide), hreplicate _ (by decide)⟩

/-! ## What is underlined -/

/-- The carets are as many as the characters if every character takes one byte. -/
theorem count_caretRow_eq_iff (h : Text.trim quoted ≠ []) :
    (caretRow quoted).count '^' = max 1 (Text.trim quoted).length ↔
      ∀ c ∈ Text.trim quoted, c.utf8Size = 1 := by
  have hlength := List.length_pos_iff.mpr h
  have hbytes := Text.length_le_byteCount (Text.trim quoted)
  rw [count_caretRow, ← Text.byteCount_eq_length_iff]
  omega

/-- **A text is underlined exactly if each of its characters takes one byte, and the blanks
before it have as many bytes more than characters as the number has digits more than four.** -/
theorem underlines_caretRow_iff (line : Nat) (quoted : List Char) :
    Underlines line quoted (caretRow quoted) ↔
      Text.trim quoted = [] ∨
        (∀ c ∈ Text.trim quoted, c.utf8Size = 1) ∧
          Text.byteCount (quoted.takeWhile Text.isBlank) -
              (quoted.takeWhile Text.isBlank).length =
            (Nat.toDigits 10 line).length - 4 := by
  have hlead := Text.length_le_byteCount (quoted.takeWhile Text.isBlank)
  have hcolumn : (caretRow quoted).idxOf '^' =
      (margin line).length + quoted.findIdx (!Text.isBlank ·) ↔
      Text.byteCount (quoted.takeWhile Text.isBlank) -
          (quoted.takeWhile Text.isBlank).length =
        (Nat.toDigits 10 line).length - 4 := by
    rw [idxOf_caretRow, length_margin, ← Text.length_takeWhile_isBlank]
    omega
  by_cases htrim : Text.trim quoted = []
  · refine iff_of_true ⟨?_, fun h => absurd htrim h⟩ (.inl htrim)
    rw [count_caretRow, htrim]
    rfl
  · rw [← hcolumn, ← count_caretRow_eq_iff htrim]
    constructor
    · intro h
      exact .inr ⟨h.count_eq, h.column_eq htrim⟩
    · rintro (h | ⟨hcount, hidx⟩)
      · exact absurd h htrim
      · exact ⟨hcount, fun _ => hidx⟩

/-- **The rows of a report.**  A report on a line ends in the row that quotes the line and the
row of carets under it.  There is a caret for every byte of the text of the line, and the first
of them stands seven columns and the bytes of the blanks before the text from the left.  So
the text is underlined, character by character and from its own column on, exactly under the
condition of `underlines_caretRow_iff`. -/
theorem report_rows (cause : Cause) (line : Nat) (source : String) :
    let e : Error := ⟨cause, some line⟩
    let quoted := quotedLine source line
    (e.report source).toList =
        heading e line ++ '\n' :: quotedRow line quoted ++ '\n' :: caretRow quoted ++ ['\n'] ∧
      '\n' ∉ quotedRow line quoted ∧ '\n' ∉ caretRow quoted ∧
      (caretRow quoted).count '^' = max 1 (Text.byteCount (Text.trim quoted)) ∧
      (caretRow quoted).idxOf '^' =
        7 + Text.byteCount (quoted.takeWhile Text.isBlank) ∧
      (Underlines line quoted (caretRow quoted) ↔
        Text.trim quoted = [] ∨
          (∀ c ∈ Text.trim quoted, c.utf8Size = 1) ∧
            Text.byteCount (quoted.takeWhile Text.isBlank) -
                (quoted.takeWhile Text.isBlank).length =
              (Nat.toDigits 10 line).length - 4) := by
  intro e quoted
  refine ⟨toList_report rfl source, newline_notMem_quotedRow ?_ line,
    newline_notMem_caretRow quoted, count_caretRow quoted, idxOf_caretRow quoted,
    underlines_caretRow_iff line quoted⟩
  exact newline_notMem_quotedLine source line

/-- A layer type with two letters of two bytes each, on the first line. -/
def wideTypeError : Error :=
  ⟨.unknownLayer "größe" ["fill"] [], some 1⟩

/-- The line of this error has seven carets under its five characters.  Under a line with a
number of five digits the carets begin one column before the text. -/
theorem not_underlines_of_wide :
    (wideTypeError.report "größe\n").toList = wideTypeError.quoting 1 "größe".toList ∧
      ¬ Underlines 1 "größe".toList (caretRow "größe".toList) ∧
      ¬ Underlines 10000 "fill".toList (caretRow "fill".toList) := by
  refine ⟨toList_report rfl _, fun h => ?_, fun h => ?_⟩
  · exact absurd h.count_eq (by decide)
  · exact absurd (h.column_eq (by decide)) (by decide)

end Error
end SpecOverlay
