import SpecOverlay.Proofs.Toml.Laws
import SpecOverlay.Proofs.Toml.Numbers
import SpecOverlay.Toml.Document

/-!
# Documents of sections

The simplest documents are sections: a header with a name, and below it lines that give keys their
values.  Such a document is read as one table for each section (`read?_sections`).

The text is read line by line (`readStatements?_lines`, by induction on the lines).  The statements
are carried out section by section, where the section under construction is always the last one:
an assignment extends it by one field, and a header begins another one behind it
(`build?_sections`).
-/

namespace SpecOverlay
namespace Toml

variable {key s rest : List Char} {c : Char} {name : String} {n bound : ℕ}

/-! ## Lines -/

/-- A line of a document of sections: the header of one, which a blank line may precede, or a key
with the text of its value. -/
inductive Line where
  | header (gap : Bool) (name : String)
  | entry (key : String) (text : List Char) (value : Value)

namespace Line

/-- A line as it is written. -/
def text : Line → List Char
  | header gap name => (if gap then ['\n'] else []) ++ '[' :: (name.toList ++ [']', '\n'])
  | entry key text _ => key.toList ++ ' ' :: '=' :: ' ' :: (text ++ ['\n'])

/-- What a line says. -/
def statement : Line → Statement
  | header _ name => .header [name]
  | entry key _ value => .assignment [key] value

/-- A line with a bare key, and with a text that spells its value. -/
def Valid : Line → Prop
  | header _ name => IsBare name.toList
  | entry key text value => IsBare key.toList ∧ Spells text value

end Line

/-! ## Reading a line -/

theorem isBareChar_ne {d : Char} (hc : isBareChar c) (hd : isBareChar d = false) : c ≠ d := by
  rintro rfl
  exact Bool.false_ne_true (hd.symm.trans hc)

theorem IsBare.append_ne {t : List Char} (h : IsBare key) (hc : isBareChar c = false) :
    key ++ s ≠ c :: t := by
  obtain ⟨d, tail, rfl⟩ := List.exists_cons_of_ne_nil h.ne_nil
  intro heq
  exact isBareChar_ne (h.bare d List.mem_cons_self) hc (List.cons.inj heq).1

/-- No blank is skipped where none stands. -/
theorem skipSpace_cons (hc : isSpace c = false) (s : List Char) : skipSpace (c :: s) = c :: s := by
  rw [skipSpace, List.dropWhile_cons, hc, if_neg Bool.false_ne_true]

theorem isSpace_of_isBareChar (hc : isBareChar c) : isSpace c = false := by
  rw [isSpace, beq_false_of_ne (isBareChar_ne hc (by decide)),
    beq_false_of_ne (isBareChar_ne hc (by decide))]
  rfl

/-- A bare key is read up to the first character that cannot belong to it. -/
theorem readKeyPart?_bare (h : IsBare key) (hc : isBareChar c = false) (rest : List Char) :
    readKeyPart? (key ++ c :: rest) = some (key, c :: rest) := by
  have htake : (key ++ c :: rest).takeWhile isBareChar = key := by
    rw [List.takeWhile_append_of_pos h.bare, List.takeWhile_cons, hc, if_neg Bool.false_ne_true,
      List.append_nil]
  have hdrop : (key ++ c :: rest).dropWhile isBareChar = c :: rest := by
    rw [List.dropWhile_append_of_pos h.bare, List.dropWhile_cons, hc, if_neg Bool.false_ne_true]
  obtain ⟨d, tail, rfl⟩ := List.exists_cons_of_ne_nil h.ne_nil
  rw [readKeyPart?]
  · rw [htake, hdrop]
  · exact fun s => h.append_ne (by decide)
  · exact fun s => h.append_ne (by decide)

theorem readKey?_bare (h : IsBare key) (hc : isBareChar c = false)
    (hs : skipSpace (c :: rest) = s) (hpoint : s.head? ≠ some '.') :
    readKey? (key ++ c :: rest) = some ([String.ofList key], s) := by
  have hstart : skipSpace (key ++ c :: rest) = key ++ c :: rest := by
    obtain ⟨d, tail, rfl⟩ := List.exists_cons_of_ne_nil h.ne_nil
    exact skipSpace_cons (isSpace_of_isBareChar (h.bare d List.mem_cons_self)) _
  rw [readKey?, nestingLimit, readKeyParts?, hstart, readKeyPart?_bare h hc]
  simp only [hs]
  split
  · exact absurd rfl hpoint
  · rfl

/-- A text that spells a value is read as a value. -/
theorem Spells.readValue? {text : List Char} {v : Value} (h : Spells text v) (depth : ℕ)
    (rest : List Char) :
    Toml.readValue? (n + 1) depth (text ++ '\n' :: rest) = some (v, '\n' :: rest) := by
  rw [← h.reads rest]
  obtain ⟨d, tail, rfl, hd⟩ := h.first
  have hne {e : Char} (he : e.isDigit = false ∧ e ≠ '-' ∧ e ≠ 'i') : d ≠ e := by
    rintro rfl
    rcases hd with hd | rfl | rfl
    · exact Bool.false_ne_true (he.1.symm.trans hd)
    · exact he.2.1 rfl
    · exact he.2.2 rfl
  rw [List.cons_append, Toml.readValue?]
  · exact hne (by decide)
  · exact hne (by decide)
  · exact hne (by decide)
  · exact hne (by decide)
  · exact fun heq _ => hne (by decide) heq
  · exact fun _ heq _ => hne (by decide) heq
  · exact fun heq _ => hne (by decide) heq
  · exact fun _ heq _ => hne (by decide) heq

theorem readStatement?_header (h : IsBare name.toList) (rest : List Char) :
    readStatement? bound ('[' :: (name.toList ++ ']' :: rest)) = some (.header [name], rest) := by
  have hkey := readKey?_bare h (c := ']') (by decide) (skipSpace_cons (by decide) rest) nofun
  rw [String.ofList_toList] at hkey
  rw [readStatement?]
  · rw [readHeader?, hkey]
    rfl
  · exact fun s heq => h.append_ne (by decide) heq

theorem readStatement?_entry {key : String} {text : List Char} {v : Value} (h : IsBare key.toList)
    (hv : Spells text v) (rest : List Char) :
    readStatement? (n + 1) (key.toList ++ ' ' :: '=' :: ' ' :: (text ++ '\n' :: rest)) =
      some (.assignment [key] v, '\n' :: rest) := by
  have hspace : skipSpace (' ' :: (text ++ '\n' :: rest)) = text ++ '\n' :: rest := by
    obtain ⟨d, tail, rfl, hd⟩ := hv.first
    have hd : isSpace d = false := by
      rcases hd with hd | rfl | rfl
      · rw [isSpace, beq_false_of_ne (isDigit_ne hd (by decide)),
          beq_false_of_ne (isDigit_ne hd (by decide))]
        rfl
      · rfl
      · rfl
    exact skipSpace_cons hd _
  have hequals : skipSpace (' ' :: '=' :: ' ' :: (text ++ '\n' :: rest)) =
    '=' :: ' ' :: (text ++ '\n' :: rest) := rfl
  have hkey := readKey?_bare h (by decide) hequals nofun
  rw [String.ofList_toList] at hkey
  rw [readStatement?]
  · rw [hkey]
    simp only [hspace, hv.readValue?]
    rfl
  · exact fun s => h.append_ne (by decide)
  · exact fun s => h.append_ne (by decide)

/-! ## Reading all lines -/

theorem skipLines_cons (hspace : isSpace c = false) (hcomment : c ≠ '#') (hfeed : c ≠ '\n')
    (hreturn : c ≠ '\r') (s : List Char) : skipLines (n + 1) (c :: s) = c :: s := by
  have hstart : skipComment (skipSpace (c :: s)) = c :: s := by
    rw [skipSpace_cons hspace, skipComment]
    rintro t ⟨⟩
    exact hcomment rfl
  have hnone : readNewline? (c :: s) = none := by
    rw [readNewline?]
    · rintro t ⟨⟩
      exact hfeed rfl
    · rintro t ⟨⟩
      exact hreturn rfl
  simp only [skipLines, hstart, hnone]

theorem skipLines_bare (h : IsBare key) (s : List Char) :
    skipLines (n + 1) (key ++ s) = key ++ s := by
  obtain ⟨d, tail, rfl⟩ := List.exists_cons_of_ne_nil h.ne_nil
  have hd := h.bare d List.mem_cons_self
  exact skipLines_cons (isSpace_of_isBareChar hd) (isBareChar_ne hd (by decide))
    (isBareChar_ne hd (by decide)) (isBareChar_ne hd (by decide)) _

/-- A statement and the line behind it. -/
theorem readStatements?_step {t : List Char} {statement : Statement}
    (hskip : skipLines bound s = t) (hne : t ≠ [])
    (hread : readStatement? bound t = some (statement, '\n' :: rest)) :
    readStatements? bound (n + 1) s = (readStatements? bound n rest).map (statement :: ·) := by
  have hend : readLineEnd? ('\n' :: rest) = some rest := rfl
  obtain ⟨d, tail, rfl⟩ := List.exists_cons_of_ne_nil hne
  simp only [readStatements?, hskip, hread, hend]

theorem readStatements?_line {l : Line} (h : l.Valid) (rest : List Char) :
    readStatements? (bound + 2) (n + 1) (l.text ++ rest) =
      (readStatements? (bound + 2) n rest).map (l.statement :: ·) := by
  cases l with
  | header gap name =>
    have hline : skipLines (bound + 2) ((Line.header gap name).text ++ rest) =
        '[' :: (name.toList ++ ']' :: '\n' :: rest) := by
      have hheader (n : ℕ) := skipLines_cons (n := n) (c := '[') (by decide) (by decide) (by decide)
        (by decide) (name.toList ++ ']' :: '\n' :: rest)
      simp only [Line.text, List.append_assoc, List.cons_append, List.nil_append]
      cases gap with
      | false => exact hheader (bound + 1)
      | true => exact hheader bound
    exact readStatements?_step hline (List.cons_ne_nil _ _) (readStatement?_header h _)
  | entry key text value =>
    have hline : skipLines (bound + 2) ((Line.entry key text value).text ++ rest) =
        key.toList ++ ' ' :: '=' :: ' ' :: (text ++ '\n' :: rest) := by
      simp only [Line.text, List.append_assoc, List.cons_append, List.nil_append]
      exact skipLines_bare h.1 _
    exact readStatements?_step hline (by simp) (readStatement?_entry h.1 h.2 _)

/-- A line is not empty, and it does not begin with a byte order mark. -/
theorem Line.exists_text {l : Line} (h : l.Valid) : ∃ c s, l.text = c :: s ∧ c ≠ '\uFEFF' := by
  cases l with
  | header gap name =>
    cases gap with
    | false => exact ⟨_, _, rfl, by decide⟩
    | true => exact ⟨_, _, rfl, by decide⟩
  | entry key text value =>
    obtain ⟨c, s, hkey⟩ := List.exists_cons_of_ne_nil h.1.ne_nil
    refine ⟨c, s ++ ' ' :: '=' :: ' ' :: (text ++ ['\n']), by rw [Line.text, hkey]; rfl, ?_⟩
    exact isBareChar_ne (h.1.bare c (hkey ▸ List.mem_cons_self)) (by decide)

theorem dropMark_lines {lines : List Line} (h : ∀ l ∈ lines, l.Valid) :
    dropMark (lines.flatMap Line.text) = lines.flatMap Line.text := by
  cases lines with
  | nil => rfl
  | cons l lines =>
    obtain ⟨c, s, htext, hc⟩ := Line.exists_text (h l List.mem_cons_self)
    rw [List.flatMap_cons, htext, List.cons_append, dropMark]
    exact fun t heq => hc (List.cons.inj heq).1

theorem length_le_text {lines : List Line} (h : ∀ l ∈ lines, l.Valid) :
    lines.length ≤ (lines.flatMap Line.text).length := by
  induction lines with
  | nil => exact Nat.le_refl 0
  | cons l lines ih =>
    obtain ⟨hl, hlines⟩ := List.forall_mem_cons.mp h
    obtain ⟨c, s, htext, -⟩ := Line.exists_text hl
    have hle := ih hlines
    rw [List.flatMap_cons, List.length_append, htext, List.length_cons, List.length_cons]
    omega

/-- **A document of valid lines is read as their statements.** -/
theorem readStatements?_lines {lines : List Line} (h : ∀ l ∈ lines, l.Valid)
    (hn : lines.length < n) :
    readStatements? (bound + 2) n (lines.flatMap Line.text) = some (lines.map Line.statement) := by
  induction lines generalizing n with
  | nil =>
    obtain ⟨n, rfl⟩ := Nat.exists_eq_add_of_lt hn
    rfl
  | cons l lines ih =>
    obtain ⟨n, rfl⟩ := Nat.exists_eq_succ_of_ne_zero (Nat.ne_zero_of_lt hn)
    obtain ⟨hl, hlines⟩ := List.forall_mem_cons.mp h
    rw [List.flatMap_cons, readStatements?_line hl, ih hlines (Nat.lt_of_succ_lt_succ hn)]
    rfl

/-- The bounds for the reading are large enough. -/
theorem read?_lines {lines : List Line} (h : ∀ l ∈ lines, l.Valid) :
    read? (String.ofList (lines.flatMap Line.text)) =
      (build? [] [] (lines.map Line.statement)).map Entry.toFields := by
  have hlength := length_le_text h
  have hstatements : readStatements? ((lines.flatMap Line.text).length + 1)
      ((lines.flatMap Line.text).length + 1) (lines.flatMap Line.text) =
        some (lines.map Line.statement) := by
    cases lines with
    | nil => rfl
    | cons l lines =>
      obtain ⟨bound, hbound⟩ : ∃ bound, (List.flatMap Line.text (l :: lines)).length = bound + 1 :=
        Nat.exists_eq_add_one.mpr (Nat.lt_of_lt_of_le (Nat.succ_pos _) hlength)
      rw [hbound] at hlength ⊢
      exact readStatements?_lines h (Nat.lt_succ_of_le hlength)
  simp only [read?, String.toList_ofList, dropMark_lines h]
  rw [hstatements, Option.bind_some]

/-! ## Sections -/

/-- A key of a section, and its value with the text of it. -/
structure Field where
  key : String
  text : List Char
  value : Value

/-- The line of a field. -/
def Field.line (f : Field) : Line :=
  .entry f.key f.text f.value

/-- A field of the table that its section makes. -/
def Field.pair (f : Field) : String × Value :=
  (f.key, f.value)

/-- A section: its name and its fields, and whether a blank line stands in front of it. -/
structure TableSection where
  gap : Bool
  name : String
  fields : List Field

namespace TableSection

/-- The lines of a section. -/
def lines (sec : TableSection) : List Line :=
  .header sec.gap sec.name :: sec.fields.map Field.line

/-- The table that a section makes. -/
def table (sec : TableSection) : String × Value :=
  (sec.name, .table (sec.fields.map Field.pair))

/-- A section whose lines are valid and whose keys are different. -/
structure Valid (sec : TableSection) : Prop where
  lines : ∀ l ∈ sec.lines, l.Valid
  nodup : (sec.fields.map Field.key).Nodup

end TableSection

/-- The text of sections. -/
def sectionsText (sections : List TableSection) : List Char :=
  (sections.flatMap TableSection.lines).flatMap Line.text

/-- A field as an entry of a table under construction. -/
def Field.entry (f : Field) : String × Entry :=
  (f.key, .value f.value)

/-- A section as an entry of a document under construction. -/
def TableSection.entry (sec : TableSection) : String × Entry :=
  (sec.name, .table .header (sec.fields.map Field.entry))

variable {β : Type} {done : List (String × β)} {x y : β} {fields inner : List Field}
  {sections : List TableSection} {statements : List Statement}

theorem lookup_eq_none (h : name ∉ done.map Prod.fst) : done.lookup name = none :=
  List.lookup_eq_none_iff.mpr fun _ hf => bne_iff_ne.mpr fun heq =>
    h (heq ▸ List.mem_map_of_mem hf)

theorem lookup_last (h : name ∉ done.map Prod.fst) :
    (done ++ [(name, y)]).lookup name = some y := by
  have hnone : done.lookup name = none := lookup_eq_none h
  rw [List.lookup_append, hnone, List.lookup_cons_self]
  rfl

theorem replaceField_last (h : name ∉ done.map Prod.fst) :
    replaceField name x (done ++ [(name, y)]) = done ++ [(name, x)] := by
  have hdone : replaceField name x done = done := by
    refine (List.map_congr_left fun f hf => if_neg fun heq => h ?_).trans (List.map_id done)
    exact heq ▸ List.mem_map_of_mem hf
  have happend : replaceField name x (done ++ [(name, y)]) =
    replaceField name x done ++ replaceField name x [(name, y)] := List.map_append
  rw [happend, hdone, replaceField, List.map_singleton, if_pos rfl]

/-- An assignment extends the last table. -/
theorem build?_assignment {done : List (String × Entry)} {inner : List (String × Entry)} {f : Field}
    (hname : name ∉ done.map Prod.fst) (hkey : f.key ∉ inner.map Prod.fst) :
    build? [name] (done ++ [(name, .table .header inner)])
        (.assignment [f.key] f.value :: statements) =
      build? [name] (done ++ [(name, .table .header (inner ++ [f.entry]))]) statements := by
  have hassign : atKey? .opened [f.key] .header
      (fun key => assign? ([f.key].length == 1) key f.value) inner = some (inner ++ [f.entry]) := by
    have hdescend : atKey? .opened [f.key] .header
        (fun key => assign? ([f.key].length == 1) key f.value) inner =
      assign? true f.key f.value .header inner := rfl
    rw [hdescend, assign?, Bool.true_or, if_pos rfl, lookup_eq_none hkey]
    rfl
  rw [build?, descend?, lookup_last hname]
  simp only [descend?, hassign, Option.map_some, replaceField_last hname]
  rfl

/-- **The fields of a section are put into its table**, one after the other. -/
theorem build?_fields (inner fields : List Field) {done : List (String × Entry)}
    (hname : name ∉ done.map Prod.fst)
    (hkeys : ((inner ++ fields).map Field.key).Nodup) (statements : List Statement) :
    build? [name] (done ++ [(name, .table .header (inner.map Field.entry))])
        (fields.map (fun f => .assignment [f.key] f.value) ++ statements) =
      build? [name] (done ++ [(name, .table .header ((inner ++ fields).map Field.entry))])
        statements := by
  induction fields generalizing inner with
  | nil => rw [List.append_nil]; rfl
  | cons f fields ih =>
    have hkey : f.key ∉ (inner.map Field.entry).map Prod.fst := by
      rw [List.map_map]
      rw [List.map_append, List.map_cons] at hkeys
      exact fun hmem => (List.nodup_append.mp hkeys).2.2 _ hmem _ List.mem_cons_self rfl
    have hassoc : inner ++ f :: fields = inner ++ [f] ++ fields := List.append_cons ..
    have hinner : inner.map Field.entry ++ [f.entry] = (inner ++ [f]).map Field.entry := by
      rw [List.map_append]
      rfl
    rw [hassoc] at hkeys ⊢
    rw [List.map_cons, List.cons_append, build?_assignment hname hkey, hinner, ih _ hkeys]

/-- **Sections with different names become tables.** -/
theorem build?_sections (current : List String) (done : List (String × Entry))
    (hvalid : ∀ s ∈ sections, s.Valid)
    (hnames : (done.map Prod.fst ++ sections.map TableSection.name).Nodup) :
    build? current done ((sections.flatMap TableSection.lines).map Line.statement) =
      some (done ++ sections.map TableSection.entry) := by
  induction sections generalizing done current with
  | nil =>
    rw [List.map_nil, List.append_nil]
    rfl
  | cons s sections ih =>
    obtain ⟨hs, hvalid⟩ := List.forall_mem_cons.mp hvalid
    rw [List.map_cons] at hnames
    have hname : s.name ∉ done.map Prod.fst := fun hmem =>
      (List.nodup_append.mp hnames).2.2 _ hmem _ List.mem_cons_self rfl
    have hheader : atKey? .implied [s.name] .header define? done =
        some (done ++ [(s.name, .table .header [])]) := by
      have hdefine : atKey? .implied [s.name] .header define? done =
        define? s.name .header done := rfl
      rw [hdefine, define?, lookup_eq_none hname]
    have hdone : (done ++ [s.entry]).map Prod.fst ++ sections.map TableSection.name =
        done.map Prod.fst ++ s.name :: sections.map TableSection.name := by
      rw [List.map_append, List.append_assoc]
      rfl
    have hstatements : ((s :: sections).flatMap TableSection.lines).map Line.statement =
        .header [s.name] :: (s.fields.map (fun f => .assignment [f.key] f.value) ++
          (sections.flatMap TableSection.lines).map Line.statement) := by
      rw [List.flatMap_cons, List.map_append, TableSection.lines, List.map_cons, List.map_map]
      rfl
    have hfields := build?_fields [] s.fields hname hs.nodup
      ((sections.flatMap TableSection.lines).map Line.statement)
    rw [List.nil_append, List.map_nil] at hfields
    rw [hstatements, build?, hheader, Option.bind_some, hfields, ← TableSection.entry,
      ih _ _ hvalid (hdone ▸ hnames), List.append_assoc]
    rfl

theorem toFields_sections (sections : List TableSection) :
    Entry.toFields (sections.map TableSection.entry) = sections.map TableSection.table := by
  have hfields (fields : List Field) :
      Entry.toFields (fields.map Field.entry) = fields.map Field.pair := by
    induction fields with
    | nil => rfl
    | cons f fields ih =>
      rw [List.map_cons, List.map_cons, Field.entry, Entry.toFields, ih]
      rfl
  induction sections with
  | nil => rfl
  | cons s sections ih =>
    rw [List.map_cons, List.map_cons, TableSection.entry, Entry.toFields, ih, Entry.toValue,
      hfields]
    rfl

/-- **A document of sections is read as their tables.** -/
theorem read?_sections (hvalid : ∀ s ∈ sections, s.Valid)
    (hnames : (sections.map TableSection.name).Nodup) :
    read? (String.ofList (sectionsText sections)) = some (sections.map TableSection.table) := by
  have hlines : ∀ l ∈ sections.flatMap TableSection.lines, l.Valid := fun l hl => by
    obtain ⟨s, hs, hl⟩ := List.mem_flatMap.mp hl
    exact (hvalid s hs).lines l hl
  rw [sectionsText, read?_lines hlines, build?_sections [] [] hvalid hnames, Option.map_some,
    List.nil_append, toFields_sections]

end Toml
end SpecOverlay
