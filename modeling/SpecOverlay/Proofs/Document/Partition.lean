import SpecOverlay.Proofs.Document.Runs
import SpecOverlay.Proofs.Inflation.Run

/-!
# What a document is split into

A document begins with its global part, which ends before the first title or layer.  The
rest is its body.  `split_iff` says what splitting gives, in terms of the lines alone:

* It fails if, and only if, one of the declarations in the global part cannot be declared
  after those before it.  The error is the one of the first such declaration, on its line.
* Otherwise the globals are what these declarations bind, and the blocks are the maximal
  runs of lines of the body that are not blank and hold some content, in order.  So every
  line of the body that says something is in exactly one block, at its own number
  (`Document.Partitions`).

Splitting reads the global part line by line; `readGlobals_eq` says that this is to
declare its declarations in order.
-/

namespace SpecOverlay

/-! ## Declarations in order -/

namespace Scope

variable {s t : Scope} {line : Nat} {text : String} {e : Error} {ds : List (String × Nat)}

/-- Declares what lines with their numbers declare, first to last. -/
def declareAll (s : Scope) (ds : List (String × Nat)) : Except Error Scope :=
  ds.foldlM (fun s d => s.declareLine d.2 d.1) s

@[simp] theorem declareAll_nil (s : Scope) : s.declareAll [] = .ok s := rfl

theorem declareAll_cons_of_ok (h : s.declareLine line text = .ok t) :
    s.declareAll ((text, line) :: ds) = t.declareAll ds := by
  rw [declareAll, List.foldlM_cons, h]
  rfl

theorem declareAll_cons_of_error (h : s.declareLine line text = .error e) :
    s.declareAll ((text, line) :: ds) = .error e := by
  rw [declareAll, List.foldlM_cons, h]
  rfl

theorem declareAll_append (s : Scope) (ds ds' : List (String × Nat)) :
    s.declareAll (ds ++ ds') = (s.declareAll ds).bind fun t => t.declareAll ds' :=
  List.foldlM_append

/-- **Declaring in order fails at the first declaration that fails.** -/
theorem declareAll_eq_error_iff :
    s.declareAll ds = .error e ↔
      ∃ before text line after t, ds = before ++ (text, line) :: after ∧
        s.declareAll before = .ok t ∧ t.declareLine line text = .error e := by
  constructor
  · intro h
    induction ds generalizing s with
    | nil => exact absurd h (by simp)
    | cons d ds ih =>
      obtain ⟨text, line⟩ := d
      cases hd : s.declareLine line text with
      | error e' =>
        rw [declareAll_cons_of_error hd] at h
        exact ⟨[], text, line, ds, s, rfl, rfl, hd.trans h⟩
      | ok t =>
        rw [declareAll_cons_of_ok hd] at h
        obtain ⟨before, text', line', after, t', rfl, hbefore, hfails⟩ := ih h
        refine ⟨(text, line) :: before, text', line', after, t', rfl, ?_, hfails⟩
        rwa [declareAll_cons_of_ok hd]
  · rintro ⟨before, text, line, after, t, rfl, hbefore, hfails⟩
    rw [declareAll_append, hbefore]
    exact declareAll_cons_of_error hfails

/-- The error of a declaration has the line of the declaration. -/
theorem line_of_declareLine (h : s.declareLine line text = .error e) : e.line = some line := by
  rw [declareLine_line] at h
  cases h0 : s.declareLine 0 text with
  | ok t => simp [h0] at h
  | error e' =>
    rw [h0, mapError_error, Except.error.injEq] at h
    rw [← h]
    rfl

end Scope

/-! ## The global part -/

/-- Whether a line of this kind is no part of the globals. -/
def LineKind.opensBody : LineKind → Bool
  | blank => false
  | comment => false
  | declaration => false
  | title => true
  | layer => true

theorem LineKind.ne_blank_of_isContent {kind : LineKind} (h : kind.isContent = true) :
    kind ≠ .blank := by
  rintro rfl
  exact absurd h (by simp [isContent])

namespace Document

variable {lines texts : List String} {text : String} {line : Nat} {scope : Scope}

/-- The index of the first title or layer, and the number of lines if there is none. -/
def bodyIndex (lines : List String) : Nat :=
  lines.findIdx fun text => (LineKind.of text).opensBody

/-- The declarations before the first title or layer with their numbers, where the first
line has the given number. -/
def globalDeclarations (line : Nat) (lines : List String) : List (String × Nat) :=
  ((lines.take (bodyIndex lines)).zipIdx line).filter fun d => LineKind.of d.1 = .declaration

theorem bodyIndex_cons_of_opensBody (h : (LineKind.of text).opensBody = true) :
    bodyIndex (text :: texts) = 0 := by
  rw [bodyIndex, List.findIdx_cons, h]
  rfl

theorem bodyIndex_cons_of_not_opensBody (h : (LineKind.of text).opensBody = false) :
    bodyIndex (text :: texts) = bodyIndex texts + 1 := by
  rw [bodyIndex, List.findIdx_cons, h]
  rfl

theorem globalDeclarations_cons_of_opensBody (h : (LineKind.of text).opensBody = true) :
    globalDeclarations line (text :: texts) = [] := by
  rw [globalDeclarations, bodyIndex_cons_of_opensBody h]
  rfl

theorem globalDeclarations_cons_of_not_opensBody (h : (LineKind.of text).opensBody = false) :
    globalDeclarations line (text :: texts) =
      if LineKind.of text = .declaration then
        (text, line) :: globalDeclarations (line + 1) texts
      else globalDeclarations (line + 1) texts := by
  rw [globalDeclarations, bodyIndex_cons_of_not_opensBody h, List.take_succ_cons,
    List.zipIdx_cons, List.filter_cons]
  by_cases hkind : LineKind.of text = .declaration
  · rw [if_pos (by simpa using hkind), if_pos hkind, globalDeclarations]
  · rw [if_neg (by simpa using hkind), if_neg hkind, globalDeclarations]

theorem readGlobals_cons_of_opensBody (h : (LineKind.of text).opensBody = true) :
    readGlobals scope line (text :: texts) = .ok (scope, line, text :: texts) := by
  rw [readGlobals]
  cases hkind : LineKind.of text with
  | title => rfl
  | layer => rfl
  | _ => exact absurd h (by simp [hkind, LineKind.opensBody])

/-- Blank lines and comments in the global part are passed over. -/
theorem readGlobals_cons_of_ne_declaration (h : (LineKind.of text).opensBody = false)
    (hkind : LineKind.of text ≠ .declaration) :
    readGlobals scope line (text :: texts) = readGlobals scope (line + 1) texts := by
  rw [readGlobals]
  cases hkind' : LineKind.of text with
  | blank => rfl
  | comment => rfl
  | declaration => exact absurd hkind' hkind
  | _ => exact absurd h (by simp [hkind', LineKind.opensBody])

/-- **To read the globals is to declare their declarations in order.** -/
theorem readGlobals_eq (scope : Scope) (line : Nat) (lines : List String) :
    readGlobals scope line lines =
      (scope.declareAll (globalDeclarations line lines)).map fun globals =>
        (globals, line + bodyIndex lines, lines.drop (bodyIndex lines)) := by
  induction lines generalizing scope line with
  | nil => rfl
  | cons text texts ih =>
    cases hopens : (LineKind.of text).opensBody with
    | true =>
      rw [readGlobals_cons_of_opensBody hopens, globalDeclarations_cons_of_opensBody hopens,
        bodyIndex_cons_of_opensBody hopens]
      rfl
    | false =>
      have hnumber : line + (bodyIndex texts + 1) = line + 1 + bodyIndex texts := by omega
      rw [globalDeclarations_cons_of_not_opensBody hopens,
        bodyIndex_cons_of_not_opensBody hopens, hnumber, List.drop_succ_cons]
      by_cases hkind : LineKind.of text = .declaration
      · rw [if_pos hkind, readGlobals, hkind]
        cases hd : scope.declareLine line text with
        | error e =>
          rw [Scope.declareAll_cons_of_error hd]
          rfl
        | ok scope' =>
          rw [Scope.declareAll_cons_of_ok hd]
          exact ih scope' (line + 1)
      · rw [if_neg hkind, readGlobals_cons_of_ne_declaration hopens hkind]
        exact ih scope (line + 1)

/-! ## Globals and blocks -/

/-- The blocks of the body of a document. -/
def bodyBlocks (lines : List String) : List Block :=
  (Block.runs (bodyIndex lines + 1) (lines.drop (bodyIndex lines))).filter Block.hasContent

/-- **A document is its globals and the blocks of its body.** -/
theorem split_eq (lines : List String) :
    split lines = (Scope.empty.declareAll (globalDeclarations 1 lines)).map fun globals =>
      ⟨globals, bodyBlocks lines⟩ := by
  rw [split, readGlobals_eq]
  cases Scope.empty.declareAll (globalDeclarations 1 lines) with
  | error e => rfl
  | ok globals =>
    dsimp only [Except.map]
    rw [Nat.add_comm 1]
    rfl

theorem mem_bodyBlocks_iff {b : Block} :
    b ∈ bodyBlocks lines ↔
      b.IsRun (bodyIndex lines + 1) (lines.drop (bodyIndex lines)) ∧ b.hasContent = true := by
  rw [bodyBlocks, List.mem_filter, Block.mem_runs_iff]

theorem pairwise_bodyBlocks (lines : List String) :
    (bodyBlocks lines).Pairwise Block.Precedes :=
  (Block.pairwise_runs _ _).sublist List.filter_sublist

/-- The lines of a block are lines of the body, at their own numbers. -/
theorem getElem?_of_mem_bodyBlocks {b : Block} (hb : b ∈ bodyBlocks lines) {k : Nat}
    (htext : b.lines[k]? = some text) :
    bodyIndex lines < b.start ∧ lines[b.start - 1 + k]? = some text ∧
      LineKind.of text ≠ .blank := by
  obtain ⟨hrun, -⟩ := mem_bodyBlocks_iff.mp hb
  obtain ⟨hk, -⟩ := List.getElem?_eq_some_iff.mp htext
  obtain ⟨hstart, hline⟩ := hrun.getElem?_eq hk
  refine ⟨hstart, ?_, ?_⟩
  · have hplace : bodyIndex lines + (b.start - (bodyIndex lines + 1) + k) = b.start - 1 + k := by
      omega
    rwa [List.getElem?_drop, htext, hplace] at hline
  · obtain ⟨before, after, hcut⟩ := hrun
    exact hcut.unbroken.2 text (List.mem_of_getElem? htext)

/-- A line of the body that says something is in a block, at its own number. -/
theorem exists_mem_bodyBlocks {k : Nat} (hk : bodyIndex lines ≤ k)
    (htext : lines[k]? = some text) (hcontent : (LineKind.of text).isContent = true) :
    ∃ b ∈ bodyBlocks lines, b.start ≤ k + 1 ∧ b.lines[k + 1 - b.start]? = some text := by
  have hbody : (lines.drop (bodyIndex lines))[k - bodyIndex lines]? = some text := by
    rwa [List.getElem?_drop, Nat.add_sub_cancel' hk]
  obtain ⟨b, hb, hstart, hline⟩ := Block.exists_mem_runs (bodyIndex lines + 1) hbody
    (LineKind.ne_blank_of_isContent hcontent)
  have hnumber : bodyIndex lines + 1 + (k - bodyIndex lines) = k + 1 := by omega
  rw [hnumber] at hstart hline
  refine ⟨b, List.mem_filter.mpr ⟨hb, ?_⟩, hstart, hline⟩
  exact List.any_eq_true.mpr ⟨text, List.mem_of_getElem? hline, hcontent⟩

/-- What it means that globals and blocks are those of a list of lines. -/
structure Partitions (lines : List String) (d : Document) : Prop where
  /-- The globals are what the declarations before the first title or layer bind. -/
  globals_eq : Scope.empty.declareAll (globalDeclarations 1 lines) = .ok d.globals
  /-- The blocks are the maximal runs of the body that are not blank and say something. -/
  mem_blocks_iff : ∀ b, b ∈ d.blocks ↔
    b.IsRun (bodyIndex lines + 1) (lines.drop (bodyIndex lines)) ∧ b.hasContent = true
  /-- The blocks come in order. -/
  ordered : d.blocks.Pairwise Block.Precedes
  /-- The lines of a block are lines of the body at their own numbers, and not blank. -/
  numbered : ∀ b ∈ d.blocks, ∀ (k : Nat) (text : String), b.lines[k]? = some text →
    bodyIndex lines < b.start ∧ lines[b.start - 1 + k]? = some text ∧ LineKind.of text ≠ .blank
  /-- A line of the body that says something is in one block only, at its own number. -/
  covered : ∀ (k : Nat) (text : String), bodyIndex lines ≤ k → lines[k]? = some text →
    (LineKind.of text).isContent = true →
    ∃! b, b ∈ d.blocks ∧ b.start ≤ k + 1 ∧ b.lines[k + 1 - b.start]? = some text

theorem partitions_bodyBlocks {globals : Scope}
    (h : Scope.empty.declareAll (globalDeclarations 1 lines) = .ok globals) :
    Partitions lines ⟨globals, bodyBlocks lines⟩ where
  globals_eq := h
  mem_blocks_iff _ := mem_bodyBlocks_iff
  ordered := pairwise_bodyBlocks lines
  numbered _ hb _ _ htext := getElem?_of_mem_bodyBlocks hb htext
  covered k text hk htext hcontent := by
    obtain ⟨b, hb, hstart, hline⟩ := exists_mem_bodyBlocks hk htext hcontent
    refine ⟨b, ⟨hb, hstart, hline⟩, ?_⟩
    rintro c ⟨hc, hcstart, hcline⟩
    have hblength := (List.getElem?_eq_some_iff.mp hline).1
    have hclength := (List.getElem?_eq_some_iff.mp hcline).1
    exact Block.eq_of_mem_of_line (pairwise_bodyBlocks lines) hc hb (n := k + 1)
      ⟨hcstart, by omega⟩ ⟨hstart, by omega⟩

/-- **Splitting fails at the first global declaration that fails**, on its line. -/
theorem split_eq_error_iff {e : Error} :
    split lines = .error e ↔
      ∃ before text line after scope,
        globalDeclarations 1 lines = before ++ (text, line) :: after ∧
        Scope.empty.declareAll before = .ok scope ∧
        scope.declareLine line text = .error e ∧ e.line = some line := by
  have hsplit : split lines = .error e ↔
      Scope.empty.declareAll (globalDeclarations 1 lines) = .error e := by
    rw [split_eq]
    cases Scope.empty.declareAll (globalDeclarations 1 lines) <;> simp [Except.map]
  rw [hsplit, Scope.declareAll_eq_error_iff]
  constructor
  · rintro ⟨before, text, line, after, scope, hds, hbefore, hfails⟩
    exact ⟨before, text, line, after, scope, hds, hbefore, hfails,
      Scope.line_of_declareLine hfails⟩
  · rintro ⟨before, text, line, after, scope, hds, hbefore, hfails, -⟩
    exact ⟨before, text, line, after, scope, hds, hbefore, hfails⟩

/-- Splitting gives the globals and the blocks, if the globals can be declared. -/
theorem split_eq_ok_iff_bodyBlocks {d : Document} :
    split lines = .ok d ↔
      Scope.empty.declareAll (globalDeclarations 1 lines) = .ok d.globals ∧
        d.blocks = bodyBlocks lines := by
  rw [split_eq]
  cases Scope.empty.declareAll (globalDeclarations 1 lines) with
  | error e => simp [Except.map]
  | ok globals =>
    constructor
    · intro h
      obtain rfl := Except.ok.inj h
      exact ⟨rfl, rfl⟩
    · rintro ⟨h, hblocks⟩
      obtain rfl := Except.ok.inj h
      rw [← hblocks]
      rfl

/-- **Splitting gives the one document that partitions the lines.** -/
theorem split_eq_ok_iff {d : Document} : split lines = .ok d ↔ Partitions lines d := by
  rw [split_eq_ok_iff_bodyBlocks]
  constructor
  · rintro ⟨hglobals, hblocks⟩
    have hpartitions := partitions_bodyBlocks hglobals
    rwa [← hblocks] at hpartitions
  · intro h
    refine ⟨h.globals_eq, Block.eq_of_mem_iff h.ordered (pairwise_bodyBlocks lines) fun b => ?_⟩
    exact (h.mem_blocks_iff b).trans mem_bodyBlocks_iff.symm

/-- **What a document is split into.**  Splitting fails if and only if a declaration
before the first title or layer fails after those before it, and then with the error of
the first such declaration, on its line.  Otherwise it gives the one document that has
the variables of these declarations for globals, and for blocks, in order, the maximal
runs of the lines that are not blank, from the first title or layer on, as far as they say
something. -/
theorem split_iff (lines : List String) :
    (∀ e, split lines = .error e ↔
      ∃ before text line after scope,
        globalDeclarations 1 lines = before ++ (text, line) :: after ∧
        Scope.empty.declareAll before = .ok scope ∧
        scope.declareLine line text = .error e ∧ e.line = some line) ∧
    ∀ d, split lines = .ok d ↔ Partitions lines d :=
  ⟨fun _ => split_eq_error_iff, fun _ => split_eq_ok_iff⟩

example : bodyBlocks ["// colors", "@accent=#FF0000", "# Grid", "", "// a note", "", "fill"] =
    [⟨3, ["# Grid"]⟩, ⟨7, ["fill"]⟩] := rfl

end Document
end SpecOverlay
