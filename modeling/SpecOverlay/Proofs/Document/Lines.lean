import Mathlib.Data.List.Forall2
import SpecOverlay.Proofs.Document.Runs
import SpecOverlay.Proofs.Text.Words

/-!
# What the division of a document sees of its lines

A document is divided by the kinds of its lines, and of the lines themselves it reads the
declarations alone.  So lines that are exchanged for others of the same kinds, which declare
the same, leave the division as it is (`Document.Indistinct`): the globals are the same, and
each block begins on the same line and has the exchanged lines (`Block.Related`).  This is
`Document.related_split`.

The kind of a line shows in its first word already (`LineKind.ofTrimmed_append`).
-/

namespace SpecOverlay

/-! ## The first word of a line -/

namespace LineKind

/-- The first two characters tell the kind of a line. -/
theorem ofTrimmed_cons_cons (c d : Char) (s s' : List Char) :
    ofTrimmed (c :: d :: s) = ofTrimmed (c :: d :: s') := by
  unfold ofTrimmed
  split <;> simp_all

/-- The second character counts only if it is a slash. -/
theorem ofTrimmed_cons_of_ne (c : Char) {d : Char} (hd : d ≠ '/') (s : List Char) :
    ofTrimmed (c :: d :: s) = ofTrimmed [c] := by
  unfold ofTrimmed
  split <;> simp_all

/-- **The kind of a line shows in its first word.** -/
theorem ofTrimmed_append {w t : List Char} (hw : w ≠ [])
    (ht : ∀ c ∈ t.head?, Text.isBlank c = true) : ofTrimmed (w ++ t) = ofTrimmed w := by
  cases w with
  | nil => exact absurd rfl hw
  | cons c w =>
    cases w with
    | cons d w => exact ofTrimmed_cons_cons c d (w ++ t) w
    | nil =>
      cases t with
      | nil => rfl
      | cons d t =>
        refine ofTrimmed_cons_of_ne c ?_ t
        rintro rfl
        exact absurd (ht '/' rfl) (by decide)

theorem of_eq_of_word {text : String} {lead word rest : List Char} (hlead : Text.Blanks lead)
    (hword : Text.IsWord word) (hrest : ∀ c ∈ rest.head?, Text.isBlank c = true)
    (h : text.toList = lead ++ (word ++ rest)) : LineKind.of text = ofTrimmed word := by
  obtain ⟨t, ht, hblank⟩ := Text.exists_trim_word_append hword hrest
  rw [LineKind.of, h, Text.trim_blanks_append hlead, ht, ofTrimmed_append hword.1 hblank]

end LineKind

/-! ## Lines that are exchanged -/

/-- Related lines are of the same kind and declare the same. -/
structure Document.Indistinct (R : String → String → Prop) : Prop where
  kind_eq : ∀ {text text' : String}, R text text' → LineKind.of text' = LineKind.of text
  declareLine_eq : ∀ {text text' : String}, R text text' → LineKind.of text = .declaration →
    ∀ (scope : Scope) (line : Nat), scope.declareLine line text' = scope.declareLine line text

variable {R : String → String → Prop}

namespace Block

/-- Two blocks begin on the same line and have related lines. -/
structure Related (R : String → String → Prop) (b b' : Block) : Prop where
  start_eq : b'.start = b.start
  lines : List.Forall₂ R b.lines b'.lines

/-- Related lines form related runs. -/
theorem related_runs (hR : Document.Indistinct R) {texts texts' : List String}
    (h : List.Forall₂ R texts texts') (line : Nat) :
    List.Forall₂ (Related R) (runs line texts) (runs line texts') := by
  induction h generalizing line with
  | nil => exact .nil
  | @cons text text' texts texts' htext _ ih =>
    have ih := ih (line + 1)
    have hkind := hR.kind_eq htext
    have hsingle : Related R ⟨line, [text]⟩ ⟨line, [text']⟩ := ⟨rfl, .cons htext .nil⟩
    by_cases hblank : LineKind.of text = .blank
    · rw [runs_cons_of_blank hblank, runs_cons_of_blank (hkind.trans hblank)]
      exact ih
    · rw [runs_cons_of_ne_blank hblank, runs_cons_of_ne_blank (by rwa [hkind])]
      cases hruns : runs (line + 1) texts with
      | nil =>
        rw [hruns, List.forall₂_nil_left_iff] at ih
        rw [ih]
        exact .cons hsingle .nil
      | cons b bs =>
        rw [hruns, List.forall₂_cons_left_iff] at ih
        obtain ⟨b', bs', hb, hbs, hruns'⟩ := ih
        rw [hruns']
        dsimp only
        rw [hb.start_eq]
        by_cases hstart : b.start = line + 1
        · rw [if_pos hstart, if_pos hstart]
          exact .cons ⟨rfl, .cons htext hb.lines⟩ hbs
        · rw [if_neg hstart, if_neg hstart]
          exact .cons hsingle (.cons hb hbs)

/-- Of two related blocks, both say something or neither. -/
theorem Related.hasContent_iff (hR : Document.Indistinct R) {b b' : Block} (h : b.Related R b') :
    b.hasContent = true ↔ b'.hasContent = true := by
  have hany : ∀ texts texts' : List String, List.Forall₂ R texts texts' →
      (texts'.any fun text => (LineKind.of text).isContent) =
        texts.any fun text => (LineKind.of text).isContent := by
    intro texts texts' hlines
    induction hlines with
    | nil => rfl
    | cons htext _ ih => rw [List.any_cons, List.any_cons, hR.kind_eq htext, ih]
  rw [hasContent, hasContent, hany _ _ h.lines]

end Block

namespace Document

variable {lines lines' : List String}

/-- Documents with related lines declare the same globals, or fail alike. -/
theorem related_readGlobals (hR : Indistinct R) (h : List.Forall₂ R lines lines') (scope : Scope)
    (line : Nat) :
    (∃ e, readGlobals scope line lines = .error e ∧ readGlobals scope line lines' = .error e) ∨
      ∃ globals start body body', readGlobals scope line lines = .ok (globals, start, body) ∧
        readGlobals scope line lines' = .ok (globals, start, body') ∧
        List.Forall₂ R body body' := by
  induction h generalizing scope line with
  | nil => exact .inr ⟨scope, line, [], [], rfl, rfl, .nil⟩
  | @cons text text' texts texts' htext htexts ih =>
    rw [readGlobals, readGlobals, hR.kind_eq htext]
    cases hkind : LineKind.of text with
    | blank => exact ih scope (line + 1)
    | comment => exact ih scope (line + 1)
    | declaration =>
      rw [hR.declareLine_eq htext hkind]
      cases scope.declareLine line text with
      | error e => exact .inl ⟨e, rfl, rfl⟩
      | ok scope' => exact ih scope' (line + 1)
    | title => exact .inr ⟨scope, line, _, _, rfl, rfl, .cons htext htexts⟩
    | layer => exact .inr ⟨scope, line, _, _, rfl, rfl, .cons htext htexts⟩

/-- **Documents with related lines have the same globals and related blocks**, or fail
alike. -/
theorem related_split (hR : Indistinct R) (h : List.Forall₂ R lines lines') :
    (∃ e, split lines = .error e ∧ split lines' = .error e) ∨
      ∃ globals blocks blocks', split lines = .ok ⟨globals, blocks⟩ ∧
        split lines' = .ok ⟨globals, blocks'⟩ ∧
        List.Forall₂ (Block.Related R) blocks blocks' := by
  rw [split, split]
  rcases related_readGlobals hR h .empty 1 with
    ⟨e, he, he'⟩ | ⟨globals, start, body, body', hok, hok', hbody⟩
  · rw [he, he']
    exact .inl ⟨e, rfl, rfl⟩
  · rw [hok, hok']
    refine .inr ⟨globals, _, _, rfl, rfl, ?_⟩
    exact List.rel_filter (fun b b' hb => hb.hasContent_iff hR) (Block.related_runs hR hbody start)

end Document
end SpecOverlay
