import Mathlib.Data.List.DropRight
import SpecOverlay.Text.Blank

/-!
# Words and the blanks around them

A text that is not blank is a sequence of words with blanks before, between and behind
them: a `Layout` is such a text in its parts, and `exists_layout` takes any text apart.
What is read from a text does not depend on all of the parts.

* `words_append_gap`: a text may be cut at any run of blanks, and its words are those of
  the two sides.  Blanks at the ends hold no words (`words_append_blanks`,
  `words_blanks_append`).  So the words of a layout are the words in it, whatever the
  blanks are (`Layout.words_text`).
* `trim_append_blanks`, `trim_blanks_append`: trimming does not see blanks that are added
  at the ends.  What it leaves of a layout begins with the first word and goes on with a
  blank or not at all (`Layout.exists_trim_text`).
* A text is what trimming leaves of it, between blanks (`exists_trim`).  Trimming leaves a
  text alone that neither begins nor ends with a blank (`trim_of_trimmed`).
-/

namespace SpecOverlay
namespace Text

/-! ## Blanks and words -/

/-- All characters are blank. -/
def Blanks (s : List Char) : Prop :=
  ∀ c ∈ s, isBlank c = true

/-- There are characters, and none of them is blank. -/
def IsWord (w : List Char) : Prop :=
  w ≠ [] ∧ ∀ c ∈ w, isBlank c = false

-- the characters in the list are tried, and not all characters that there are
instance (s : List Char) : Decidable (Blanks s) :=
  List.decidableBAll (isBlank · = true) s

instance (w : List Char) : Decidable (IsWord w) :=
  @instDecidableAnd _ _ _ (List.decidableBAll (isBlank · = false) w)

variable {s t w gap : List Char} {c : Char}

theorem Blanks.replicate_space (n : Nat) : Blanks (List.replicate n ' ') := by
  intro c hc
  rw [List.eq_of_mem_replicate hc]
  rfl

/-! ## The characters before another one -/

theorem takeWhile_append_cons {p : Char → Bool} (hs : ∀ c ∈ s, p c = true) (hc : p c = false)
    (t : List Char) : (s ++ c :: t).takeWhile p = s := by
  rw [List.takeWhile_append_of_pos hs, List.takeWhile_cons_of_neg (by simp [hc]), List.append_nil]

theorem dropWhile_append_cons {p : Char → Bool} (hs : ∀ c ∈ s, p c = true) (hc : p c = false)
    (t : List Char) : (s ++ c :: t).dropWhile p = c :: t := by
  rw [List.dropWhile_append_of_pos hs, List.dropWhile_cons_of_neg (by simp [hc])]

/-! ## The words of a text -/

theorem words_eq_ite (s : List Char) :
    words s = if (splitWords s).1.isEmpty then (splitWords s).2
      else (splitWords s).1 :: (splitWords s).2 := rfl

theorem splitWords_cons_of_blank (hc : isBlank c = true) (s : List Char) :
    splitWords (c :: s) = ([], words s) := by
  rcases h : splitWords s with ⟨w, ws⟩
  simp only [splitWords, words, h, hc, if_true]

theorem splitWords_cons_of_not_blank (hc : isBlank c = false) (s : List Char) :
    splitWords (c :: s) = (c :: (splitWords s).1, (splitWords s).2) := by
  rcases h : splitWords s with ⟨w, ws⟩
  simp [splitWords, h, hc]

/-- At a blank the first word ends, and what comes after the blank adds its words. -/
theorem splitWords_append_cons (hc : isBlank c = true) (s t : List Char) :
    splitWords (s ++ c :: t) = ((splitWords s).1, (splitWords s).2 ++ words t) := by
  induction s with
  | nil => exact splitWords_cons_of_blank hc t
  | cons d s ih =>
    rw [List.cons_append]
    cases hd : isBlank d with
    | false => rw [splitWords_cons_of_not_blank hd, splitWords_cons_of_not_blank hd, ih]
    | true =>
      rw [splitWords_cons_of_blank hd, splitWords_cons_of_blank hd, words_eq_ite (s ++ c :: t), ih,
        words_eq_ite s]
      by_cases hw : (splitWords s).1.isEmpty = true
      · rw [if_pos hw, if_pos hw]
      · rw [if_neg hw, if_neg hw, List.cons_append]

theorem words_append_cons (hc : isBlank c = true) (s t : List Char) :
    words (s ++ c :: t) = words s ++ words t := by
  rw [words_eq_ite, splitWords_append_cons hc, words_eq_ite s]
  by_cases hw : (splitWords s).1.isEmpty = true
  · rw [if_pos hw, if_pos hw]
  · rw [if_neg hw, if_neg hw, List.cons_append]

theorem words_cons (hc : isBlank c = true) (t : List Char) : words (c :: t) = words t :=
  words_append_cons hc [] t

/-- Blanks before a text add no words. -/
theorem words_blanks_append (hs : Blanks s) (t : List Char) : words (s ++ t) = words t := by
  induction s with
  | nil => rfl
  | cons c s ih =>
    obtain ⟨hc, hs⟩ := List.forall_mem_cons.mp hs
    rw [List.cons_append, words_cons hc, ih hs]

theorem words_of_blanks (hs : Blanks s) : words s = [] := by
  have h := words_blanks_append hs []
  rwa [List.append_nil] at h

/-- **A text may be cut at any run of blanks.** -/
theorem words_append_gap (hne : gap ≠ []) (hgap : Blanks gap) (s t : List Char) :
    words (s ++ (gap ++ t)) = words s ++ words t := by
  cases gap with
  | nil => exact absurd rfl hne
  | cons c gap =>
    obtain ⟨hc, hgap⟩ := List.forall_mem_cons.mp hgap
    rw [List.cons_append, words_append_cons hc, words_blanks_append hgap]

/-- Blanks behind a text add no words. -/
theorem words_append_blanks (ht : Blanks t) (s : List Char) : words (s ++ t) = words s := by
  by_cases hne : t = []
  · rw [hne, List.append_nil]
  · have h := words_append_gap hne ht s []
    rwa [List.append_nil, words_of_blanks (s := []) (fun _ hc => absurd hc List.not_mem_nil),
      List.append_nil] at h

theorem splitWords_of_forall (hw : ∀ c ∈ w, isBlank c = false) : splitWords w = (w, []) := by
  induction w with
  | nil => rfl
  | cons c w ih =>
    obtain ⟨hc, hw⟩ := List.forall_mem_cons.mp hw
    rw [splitWords_cons_of_not_blank hc, ih hw]

/-- A word has itself as its only word. -/
theorem words_of_isWord (hw : IsWord w) : words w = [w] := by
  rw [words, splitWords_of_forall hw.2]
  simp only [List.isEmpty_iff, hw.1, if_false]

/-- A word that blanks follow is the first word. -/
theorem words_word_append (hw : IsWord w) (ht : ∀ c ∈ t.head?, isBlank c = true) :
    words (w ++ t) = w :: words t := by
  cases t with
  | nil =>
    rw [List.append_nil, words_of_isWord hw]
    rfl
  | cons c t =>
    have hc := ht c rfl
    rw [words_append_cons hc, words_of_isWord hw, words_cons hc, List.singleton_append]

/-! ## Trimming -/

theorem trimEnd_append_blanks (ht : Blanks t) (s : List Char) :
    trimEnd (s ++ t) = trimEnd s := by
  rw [trimEnd, List.reverse_append, List.dropWhile_append_of_pos, trimEnd]
  intro c hc
  exact ht c (List.mem_reverse.mp hc)

/-- Trimming does not see blanks before a text. -/
theorem trim_blanks_append (hs : Blanks s) (t : List Char) : trim (s ++ t) = trim t := by
  rw [trim, trimStart, List.dropWhile_append_of_pos hs, trim, trimStart]

/-- Trimming does not see blanks behind a text. -/
theorem trim_append_blanks (ht : Blanks t) (s : List Char) : trim (s ++ t) = trim s := by
  induction s with
  | nil =>
    have h := trim_blanks_append ht []
    rwa [List.append_nil] at h
  | cons c s ih =>
    by_cases hc : isBlank c = true
    · have hblank : Blanks [c] := List.forall_mem_singleton.mpr hc
      exact (trim_blanks_append hblank (s ++ t)).trans (ih.trans (trim_blanks_append hblank s).symm)
    · rw [List.cons_append, trim, trimStart, List.dropWhile_cons_of_neg hc, ← List.cons_append,
        trimEnd_append_blanks ht, trim, trimStart, List.dropWhile_cons_of_neg hc]

theorem trim_of_blanks (hs : Blanks s) : trim s = [] := by
  have h := trim_blanks_append hs []
  rwa [List.append_nil] at h

/-- Trimming keeps a word that a text begins with. -/
theorem trim_word_append (hw : IsWord w) (t : List Char) : trim (w ++ t) = w ++ trimEnd t := by
  obtain ⟨hne, hw⟩ := hw
  have hstart : trimStart (w ++ t) = w ++ t := by
    cases w with
    | nil => exact absurd rfl hne
    | cons c w =>
      exact List.dropWhile_cons_of_neg (by simp [hw c List.mem_cons_self])
  -- the blanks at the end are taken from what follows the word, even if nothing else follows
  have hend : trimEnd w = w := by
    refine List.rdropWhile_eq_self_iff.mpr fun hl => ?_
    rw [hw _ (List.getLast_mem hl)]
    exact Bool.false_ne_true
  rw [trim, hstart, trimEnd, List.reverse_append, List.dropWhile_append]
  by_cases ht : (t.reverse.dropWhile isBlank).isEmpty = true
  · rw [if_pos ht, trimEnd, List.isEmpty_iff.mp ht, List.reverse_nil, List.append_nil]
    exact hend
  · rw [if_neg ht, List.reverse_append, List.reverse_reverse, trimEnd]

theorem trimStart_of_isWord (hw : IsWord w) : trimStart w = w := by
  obtain ⟨hne, hw⟩ := hw
  cases w with
  | nil => exact absurd rfl hne
  | cons c w => exact List.dropWhile_cons_of_neg (by simp [hw c List.mem_cons_self])

/-- Trimming keeps a word that a text ends with. -/
theorem suffix_trim_append (hw : IsWord w) (s : List Char) : w <:+ trim (s ++ w) := by
  obtain ⟨r, hr⟩ : w <:+ trimStart (s ++ w) := by
    rw [trimStart, List.dropWhile_append]
    split
    · exact ⟨[], (trimStart_of_isWord hw).symm⟩
    · exact List.suffix_append _ _
  have hend : trimEnd (r ++ w) = r ++ w := by
    refine List.rdropWhile_eq_self_iff.mpr fun hl => ?_
    rw [List.getLast_append_of_ne_nil _ hw.1, hw.2 _ (List.getLast_mem hw.1)]
    exact Bool.false_ne_true
  rw [trim, ← hr, hend]
  exact List.suffix_append _ _

/-- **Trimming leaves a word, and what follows it goes on with a blank.** -/
theorem exists_trim_word_append (hw : IsWord w) (ht : ∀ c ∈ t.head?, isBlank c = true) :
    ∃ t' : List Char, trim (w ++ t) = w ++ t' ∧ ∀ c ∈ t'.head?, isBlank c = true := by
  refine ⟨trimEnd t, trim_word_append hw t, fun c hc => ht c ?_⟩
  obtain ⟨u, hu⟩ : trimEnd t <+: t := List.rdropWhile_prefix isBlank t
  rw [← hu, List.head?_append, hc, Option.some_or]
  exact Option.mem_some_self c

/-- A text neither begins nor ends with a blank. -/
def Trimmed (s : List Char) : Prop :=
  (∀ c ∈ s.head?, isBlank c = false) ∧ ∀ c ∈ s.getLast?, isBlank c = false

theorem blanks_takeWhile (s : List Char) : Blanks (s.takeWhile isBlank) :=
  fun _ hc => List.all_eq_true.mp List.all_takeWhile _ hc

/-- **A text is what trimming leaves of it, between blanks.** -/
theorem exists_trim (s : List Char) :
    ∃ lead tail, Blanks lead ∧ Blanks tail ∧ s = lead ++ (trim s ++ tail) := by
  refine ⟨s.takeWhile isBlank, ((trimStart s).reverse.takeWhile isBlank).reverse,
    blanks_takeWhile s, fun c hc => blanks_takeWhile _ c (List.mem_reverse.mp hc), ?_⟩
  rw [trim, trimEnd, ← List.reverse_append, List.takeWhile_append_dropWhile, List.reverse_reverse,
    trimStart, List.takeWhile_append_dropWhile]

/-- A text that neither begins nor ends with a blank is left alone. -/
theorem trim_of_trimmed (h : Trimmed s) : trim s = s := by
  have hstart : trimStart s = s := by
    cases s with
    | nil => rfl
    | cons c s => exact List.dropWhile_cons_of_neg (by simp [h.1 c rfl])
  rw [trim, hstart, trimEnd]
  refine List.rdropWhile_eq_self_iff.mpr fun hl => ?_
  rw [h.2 _ (List.getLast?_eq_some_getLast hl)]
  exact Bool.false_ne_true

/-- Nothing is left of a text exactly if it is blank. -/
theorem trim_eq_nil_iff : trim s = [] ↔ Blanks s := by
  refine ⟨fun h => ?_, trim_of_blanks⟩
  obtain ⟨lead, tail, hlead, htail, hs⟩ := exists_trim s
  rw [hs, h, List.nil_append]
  exact List.forall_mem_append.mpr ⟨hlead, htail⟩

/-! ## Layouts -/

/-- A word with the blanks before it, of which there is at least one. -/
structure SpacedWord where
  gap : List Char
  word : List Char
  gap_ne_nil : gap ≠ []
  blanks_gap : Blanks gap
  isWord_word : IsWord word

/-- The characters of a word and of the blanks before it. -/
def SpacedWord.chars (p : SpacedWord) : List Char :=
  p.gap ++ p.word

/-- A text with at least one word, in its parts: blanks, the first word, further words with
the blanks before each of them, and blanks. -/
structure Layout where
  lead : List Char
  first : List Char
  rest : List SpacedWord
  tail : List Char
  blanks_lead : Blanks lead
  isWord_first : IsWord first
  blanks_tail : Blanks tail

namespace Layout

/-- The text in one piece. -/
def text (l : Layout) : List Char :=
  l.lead ++ (l.first ++ (l.rest.flatMap SpacedWord.chars ++ l.tail))

/-- The words of a layout. -/
def words (l : Layout) : List (List Char) :=
  l.first :: l.rest.map SpacedWord.word

/-- **The words of a layout are the words in it.** -/
theorem words_text (l : Layout) : Text.words l.text = l.words := by
  have hrest : ∀ (rest : List SpacedWord) (w : List Char), IsWord w →
      Text.words (w ++ rest.flatMap SpacedWord.chars) = w :: rest.map SpacedWord.word := by
    intro rest
    induction rest with
    | nil =>
      intro w hw
      rw [List.flatMap_nil, List.append_nil, words_of_isWord hw, List.map_nil]
    | cons p rest ih =>
      intro w hw
      rw [List.flatMap_cons, SpacedWord.chars, List.append_assoc,
        words_append_gap p.gap_ne_nil p.blanks_gap, words_of_isWord hw, ih p.word p.isWord_word,
        List.singleton_append, List.map_cons]
  rw [text, words_blanks_append l.blanks_lead, ← List.append_assoc,
    words_append_blanks l.blanks_tail, hrest l.rest l.first l.isWord_first, words]

/-- What follows the first word of a layout begins with a blank. -/
theorem isBlank_of_mem_head? (l : Layout)
    (h : c ∈ (l.rest.flatMap SpacedWord.chars ++ l.tail).head?) : isBlank c = true := by
  cases hrest : l.rest with
  | nil =>
    rw [hrest, List.flatMap_nil, List.nil_append] at h
    exact l.blanks_tail c (List.mem_of_mem_head? h)
  | cons p rest =>
    rw [hrest, List.flatMap_cons, SpacedWord.chars, List.append_assoc, List.append_assoc,
      List.head?_append_of_ne_nil _ p.gap_ne_nil] at h
    exact p.blanks_gap c (List.mem_of_mem_head? h)

/-- **A trimmed layout begins with the first word**, and what follows it begins with a
blank. -/
theorem exists_trim_text (l : Layout) :
    ∃ t : List Char, trim l.text = l.first ++ t ∧ ∀ c ∈ t.head?, isBlank c = true := by
  rw [text, trim_blanks_append l.blanks_lead]
  exact exists_trim_word_append l.isWord_first fun c => l.isBlank_of_mem_head?

/-- The layout with one more blank before it. -/
def consBlank (c : Char) (hc : isBlank c = true) (l : Layout) : Layout :=
  { l with
    lead := c :: l.lead
    blanks_lead := List.forall_mem_cons.mpr ⟨hc, l.blanks_lead⟩ }

end Layout

/-- **A text that is not blank has a layout.** -/
theorem exists_layout (s : List Char) (hs : ¬ Blanks s) : ∃ l : Layout, l.text = s := by
  induction s with
  | nil => exact absurd (fun _ hc => absurd hc List.not_mem_nil) hs
  | cons c s ih =>
    by_cases hc : isBlank c = true
    · obtain ⟨l, rfl⟩ := ih fun h => hs (List.forall_mem_cons.mpr ⟨hc, h⟩)
      exact ⟨l.consBlank c hc, rfl⟩
    have hc : isBlank c = false := by simpa using hc
    have hword : IsWord [c] := ⟨List.cons_ne_nil c [], List.forall_mem_singleton.mpr hc⟩
    by_cases hblank : Blanks s
    · exact ⟨⟨[], [c], [], s, fun _ h => absurd h List.not_mem_nil, hword, hblank⟩, rfl⟩
    obtain ⟨l, rfl⟩ := ih hblank
    -- the character joins the first word, unless blanks lie between them
    by_cases hlead : l.lead = []
    · refine ⟨⟨[], c :: l.first, l.rest, l.tail, fun _ h => absurd h List.not_mem_nil,
        ⟨List.cons_ne_nil _ _, List.forall_mem_cons.mpr ⟨hc, l.isWord_first.2⟩⟩,
        l.blanks_tail⟩, ?_⟩
      rw [Layout.text, Layout.text, hlead]
      rfl
    · refine ⟨⟨[], [c], ⟨l.lead, l.first, hlead, l.blanks_lead, l.isWord_first⟩ :: l.rest, l.tail,
        fun _ h => absurd h List.not_mem_nil, hword, l.blanks_tail⟩, ?_⟩
      simp [Layout.text, SpacedWord.chars]

theorem words_ne_nil (hs : ¬ Blanks s) : words s ≠ [] := by
  obtain ⟨l, rfl⟩ := exists_layout s hs
  rw [l.words_text]
  exact List.cons_ne_nil _ _

end Text
end SpecOverlay
