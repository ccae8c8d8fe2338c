import Mathlib.Data.List.Sort
import SpecOverlay.Document.Block

/-!
# The maximal runs of lines that are not blank

`Block.runs` makes runs line by line, from the last line to the first.  This file says
what it makes without saying how: `mem_runs_iff` reads *a block is among the runs if and
only if its lines stand in the text, are not blank, and cannot be extended on either
side* (`Block.IsRun`).

* `runs_append_of_beginsBlank`, `runs_append_of_endsBlank`: a text may be cut before or
  after a blank line, and its runs are those of the two parts.
* `runs_induction`: a text is empty, or begins with a blank line, or begins with a run
  that a blank line or the end of the text follows.  The facts about all runs are
  inductions of this shape.
* `exists_cut_of_runs`: the runs before a given one are the runs of the text before it.
* `IsCut.exists_continuation`: the first lines of a run begin a run, whatever follows them.
* `pairwise_runs`: at least one line lies between a run and the next (`Block.Precedes`).
* `exists_mem_runs`: every line that is not blank is in a run, at its own number.
-/

namespace SpecOverlay

/-- The lines end with a blank line, if there are any. -/
def EndsBlank (texts : List String) : Prop :=
  ∀ text ∈ texts.getLast?, LineKind.of text = .blank

/-- The lines begin with a blank line, if there are any. -/
def BeginsBlank (texts : List String) : Prop :=
  ∀ text ∈ texts.head?, LineKind.of text = .blank

/-- There are lines, and none of them is blank. -/
def Unbroken (texts : List String) : Prop :=
  texts ≠ [] ∧ ∀ text ∈ texts, LineKind.of text ≠ .blank

theorem beginsBlank_cons {text : String} (h : LineKind.of text = .blank) (texts : List String) :
    BeginsBlank (text :: texts) := by
  intro first hfirst
  rw [List.head?_cons, Option.mem_some_iff] at hfirst
  rwa [← hfirst]

theorem beginsBlank_of_append {texts rest : List String} (h : BeginsBlank (texts ++ rest)) :
    BeginsBlank texts := by
  cases texts with
  | nil => exact fun _ hfirst => absurd hfirst (by simp)
  | cons text texts => exact h

theorem Unbroken.not_beginsBlank {lines : List String} (h : Unbroken lines)
    (rest : List String) : ¬ BeginsBlank (lines ++ rest) := by
  cases lines with
  | nil => exact absurd rfl h.1
  | cons text texts => exact fun hbegins => h.2 text List.mem_cons_self (hbegins text rfl)

theorem endsBlank_append {texts : List String} (h : EndsBlank texts) (hne : texts ≠ [])
    (before : List String) : EndsBlank (before ++ texts) := by
  have hlast : (before ++ texts).getLast? = texts.getLast? := by
    rw [List.getLast?_append, List.getLast?_eq_some_getLast hne, Option.some_or]
  rwa [EndsBlank, hlast]

theorem endsBlank_cons {text : String} {texts : List String} (h : LineKind.of text = .blank)
    (htexts : EndsBlank texts) : EndsBlank (text :: texts) := by
  by_cases hne : texts = []
  · subst hne
    exact beginsBlank_cons h []
  · exact endsBlank_append htexts hne [text]

namespace Block

/-- The lines of a block stand between given lines of a text, whose first line has the
given number.  They are not blank, and on either side there is a blank line or the end of
the text. -/
structure IsCut (line : Nat) (texts : List String) (b : Block) (before after : List String) :
    Prop where
  texts_eq : texts = before ++ b.lines ++ after
  start_eq : b.start = line + before.length
  unbroken : Unbroken b.lines
  endsBlank : EndsBlank before
  beginsBlank : BeginsBlank after

/-- A block is a maximal run of lines that are not blank. -/
def IsRun (line : Nat) (texts : List String) (b : Block) : Prop :=
  ∃ before after, b.IsCut line texts before after

/-- At least one line lies between the end of a block and the start of another. -/
def Precedes (b c : Block) : Prop :=
  b.start + b.lines.length < c.start

variable {line : Nat} {text : String} {texts lines before after rest : List String}
  {b c : Block} {bs cs : List Block}

/-! ## Where a text may be cut -/

theorem runs_cons_of_blank (h : LineKind.of text = .blank) :
    runs line (text :: texts) = runs (line + 1) texts := by
  rw [runs, h]

/-- A line that is not blank begins a run, or joins the one that begins on the next
line. -/
theorem runs_cons_of_ne_blank (h : LineKind.of text ≠ .blank) :
    runs line (text :: texts) =
      match runs (line + 1) texts with
      | [] => [⟨line, [text]⟩]
      | b :: bs =>
        if b.start = line + 1 then ⟨line, text :: b.lines⟩ :: bs
        else ⟨line, [text]⟩ :: b :: bs := by
  rw [runs]
  cases hkind : LineKind.of text with
  | blank => exact absurd hkind h
  | _ => cases runs (line + 1) texts <;> rfl

/-- No run begins on a blank line. -/
theorem lt_start_of_beginsBlank (hrest : BeginsBlank rest) (h : b ∈ runs line rest) :
    line < b.start := by
  cases rest with
  | nil => exact absurd h List.not_mem_nil
  | cons text texts =>
    rw [runs_cons_of_blank (hrest text rfl)] at h
    exact le_start_of_mem_runs h

/-- **A text may be cut before a blank line.** -/
theorem runs_append_of_beginsBlank (hrest : BeginsBlank rest) (line : Nat)
    (texts : List String) :
    runs line (texts ++ rest) = runs line texts ++ runs (line + texts.length) rest := by
  induction texts generalizing line with
  | nil => rfl
  | cons text texts ih =>
    have hnumber : line + 1 + texts.length = line + (text :: texts).length := by
      rw [List.length_cons]
      omega
    rw [List.cons_append]
    by_cases hblank : LineKind.of text = .blank
    · rw [runs_cons_of_blank hblank, runs_cons_of_blank hblank, ih, hnumber]
    · rw [runs_cons_of_ne_blank hblank, runs_cons_of_ne_blank hblank, ih, hnumber]
      cases hruns : runs (line + 1) texts with
      | cons b bs =>
        dsimp only [List.cons_append]
        split <;> rfl
      | nil =>
        cases hafter : runs (line + (text :: texts).length) rest with
        | nil => rfl
        | cons b bs =>
          have hb : line + (text :: texts).length < b.start :=
            lt_start_of_beginsBlank hrest (hafter ▸ List.mem_cons_self)
          rw [List.length_cons] at hb
          rw [List.nil_append]
          dsimp only
          rw [if_neg (by omega)]
          rfl

/-- **A text may be cut after a blank line.** -/
theorem runs_append_of_endsBlank (hbefore : EndsBlank before) (line : Nat)
    (texts : List String) :
    runs line (before ++ texts) = runs line before ++ runs (line + before.length) texts := by
  rcases List.eq_nil_or_concat before with rfl | ⟨init, last, rfl⟩
  · rfl
  · have hlast : LineKind.of last = .blank := hbefore last (by simp)
    rw [List.concat_eq_append, List.append_assoc, List.singleton_append,
      runs_append_of_beginsBlank (beginsBlank_cons hlast texts),
      runs_append_of_beginsBlank (beginsBlank_cons hlast []),
      runs_cons_of_blank hlast, runs_cons_of_blank hlast, List.length_append,
      List.length_singleton, runs, List.append_nil, Nat.add_assoc]

/-- Lines of which none is blank are one run. -/
theorem runs_of_unbroken (h : Unbroken lines) (line : Nat) :
    runs line lines = [⟨line, lines⟩] := by
  obtain ⟨hne, hlines⟩ := h
  induction lines generalizing line with
  | nil => exact absurd rfl hne
  | cons text texts ih =>
    obtain ⟨htext, htexts⟩ := List.forall_mem_cons.mp hlines
    rw [runs_cons_of_ne_blank htext]
    cases texts with
    | nil => rfl
    | cons next texts =>
      rw [ih (line + 1) (List.cons_ne_nil _ _) htexts]
      exact if_pos rfl

/-- The runs of a text that begins with a run. -/
theorem runs_unbroken_append (hlines : Unbroken lines) (hrest : BeginsBlank rest) (line : Nat) :
    runs line (lines ++ rest) = ⟨line, lines⟩ :: runs (line + lines.length) rest := by
  rw [runs_append_of_beginsBlank hrest, runs_of_unbroken hlines, List.singleton_append]

/-- A text begins with lines that are not blank, up to a blank line or its end. -/
theorem exists_unbroken_beginning (texts : List String) :
    ∃ lines rest, texts = lines ++ rest ∧ (∀ text ∈ lines, LineKind.of text ≠ .blank) ∧
      BeginsBlank rest := by
  let p : String → Bool := fun text => LineKind.of text ≠ .blank
  refine ⟨texts.takeWhile p, texts.dropWhile p, List.takeWhile_append_dropWhile.symm,
    fun text htext => ?_, fun text htext => ?_⟩
  · simpa [p] using List.all_eq_true.mp List.all_takeWhile text htext
  · have hfirst := List.head?_dropWhile_not p texts
    rw [Option.mem_def.mp htext] at hfirst
    simpa [p] using hfirst

/-- **A text is empty, begins with a blank line, or begins with a run.** -/
theorem runs_induction {motive : Nat → List String → Prop}
    (nil : ∀ line, motive line [])
    (blank : ∀ line text texts, LineKind.of text = .blank → motive (line + 1) texts →
      motive line (text :: texts))
    (run : ∀ line lines rest, Unbroken lines → BeginsBlank rest →
      motive (line + lines.length) rest → motive line (lines ++ rest))
    (line : Nat) (texts : List String) : motive line texts := by
  -- the rest after a run is shorter, but it is no tail: hence the induction on the length
  induction hn : texts.length using Nat.strongRecOn generalizing line texts with
  | ind n ih =>
    subst hn
    cases texts with
    | nil => exact nil line
    | cons text texts =>
      by_cases htext : LineKind.of text = .blank
      · exact blank line text texts htext (ih texts.length (Nat.lt_succ_self _) _ _ rfl)
      · obtain ⟨lines, rest, rfl, hlines, hrest⟩ := exists_unbroken_beginning texts
        have hunbroken : Unbroken (text :: lines) :=
          ⟨List.cons_ne_nil _ _, List.forall_mem_cons.mpr ⟨htext, hlines⟩⟩
        have hshorter : rest.length < (text :: (lines ++ rest)).length := by
          rw [List.length_cons, List.length_append]
          omega
        exact run line (text :: lines) rest hunbroken hrest (ih _ hshorter _ _ rfl)

/-! ## The runs are the maximal runs -/

/-- The runs of a text that is cut at a block. -/
theorem IsCut.runs_eq (h : b.IsCut line texts before after) :
    runs line texts = runs line before ++ b :: runs (b.start + b.lines.length) after := by
  rw [h.texts_eq, List.append_assoc, runs_append_of_endsBlank h.endsBlank, ← h.start_eq,
    runs_unbroken_append h.unbroken h.beginsBlank]

/-- **The runs before a given one are the runs of the text before it.** -/
theorem exists_cut_of_runs (h : runs line texts = bs ++ b :: cs) :
    ∃ before after, b.IsCut line texts before after ∧ runs line before = bs := by
  induction line, texts using runs_induction generalizing bs with
  | nil line => exact absurd h (by simp [runs])
  | blank line text texts hblank ih =>
    rw [runs_cons_of_blank hblank] at h
    obtain ⟨before, after, hcut, hbefore⟩ := ih h
    refine ⟨text :: before, after, ⟨?_, ?_, hcut.unbroken, ?_, hcut.beginsBlank⟩, ?_⟩
    · rw [hcut.texts_eq]
      rfl
    · rw [hcut.start_eq, List.length_cons]
      omega
    · exact endsBlank_cons hblank hcut.endsBlank
    · rw [runs_cons_of_blank hblank, hbefore]
  | run line lines rest hlines hrest ih =>
    rw [runs_unbroken_append hlines hrest] at h
    cases bs with
    | nil =>
      obtain ⟨rfl, -⟩ := List.cons.inj h
      exact ⟨[], rest, ⟨rfl, rfl, hlines, fun _ hlast => absurd hlast (by simp), hrest⟩, rfl⟩
    | cons first bs =>
      obtain ⟨rfl, htail⟩ := List.cons.inj h
      obtain ⟨before, after, hcut, hbefore⟩ := ih htail
      have hbegins : BeginsBlank (before ++ (b.lines ++ after)) := by
        rwa [← List.append_assoc, ← hcut.texts_eq]
      -- the run and the block do not touch, since a blank line follows the run
      have hne : before ≠ [] := by
        rintro rfl
        exact hcut.unbroken.not_beginsBlank after hbegins
      refine ⟨lines ++ before, after, ⟨?_, ?_, hcut.unbroken, ?_, hcut.beginsBlank⟩, ?_⟩
      · rw [hcut.texts_eq, List.append_assoc, List.append_assoc, List.append_assoc]
      · rw [hcut.start_eq, List.length_append, Nat.add_assoc]
      · exact endsBlank_append hcut.endsBlank hne lines
      · rw [runs_unbroken_append hlines (beginsBlank_of_append hbegins), hbefore]

/-- The runs of some kind before a given one are those of the text before it. -/
theorem exists_cut_of_filter_runs {p : Block → Bool}
    (h : (runs line texts).filter p = bs ++ b :: cs) :
    ∃ before after, b.IsCut line texts before after ∧ (runs line before).filter p = bs := by
  obtain ⟨runs₁, runs₂, hruns, hbs, hrest⟩ := List.filter_eq_append_iff.mp h
  obtain ⟨skipped, runs₃, rfl, hskipped, -, -⟩ := List.filter_eq_cons_iff.mp hrest
  rw [← List.append_assoc] at hruns
  obtain ⟨before, after, hcut, hbefore⟩ := exists_cut_of_runs hruns
  refine ⟨before, after, hcut, ?_⟩
  rw [hbefore, List.filter_append, hbs, List.filter_eq_nil_iff.mpr hskipped, List.append_nil]

/-- **A run that has begun goes on as a run**, whatever follows its first lines. -/
theorem IsCut.exists_continuation (h : b.IsCut line texts before after)
    (hlines : b.lines = lines ++ text :: rest) (tail : List String) :
    ∃ more after', IsCut line (before ++ (lines ++ text :: tail)) ⟨b.start, lines ++ text :: more⟩
      before after' := by
  obtain ⟨more, after', rfl, hmore, hafter⟩ := exists_unbroken_beginning tail
  have hunbroken : ∀ t ∈ lines ++ text :: rest, LineKind.of t ≠ .blank := hlines ▸ h.unbroken.2
  obtain ⟨hfirst, hrest⟩ := List.forall_mem_append.mp hunbroken
  have hnext : ∀ t ∈ text :: more, LineKind.of t ≠ .blank :=
    List.forall_mem_cons.mpr ⟨(List.forall_mem_cons.mp hrest).1, hmore⟩
  refine ⟨more, after', by simp, h.start_eq, ⟨by simp, ?_⟩, h.endsBlank, hafter⟩
  exact List.forall_mem_append.mpr ⟨hfirst, hnext⟩

/-- **The runs are the maximal runs of lines that are not blank.** -/
theorem mem_runs_iff : b ∈ runs line texts ↔ b.IsRun line texts := by
  constructor
  · intro h
    obtain ⟨bs, cs, hruns⟩ := List.append_of_mem h
    obtain ⟨before, after, hcut, -⟩ := exists_cut_of_runs hruns
    exact ⟨before, after, hcut⟩
  · rintro ⟨before, after, hcut⟩
    rw [hcut.runs_eq]
    exact List.mem_append_right _ List.mem_cons_self

/-- The lines of a run have their own numbers in the text. -/
theorem IsRun.getElem?_eq (h : b.IsRun line texts) {k : Nat} (hk : k < b.lines.length) :
    line ≤ b.start ∧ texts[b.start - line + k]? = b.lines[k]? := by
  obtain ⟨before, after, hcut⟩ := h
  have hplace : b.start - line = before.length := by
    rw [hcut.start_eq]
    omega
  refine ⟨by rw [hcut.start_eq]; omega, ?_⟩
  rw [hplace, hcut.texts_eq, List.append_assoc, List.getElem?_append_right (by omega),
    Nat.add_sub_cancel_left, List.getElem?_append_left hk]

/-- **Runs come in order.** -/
theorem pairwise_runs (line : Nat) (texts : List String) :
    (runs line texts).Pairwise Precedes := by
  induction line, texts using runs_induction with
  | nil line => exact List.Pairwise.nil
  | blank line text texts hblank ih =>
    rwa [runs_cons_of_blank hblank]
  | run line lines rest hlines hrest ih =>
    rw [runs_unbroken_append hlines hrest]
    exact List.pairwise_cons.mpr ⟨fun c hc => lt_start_of_beginsBlank hrest hc, ih⟩

/-- **Every line that is not blank is in a run**, at its own number. -/
theorem exists_mem_runs (line : Nat) {k : Nat} (htext : texts[k]? = some text)
    (hkind : LineKind.of text ≠ .blank) :
    ∃ b ∈ runs line texts, b.start ≤ line + k ∧ b.lines[line + k - b.start]? = some text := by
  induction line, texts using runs_induction generalizing k with
  | nil line => exact absurd htext (by simp)
  | blank line first texts hblank ih =>
    rw [runs_cons_of_blank hblank]
    cases k with
    | zero =>
      obtain rfl : first = text := Option.some.inj htext
      exact absurd hblank hkind
    | succ k =>
      rw [List.getElem?_cons_succ] at htext
      rw [Nat.add_comm k 1, ← Nat.add_assoc]
      exact ih htext
  | run line lines rest hlines hrest ih =>
    rw [runs_unbroken_append hlines hrest]
    rcases Nat.lt_or_ge k lines.length with hk | hk
    · rw [List.getElem?_append_left hk] at htext
      refine ⟨⟨line, lines⟩, List.mem_cons_self, Nat.le_add_right _ _, ?_⟩
      rwa [Nat.add_sub_cancel_left]
    · rw [List.getElem?_append_right hk] at htext
      obtain ⟨b, hb, hstart, hline⟩ := ih htext
      have hnumber : line + lines.length + (k - lines.length) = line + k := by omega
      rw [hnumber] at hstart hline
      exact ⟨b, List.mem_cons_of_mem _ hb, hstart, hline⟩

/-- Of blocks that come in order, no two have the same line. -/
theorem eq_of_mem_of_line (h : bs.Pairwise Precedes) (hb : b ∈ bs) (hc : c ∈ bs) {n : Nat}
    (hbn : b.start ≤ n ∧ n < b.start + b.lines.length)
    (hcn : c.start ≤ n ∧ n < c.start + c.lines.length) : b = c := by
  induction bs with
  | nil => exact absurd hb List.not_mem_nil
  | cons a bs ih =>
    obtain ⟨ha, hbs⟩ := List.pairwise_cons.mp h
    rcases List.mem_cons.mp hb with rfl | hb'
    · rcases List.mem_cons.mp hc with rfl | hc'
      · rfl
      · have hbc : b.start + b.lines.length < c.start := ha c hc'
        omega
    · rcases List.mem_cons.mp hc with rfl | hc'
      · have hcb : c.start + c.lines.length < b.start := ha b hb'
        omega
      · exact ih hbs hb' hc'

/-- Blocks that come in order are known from which blocks they are. -/
theorem eq_of_mem_iff (hbs : bs.Pairwise Precedes) (hcs : cs.Pairwise Precedes)
    (h : ∀ b, b ∈ bs ↔ b ∈ cs) : bs = cs := by
  have hirrefl : Std.Irrefl Precedes :=
    ⟨fun b hb => absurd (show b.start + b.lines.length < b.start from hb) (by omega)⟩
  have hantisymm : Std.Antisymm Precedes := by
    refine ⟨fun b c hbc hcb => ?_⟩
    have hbc : b.start + b.lines.length < c.start := hbc
    have hcb : c.start + c.lines.length < b.start := hcb
    omega
  exact hbs.eq_of_mem_iff hcs h

end Block
end SpecOverlay
