import Mathlib.Order.Monotone.Basic
import SpecOverlay.Proofs.Document.Lines
import SpecOverlay.Proofs.Inflation.Run
import SpecOverlay.Proofs.Registry.Indents
import SpecOverlay.Proofs.Text.Words

/-!
# Documents that read the same apart from their indents

Two lines read the same apart from the indent if they are of the same kind, and layer lines
have the same words and other lines the same text between blanks (`Rereads`).  Let the
indents in a second document be those in the first one, moved by a strictly increasing
function.

* Nesting compares indents and does nothing else with them, so the open groups of the two
  readings are the same, with moved indents (`Nesting.reindent_attach`).
* A factory is told the moved indent in the second document.  So the first document is
  read with `Registry.reindent`, whose factories are told the moved indents too.
* With that the two readings go in step: line by line (`Progress.step_reindent`), over a
  run (`Progress.run_reindent`) and over documents (`Inflater.document_reindent`).
-/

namespace SpecOverlay

variable {f : Nat → Nat}

/-! ## Nesting -/

/-- An open group with another indent. -/
def OpenGroup.reindent (f : Nat → Nat) (g : OpenGroup) : OpenGroup :=
  { g with indent := f g.indent }

namespace Nesting

/-- A nesting with other indents of the open groups. -/
def reindent (f : Nat → Nat) (n : Nesting) : Nesting :=
  { n with openGroups := n.openGroups.map (OpenGroup.reindent f) }

theorem reindent_add (layer : Layer) (groups : List OpenGroup) (roots : List Layer) :
    (add layer groups roots).reindent f = add layer (groups.map (OpenGroup.reindent f)) roots := by
  cases groups <;> rfl

/-- Which groups are closed depends on a condition on their indents, whatever these are. -/
theorem reindent_closeFrom {p q : Nat → Bool} (hpq : ∀ n, q (f n) = p n) (g : OpenGroup)
    (groups : List OpenGroup) (roots : List Layer) :
    (closeFrom p g groups roots).reindent f =
      closeFrom q (g.reindent f) (groups.map (OpenGroup.reindent f)) roots := by
  have hg (g : OpenGroup) : q (g.reindent f).indent = p g.indent := hpq g.indent
  induction groups generalizing g with
  | nil =>
    rw [closeFrom, List.map_nil, closeFrom, hg]
    by_cases hp : p g.indent = true
    · rw [if_pos hp, if_pos hp]
      rfl
    · rw [if_neg hp, if_neg hp]
      rfl
  | cons h hs ih =>
    rw [closeFrom, List.map_cons, closeFrom, hg]
    by_cases hp : p g.indent = true
    · rw [if_pos hp, if_pos hp, ih]
      rfl
    · rw [if_neg hp, if_neg hp]
      rfl

theorem reindent_closeWhile {p q : Nat → Bool} (hpq : ∀ n, q (f n) = p n)
    (groups : List OpenGroup) (roots : List Layer) :
    (closeWhile p groups roots).reindent f =
      closeWhile q (groups.map (OpenGroup.reindent f)) roots := by
  cases groups with
  | nil => rfl
  | cons g gs => exact reindent_closeFrom hpq g gs roots

/-- **Where a layer goes depends on the order of the indents alone.** -/
theorem reindent_attach (hf : StrictMono f) (n : Nesting) (indent : Nat) (node : Node) :
    (n.attach indent node).reindent f = (n.reindent f).attach (f indent) node := by
  have hclosed := reindent_closeWhile (p := (indent ≤ ·)) (q := (f indent ≤ ·))
    (fun n => decide_eq_decide.mpr hf.le_iff_le) n.openGroups n.roots
  obtain ⟨id, shape⟩ := node
  cases shape with
  | leaf l =>
    show (add (.leaf id l) _ _).reindent f = add (.leaf id l) _ _
    rw [reindent_add]
    exact congrArg (fun c : Nesting => add (.leaf id l) c.openGroups c.roots) hclosed
  | group g =>
    exact congrArg
      (fun c : Nesting => { c with openGroups := ⟨f indent, id, g, []⟩ :: c.openGroups }) hclosed

/-- The finished roots do not depend on the indents. -/
theorem finish_reindent (n : Nesting) : (n.reindent f).finish = n.finish :=
  (congrArg Nesting.roots
    (reindent_closeWhile (f := f) (fun _ => rfl) n.openGroups n.roots)).symm

end Nesting

/-! ## Lines -/

/-- Two lines read the same, and the indent of the second one is that of the first one
moved. -/
structure Rereads (f : Nat → Nat) (text text' : String) : Prop where
  kind_eq : LineKind.of text' = LineKind.of text
  trim_eq : LineKind.of text ≠ .layer → Text.trim text'.toList = Text.trim text.toList
  words_eq : LineKind.of text = .layer → Text.words text'.toList = Text.words text.toList
  indent_eq : LineKind.of text = .layer →
    LayerSpec.indentOf text'.toList = f (LayerSpec.indentOf text.toList)

namespace Rereads

variable {text text' : String}

theorem trim_eq_of_kind {kind : LineKind} (h : Rereads f text text')
    (hkind : LineKind.of text = kind) (hne : kind ≠ .layer) :
    Text.trim text'.toList = Text.trim text.toList :=
  h.trim_eq (by rwa [hkind])

theorem titleOf_eq (h : Rereads f text text') (hkind : LineKind.of text = .title) :
    titleOf text' = titleOf text := by
  rw [titleOf, titleOf, h.trim_eq_of_kind hkind (by decide)]

theorem declareLine_eq (h : Rereads f text text') (hkind : LineKind.of text = .declaration)
    (scope : Scope) (line : Nat) : scope.declareLine line text' = scope.declareLine line text := by
  have hdeclaration : Declaration.ofText text' = Declaration.ofText text := by
    rw [Declaration.ofText, Declaration.ofText, h.trim_eq_of_kind hkind (by decide)]
  rw [Scope.declareLine, Scope.declareLine, hdeclaration]

/-- A layer line reads the same apart from its indent. -/
theorem ofText_eq (h : Rereads f text text') (hkind : LineKind.of text = .layer) (scope : Scope)
    (scale : Scale) (line : Nat) :
    LayerSpec.ofText scope scale line text' =
      (LayerSpec.ofText scope scale line text).map (LayerSpec.reindent f) := by
  rw [LayerSpec.ofText, h.words_eq hkind, h.indent_eq hkind, LayerSpec.ofText]
  cases hwords : Text.words text.toList with
  | nil =>
    -- a layer line is not blank, so it has words
    refine absurd hwords (Text.words_ne_nil fun hblank => ?_)
    rw [LineKind.of, Text.trim_of_blanks hblank] at hkind
    exact absurd hkind (by decide)
  | cons kind words =>
    dsimp only
    cases LayerSpec.addArguments scope line (.empty scale) words <;> rfl

end Rereads

namespace Progress

variable {text text' : String} {texts texts' : List String}

/-- What the lines of a block have brought, with other indents of the open groups. -/
def reindent (f : Nat → Nat) (p : Progress) : Progress :=
  { p with nesting := p.nesting.reindent f }

/-- **A line that reads the same brings the same**, if the factories are told the moved
indents. -/
theorem step_reindent (hf : StrictMono f) (h : Rereads f text text') (scale : Scale)
    (p : Progress) (r : Registry) (line : Nat) :
    ((p.reindent f).step scale r line text').1 =
        (p.step scale (r.reindent f) line text).1.map (reindent f) ∧
      (p.step scale (r.reindent f) line text).2 =
        ((p.reindent f).step scale r line text').2.reindent f := by
  rw [step, step, h.kind_eq]
  cases hkind : LineKind.of text with
  | blank => exact ⟨rfl, rfl⟩
  | comment => exact ⟨rfl, rfl⟩
  | title =>
    refine ⟨?_, rfl⟩
    simp only [addTitle, h.titleOf_eq hkind]
    by_cases hstage : p.stage = .start
    · rw [if_pos hstage, if_pos (show (p.reindent f).stage = _ from hstage)]
      rfl
    · rw [if_neg hstage, if_neg (show ¬ (p.reindent f).stage = _ from hstage)]
      rfl
  | declaration =>
    refine ⟨?_, rfl⟩
    have hscope : (p.reindent f).scope = p.scope := rfl
    simp only [addDeclaration, h.declareLine_eq hkind, hscope]
    by_cases hstage : p.stage = .layers
    · rw [if_pos hstage, if_pos (show (p.reindent f).stage = _ from hstage)]
      rfl
    · rw [if_neg hstage, if_neg (show ¬ (p.reindent f).stage = _ from hstage)]
      cases p.scope.declareLine line text <;> rfl
  | layer =>
    have hscope : (p.reindent f).scope = p.scope := rfl
    simp only [addLayer, h.ofText_eq hkind, hscope]
    cases LayerSpec.ofText p.scope scale line text with
    | error e => exact ⟨rfl, rfl⟩
    | ok spec =>
      simp only [Except.map, Registry.create_reindent]
      obtain ⟨result, s, hcreate⟩ : ∃ result s, r.create (spec.reindent f) = (result, s) :=
        ⟨_, _, rfl⟩
      rw [hcreate]
      cases result with
      | error c => exact ⟨rfl, rfl⟩
      | ok node =>
        refine ⟨?_, rfl⟩
        have hattach := Nesting.reindent_attach hf p.nesting spec.indent node
        simp only [reindent, hattach, LayerSpec.reindent]

/-- **Lines that read the same bring the same**, if the factories are told the moved
indents. -/
theorem run_reindent (hf : StrictMono f) (h : List.Forall₂ (Rereads f) texts texts')
    (scale : Scale) (p : Progress) (r : Registry) (line : Nat) :
    ((p.reindent f).run scale r line texts').1 =
        (p.run scale (r.reindent f) line texts).1.map (reindent f) ∧
      (p.run scale (r.reindent f) line texts).2 =
        ((p.reindent f).run scale r line texts').2.reindent f := by
  induction h generalizing p r line with
  | nil => exact ⟨rfl, rfl⟩
  | @cons text text' texts texts' htext _ ih =>
    obtain ⟨hresult, hregistry⟩ := step_reindent hf htext scale p r line
    obtain ⟨result, s, hstep⟩ : ∃ result s,
      p.step scale (r.reindent f) line text = (result, s) := ⟨_, _, rfl⟩
    obtain ⟨result', s', hstep'⟩ : ∃ result' s',
      (p.reindent f).step scale r line text' = (result', s') := ⟨_, _, rfl⟩
    rw [hstep, hstep'] at hresult hregistry
    dsimp only at hresult hregistry
    subst hresult hregistry
    cases result with
    | error e =>
      rw [run_cons_of_error hstep, run_cons_of_error hstep']
      exact ⟨rfl, rfl⟩
    | ok q =>
      rw [run_cons_of_ok hstep, run_cons_of_ok hstep']
      exact ih q s' (line + 1)

theorem finish_reindent (p : Progress) (start : Nat) :
    (p.reindent f).finish start = p.finish start := by
  rw [finish, finish]
  simp only [reindent, Nesting.finish_reindent]

end Progress

/-! ## Documents in their parts -/

namespace Block

/-- Two blocks begin on the same line and have lines that read the same. -/
structure Rereads (f : Nat → Nat) (b b' : Block) : Prop where
  start_eq : b'.start = b.start
  lines : List.Forall₂ (SpecOverlay.Rereads f) b.lines b'.lines

end Block

namespace Document

variable {lines lines' : List String}

theorem indistinct_rereads : Indistinct (Rereads f) where
  kind_eq := Rereads.kind_eq
  declareLine_eq := Rereads.declareLine_eq

/-- **Documents with lines that read the same have the same globals, and blocks that read
the same.** -/
theorem rereads_split (h : List.Forall₂ (Rereads f) lines lines') :
    (∃ e, split lines = .error e ∧ split lines' = .error e) ∨
      ∃ globals blocks blocks', split lines = .ok ⟨globals, blocks⟩ ∧
        split lines' = .ok ⟨globals, blocks'⟩ ∧
        List.Forall₂ (Block.Rereads f) blocks blocks' := by
  rcases related_split indistinct_rereads h with
    herror | ⟨globals, blocks, blocks', hok, hok', hblocks⟩
  · exact .inl herror
  · exact .inr ⟨globals, blocks, blocks', hok, hok', hblocks.imp fun _ _ hb =>
      ⟨hb.start_eq, hb.lines⟩⟩

end Document

/-! ## Inflation -/

namespace Inflater

/-- The inflater whose factories are told another indent. -/
def reindent (f : Nat → Nat) (i : Inflater) : Inflater :=
  { i with registry := i.registry.reindent f }

theorem block_reindent (hf : StrictMono f) {b b' : Block} (h : b.Rereads f b') (i : Inflater)
    (globals : Scope) :
    (i.reindent f).block globals b =
      ((i.block globals b').1, (i.block globals b').2.reindent f) := by
  obtain ⟨hresult, hregistry⟩ := Progress.run_reindent hf h.lines i.scale (.start globals)
    i.registry b.start
  obtain ⟨result, s, hrun⟩ : ∃ result s, (Progress.start globals).run i.scale
    (i.registry.reindent f) b.start b.lines = (result, s) := ⟨_, _, rfl⟩
  obtain ⟨result', s', hrun'⟩ : ∃ result' s', (Progress.start globals).run i.scale
    i.registry b.start b'.lines = (result', s') := ⟨_, _, rfl⟩
  have hstart : (Progress.start globals).reindent f = .start globals := rfl
  rw [hstart, hrun, hrun'] at hresult hregistry
  dsimp only at hresult hregistry
  subst hresult hregistry
  rw [block, block, h.start_eq, hrun']
  simp only [reindent, hrun]
  cases result with
  | error e => rfl
  | ok p => simp only [Except.map, Progress.finish_reindent]

theorem blocks_reindent (hf : StrictMono f) {bs bs' : List Block}
    (h : List.Forall₂ (Block.Rereads f) bs bs') (i : Inflater) (globals : Scope) :
    (i.reindent f).blocks globals bs =
      ((i.blocks globals bs').1, (i.blocks globals bs').2.reindent f) := by
  induction h generalizing i with
  | nil => rfl
  | @cons b b' bs bs' hb _ ih =>
    have hblock := block_reindent hf hb i globals
    obtain ⟨result, j, h⟩ : ∃ result j, i.block globals b' = (result, j) := ⟨_, _, rfl⟩
    rw [h] at hblock
    cases result with
    | error e => rw [blocks_cons_of_error hblock, blocks_cons_of_error h]
    | ok o => rw [blocks_cons_of_ok hblock, blocks_cons_of_ok h, ih j]

/-- **Documents with lines that read the same give the same**, if the factories are told
the moved indents. -/
theorem document_reindent (hf : StrictMono f) {lines lines' : List String}
    (h : List.Forall₂ (Rereads f) lines lines') (i : Inflater) :
    (i.reindent f).document lines =
      ((i.document lines').1, (i.document lines').2.reindent f) := by
  rw [document, document]
  rcases Document.rereads_split h with
    ⟨e, he, he'⟩ | ⟨globals, blocks, blocks', hok, hok', hblocks⟩
  · rw [he, he']
  · rw [hok, hok']
    exact blocks_reindent hf hblocks i globals

end Inflater
end SpecOverlay
