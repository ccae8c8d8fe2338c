import SpecOverlay.Inflation
import SpecOverlay.Proofs.LayerSpec.Reading
import SpecOverlay.Proofs.Registry.Creation

/-!
# What one line does, and what a run of lines does

The reading of a block is a run of `Progress.step`.  This file says once what a step
can do, and the other files on inflation cite it instead of opening the step.

* `Progress.Advances` lists the four ways in which a line is accepted, and
  `advances_of_step` says that there is no fifth.
* `Progress.Faults` lists the five ways in which a line fails, and `faults_of_step`
  says that there is no sixth, and that a failure leaves the registry alone.
* `step_line`: the number of a line matters for nothing but the line of the error.
* `run_append_of_ok`, `run_append_of_error`: a run is cut anywhere, and stops at its
  first error.
* `exists_faulty_line`: a run that fails does so at one line, and the lines before it
  are accepted.

A registry changes only by creations at the scale of the inflater.  So a property that
these preserve is preserved by blocks and documents, whether they fail or not
(`Inflater.stable_block`, `Inflater.stable_document`).
-/

namespace SpecOverlay

/-! ## The line of an error

Everything that reads a line takes its number, and uses it only to supply it to an
error. -/

theorem Scope.resolve_line (s : Scope) (line : Nat) (token : String) :
    s.resolve line token = (s.resolve 0 token).mapError (Error.withLine · line) := by
  rw [Scope.resolve, Scope.resolve]
  cases Scope.reference? token with
  | none => rfl
  | some name =>
    dsimp only
    cases s.get? name <;> rfl

theorem Scope.declareLine_line (s : Scope) (line : Nat) (text : String) :
    s.declareLine line text = (s.declareLine 0 text).mapError (Error.withLine · line) := by
  rw [Scope.declareLine, Scope.declareLine, Declaration.ofText]
  cases Declaration.read? (Text.trim text.toList) with
  | none => rfl
  | some d =>
    show s.declare line d = (s.declare 0 d).mapError (Error.withLine · line)
    rw [Scope.declare, Scope.declare, Scope.resolve_line]
    cases s.resolve 0 d.value <;> rfl

namespace LayerSpec

theorem resolveArgument_line (scope : Scope) (line : Nat) (a : Argument) :
    resolveArgument scope line a =
      (resolveArgument scope 0 a).mapError (Error.withLine · line) := by
  cases a with
  | flag => rfl
  | value text =>
    rw [resolveArgument, resolveArgument, Scope.resolve_line]
    cases scope.resolve 0 text <;> rfl

theorem addArguments_line (scope : Scope) (line : Nat) (args : Arguments)
    (words : List (List Char)) :
    addArguments scope line args words =
      (addArguments scope 0 args words).mapError (Error.withLine · line) := by
  induction words generalizing args with
  | nil => rfl
  | cons word words ih =>
    rw [addArguments, addArguments]
    cases readArgument? word with
    | none => rfl
    | some entry =>
      obtain ⟨key, a⟩ := entry
      have ha := resolveArgument_line scope line a
      cases h0 : resolveArgument scope 0 a with
      | error e => simp only [ha, h0, mapError_error]
      | ok b => simpa only [ha, h0, mapError_ok] using ih (args.set key b)

theorem ofText_line (scope : Scope) (scale : Scale) (line : Nat) (text : String) :
    ofText scope scale line text =
      (ofText scope scale 0 text).mapError (Error.withLine · line) := by
  rw [ofText, ofText]
  cases Text.words text.toList with
  | nil => rfl
  | cons kind words =>
    dsimp only
    rw [addArguments_line]
    cases addArguments scope 0 (.empty scale) words <;> rfl

end LayerSpec

namespace Progress

variable {scale : Scale} {p q : Progress} {r s : Registry} {line : Nat} {text : String}
  {texts : List String} {e : Error}

/-! ## One line -/

/-- The ways in which a line is accepted: blank lines and comments do nothing, a
title is kept if it comes first, a declaration extends the scope before the layers,
and a layer is created and attached. -/
inductive Advances (scale : Scale) (p : Progress) (r : Registry) (line : Nat) (text : String) :
    Progress → Registry → Prop
  | skip (kind : (LineKind.of text).isContent = false) : Advances scale p r line text p r
  | title (kind : LineKind.of text = .title) (place : p.stage = .start) :
    Advances scale p r line text
      { p with title := titleOf text, hasTitle := true, stage := .title } r
  | declaration {scope : Scope} (kind : LineKind.of text = .declaration)
    (place : p.stage ≠ .layers) (declared : p.scope.declareLine line text = .ok scope) :
    Advances scale p r line text { p with scope, stage := .declarations } r
  | layer {spec : LayerSpec} {node : Node} {s : Registry} (kind : LineKind.of text = .layer)
    (read : LayerSpec.ofText p.scope scale line text = .ok spec)
    (created : r.create spec = (.ok node, s)) :
    Advances scale p r line text
      { p with nesting := p.nesting.attach spec.indent node, stage := .layers } s

/-- The ways in which a line fails: a title or a declaration in a wrong place, a
declaration or a layer that cannot be read, and a layer that cannot be created. -/
inductive Faults (scale : Scale) (p : Progress) (r : Registry) (line : Nat) (text : String) :
    Error → Prop
  | misplacedTitle (kind : LineKind.of text = .title) (place : p.stage ≠ .start) :
    Faults scale p r line text ⟨.misplacedTitle, some line⟩
  | misplacedVariable (kind : LineKind.of text = .declaration) (place : p.stage = .layers) :
    Faults scale p r line text ⟨.misplacedVariable, some line⟩
  | declaration {e : Error} (kind : LineKind.of text = .declaration) (place : p.stage ≠ .layers)
    (refused : p.scope.declareLine line text = .error e) : Faults scale p r line text e
  | reading {e : Error} (kind : LineKind.of text = .layer)
    (refused : LayerSpec.ofText p.scope scale line text = .error e) :
    Faults scale p r line text e
  | creation {spec : LayerSpec} {c : CreateError} (kind : LineKind.of text = .layer)
    (read : LayerSpec.ofText p.scope scale line text = .ok spec)
    (refused : (r.create spec).1 = .error c) :
    Faults scale p r line text (creationError spec.kind line c)

/-- **A line that is accepted advances the block in one of four ways.** -/
theorem advances_of_step (h : p.step scale r line text = (.ok q, s)) :
    Advances scale p r line text q s := by
  rw [step] at h
  cases hkind : LineKind.of text with
  | blank =>
    simp only [hkind, Prod.mk.injEq, Except.ok.injEq] at h
    obtain ⟨rfl, rfl⟩ := h
    exact .skip (by rw [hkind]; rfl)
  | comment =>
    simp only [hkind, Prod.mk.injEq, Except.ok.injEq] at h
    obtain ⟨rfl, rfl⟩ := h
    exact .skip (by rw [hkind]; rfl)
  | title =>
    simp only [hkind, addTitle, Prod.mk.injEq] at h
    by_cases hstage : p.stage = .start
    · rw [if_pos hstage, Except.ok.injEq] at h
      obtain ⟨rfl, rfl⟩ := h
      exact .title hkind hstage
    · rw [if_neg hstage] at h
      exact absurd h.1 (by simp)
  | declaration =>
    simp only [hkind, addDeclaration, Prod.mk.injEq] at h
    by_cases hstage : p.stage = .layers
    · rw [if_pos hstage] at h
      exact absurd h.1 (by simp)
    · rw [if_neg hstage] at h
      cases hd : p.scope.declareLine line text with
      | error e =>
        rw [hd] at h
        exact absurd h.1 (by simp [Except.map])
      | ok scope =>
        rw [hd, Except.map, Except.ok.injEq] at h
        obtain ⟨rfl, rfl⟩ := h
        exact .declaration hkind hstage hd
  | layer =>
    simp only [hkind, addLayer] at h
    cases hread : LayerSpec.ofText p.scope scale line text with
    | error e =>
      simp [hread] at h
    | ok spec =>
      simp only [hread] at h
      obtain ⟨result, r', hcreate⟩ : ∃ result r', r.create spec = (result, r') := ⟨_, _, rfl⟩
      cases result with
      | error c => simp [hcreate] at h
      | ok node =>
        simp only [hcreate, Prod.mk.injEq, Except.ok.injEq] at h
        obtain ⟨rfl, rfl⟩ := h
        exact .layer hkind hread hcreate

/-- **A line that fails does so in one of five ways, and leaves the registry
alone.** -/
theorem faults_of_step (h : p.step scale r line text = (.error e, s)) :
    Faults scale p r line text e ∧ s = r := by
  rw [step] at h
  cases hkind : LineKind.of text with
  | blank => simp [hkind] at h
  | comment => simp [hkind] at h
  | title =>
    simp only [hkind, addTitle, Prod.mk.injEq] at h
    by_cases hstage : p.stage = .start
    · rw [if_pos hstage] at h
      exact absurd h.1 (by simp)
    · rw [if_neg hstage, Except.error.injEq] at h
      obtain ⟨rfl, rfl⟩ := h
      exact ⟨.misplacedTitle hkind hstage, rfl⟩
  | declaration =>
    simp only [hkind, addDeclaration, Prod.mk.injEq] at h
    by_cases hstage : p.stage = .layers
    · rw [if_pos hstage, Except.error.injEq] at h
      obtain ⟨rfl, rfl⟩ := h
      exact ⟨.misplacedVariable hkind hstage, rfl⟩
    · rw [if_neg hstage] at h
      cases hd : p.scope.declareLine line text with
      | ok scope =>
        rw [hd] at h
        exact absurd h.1 (by simp [Except.map])
      | error e' =>
        rw [hd, Except.map, Except.error.injEq] at h
        obtain ⟨rfl, rfl⟩ := h
        exact ⟨.declaration hkind hstage hd, rfl⟩
  | layer =>
    simp only [hkind, addLayer] at h
    cases hread : LayerSpec.ofText p.scope scale line text with
    | error e' =>
      simp only [hread, Prod.mk.injEq, Except.error.injEq] at h
      obtain ⟨rfl, rfl⟩ := h
      exact ⟨.reading hkind hread, rfl⟩
    | ok spec =>
      simp only [hread] at h
      obtain ⟨result, r', hcreate⟩ : ∃ result r', r.create spec = (result, r') := ⟨_, _, rfl⟩
      cases result with
      | ok node => simp [hcreate] at h
      | error c =>
        simp only [hcreate, Prod.mk.injEq, Except.error.injEq] at h
        obtain ⟨rfl, rfl⟩ := h
        have hrefused : (r.create spec).1 = .error c := by rw [hcreate]
        have hkept : (r.create spec).2 = r := Registry.create_snd_of_error hrefused
        rw [hcreate] at hkept
        exact ⟨.creation hkind hread hrefused, hkept⟩

/-- **The number of a line matters for nothing but the line of the error.** -/
theorem step_line (scale : Scale) (p : Progress) (r : Registry) (line : Nat) (text : String) :
    p.step scale r line text =
      ((p.step scale r 0 text).1.mapError (Error.withLine · line), (p.step scale r 0 text).2) := by
  rw [step, step]
  cases LineKind.of text with
  | blank => rfl
  | comment => rfl
  | title =>
    simp only [addTitle]
    by_cases hstage : p.stage = .start
    · rw [if_pos hstage, if_pos hstage]
      rfl
    · rw [if_neg hstage, if_neg hstage]
      rfl
  | declaration =>
    simp only [addDeclaration]
    by_cases hstage : p.stage = .layers
    · rw [if_pos hstage, if_pos hstage]
      rfl
    · rw [if_neg hstage, if_neg hstage, Scope.declareLine_line]
      cases p.scope.declareLine 0 text <;> rfl
  | layer =>
    simp only [addLayer]
    rw [LayerSpec.ofText_line]
    cases LayerSpec.ofText p.scope scale 0 text with
    | error e => rfl
    | ok spec =>
      simp only [mapError_ok]
      obtain ⟨result, r', hcreate⟩ : ∃ result r', r.create spec = (result, r') := ⟨_, _, rfl⟩
      rw [hcreate]
      cases result with
      | ok node => rfl
      | error c =>
        cases c with
        | factory f => cases f <;> rfl
        | lookup e =>
          have hnone : e.line = none := Registry.line_of_lookup (r := r) (by rw [hcreate])
          simp [creationError, Error.atLine, Error.withLine, hnone]

/-- A line that fails is the line of the error. -/
theorem line_of_step (h : (p.step scale r line text).1 = .error e) : e.line = some line := by
  rw [step_line] at h
  cases h0 : (p.step scale r 0 text).1 with
  | ok q => simp [h0] at h
  | error e' =>
    rw [h0, mapError_error, Except.error.injEq] at h
    rw [← h]
    rfl

/-! ## A run of lines -/

theorem run_cons_of_ok (h : p.step scale r line text = (.ok q, s)) :
    p.run scale r line (text :: texts) = q.run scale s (line + 1) texts := by
  rw [run, h]

theorem run_cons_of_error (h : p.step scale r line text = (.error e, s)) :
    p.run scale r line (text :: texts) = (.error e, s) := by
  rw [run, h]

/-- A run over lines that are accepted goes on with what follows them. -/
theorem run_append_of_ok {before after : List String}
    (h : p.run scale r line before = (.ok q, s)) :
    p.run scale r line (before ++ after) = q.run scale s (line + before.length) after := by
  induction before generalizing p r line with
  | nil =>
    simp only [run, Prod.mk.injEq, Except.ok.injEq] at h
    obtain ⟨rfl, rfl⟩ := h
    rfl
  | cons text texts ih =>
    obtain ⟨result, r', hstep⟩ : ∃ result r', p.step scale r line text = (result, r') :=
      ⟨_, _, rfl⟩
    cases result with
    | error e =>
      rw [run_cons_of_error hstep] at h
      exact absurd (congrArg Prod.fst h) (by simp)
    | ok p' =>
      rw [run_cons_of_ok hstep] at h
      rw [List.cons_append, run_cons_of_ok hstep, ih h, List.length_cons]
      congr 1
      omega

/-- A run stops at its first error, whatever follows. -/
theorem run_append_of_error {before after : List String}
    (h : p.run scale r line before = (.error e, s)) :
    p.run scale r line (before ++ after) = (.error e, s) := by
  induction before generalizing p r line with
  | nil => exact absurd (congrArg Prod.fst h) (by simp [run])
  | cons text texts ih =>
    obtain ⟨result, r', hstep⟩ : ∃ result r', p.step scale r line text = (result, r') :=
      ⟨_, _, rfl⟩
    cases result with
    | error e' =>
      rw [run_cons_of_error hstep] at h
      rw [List.cons_append, run_cons_of_error hstep]
      exact h
    | ok p' =>
      rw [run_cons_of_ok hstep] at h
      rw [List.cons_append, run_cons_of_ok hstep]
      exact ih h

/-- **A run that fails does so at one line**: the lines before it are accepted, and
the run ends with the error of that line. -/
theorem exists_faulty_line (h : p.run scale r line texts = (.error e, s)) :
    ∃ before text after q r', texts = before ++ text :: after ∧
      p.run scale r line before = (.ok q, r') ∧
      q.step scale r' (line + before.length) text = (.error e, s) := by
  induction texts generalizing p r line with
  | nil => exact absurd (congrArg Prod.fst h) (by simp [run])
  | cons text texts ih =>
    obtain ⟨result, r', hstep⟩ : ∃ result r', p.step scale r line text = (result, r') :=
      ⟨_, _, rfl⟩
    cases result with
    | error e' =>
      rw [run_cons_of_error hstep] at h
      exact ⟨[], text, texts, p, r, rfl, rfl, hstep.trans h⟩
    | ok p' =>
      rw [run_cons_of_ok hstep] at h
      obtain ⟨before, text', after, q, s', rfl, hbefore, hfault⟩ := ih h
      refine ⟨text :: before, text', after, q, s', rfl, ?_, ?_⟩
      · rw [run_cons_of_ok hstep]
        exact hbefore
      · rw [List.length_cons, Nat.add_comm before.length 1, ← Nat.add_assoc]
        exact hfault

end Progress

/-! ## What a run does to the registry -/

/-- A property of registries that every creation at a scale preserves. -/
def Registry.Stable (scale : Scale) (P : Registry → Prop) : Prop :=
  ∀ r spec, P r → spec.arguments.scale = scale → P (r.create spec).2

section Stable

variable {scale : Scale} {P : Registry → Prop}

theorem Progress.stable_step (hP : Registry.Stable scale P) {r : Registry} (hr : P r)
    (p : Progress) (line : Nat) (text : String) : P (p.step scale r line text).2 := by
  obtain ⟨result, s, h⟩ : ∃ result s, p.step scale r line text = (result, s) := ⟨_, _, rfl⟩
  rw [h]
  cases result with
  | error e =>
    rw [(faults_of_step h).2]
    exact hr
  | ok q =>
    cases advances_of_step h with
    | skip kind => exact hr
    | title kind place => exact hr
    | declaration kind place declared => exact hr
    | @layer spec node _ kind read created =>
      have hcreate := hP r spec hr (LayerSpec.scale_of_ofText read)
      rw [created] at hcreate
      exact hcreate

theorem Progress.stable_run (hP : Registry.Stable scale P) {r : Registry} (hr : P r)
    (p : Progress) (line : Nat) (texts : List String) : P (p.run scale r line texts).2 := by
  induction texts generalizing p r line with
  | nil => exact hr
  | cons text texts ih =>
    have hstep := stable_step hP hr p line text
    obtain ⟨result, s, h⟩ : ∃ result s, p.step scale r line text = (result, s) := ⟨_, _, rfl⟩
    rw [h] at hstep
    cases result with
    | error e =>
      rw [run_cons_of_error h]
      exact hstep
    | ok q =>
      rw [run_cons_of_ok h]
      exact ih hstep q (line + 1)

namespace Inflater

/-- What a block leaves is what the run of its lines leaves. -/
theorem block_snd (i : Inflater) (globals : Scope) (b : Block) :
    (i.block globals b).2 =
      { i with registry := ((Progress.start globals).run i.scale i.registry b.start b.lines).2 } := by
  obtain ⟨result, s, h⟩ : ∃ result s,
      (Progress.start globals).run i.scale i.registry b.start b.lines = (result, s) := ⟨_, _, rfl⟩
  rw [block, h]
  cases result <;> rfl

/-- A block preserves what creations preserve, even if it fails. -/
theorem stable_block {i : Inflater} (hP : Registry.Stable i.scale P) (hi : P i.registry)
    (globals : Scope) (b : Block) : P (i.block globals b).2.registry := by
  rw [block_snd]
  exact Progress.stable_run hP hi _ _ _

theorem scale_block (i : Inflater) (globals : Scope) (b : Block) :
    (i.block globals b).2.scale = i.scale := by
  rw [block_snd]

theorem blocks_cons_of_error {i j : Inflater} {globals : Scope} {b : Block} {bs : List Block}
    {e : Error} (h : i.block globals b = (.error e, j)) :
    i.blocks globals (b :: bs) = (.error e, j) := by
  rw [blocks, h]

/-- After a block that inflates, the others follow from what it leaves. -/
theorem blocks_cons_of_ok {i j : Inflater} {globals : Scope} {b : Block} {bs : List Block}
    {o : Overlay} (h : i.block globals b = (.ok o, j)) :
    i.blocks globals (b :: bs) =
      ((j.blocks globals bs).1.map (o :: ·), (j.blocks globals bs).2) := by
  rw [blocks, h]
  obtain ⟨result, k, hrest⟩ : ∃ result k, j.blocks globals bs = (result, k) := ⟨_, _, rfl⟩
  cases result <;> simp only [hrest, Except.map]

theorem stable_blocks {i : Inflater} (hP : Registry.Stable i.scale P) (hi : P i.registry)
    (globals : Scope) (bs : List Block) :
    P (i.blocks globals bs).2.registry ∧ (i.blocks globals bs).2.scale = i.scale := by
  induction bs generalizing i with
  | nil => exact ⟨hi, rfl⟩
  | cons b bs ih =>
    have hblock := stable_block hP hi globals b
    have hscale := scale_block i globals b
    obtain ⟨result, j, h⟩ : ∃ result j, i.block globals b = (result, j) := ⟨_, _, rfl⟩
    rw [h] at hblock hscale
    cases result with
    | error e =>
      rw [blocks_cons_of_error h]
      exact ⟨hblock, hscale⟩
    | ok o =>
      rw [blocks_cons_of_ok h]
      obtain ⟨hrest, hrestScale⟩ := ih (by rw [hscale]; exact hP) hblock
      exact ⟨hrest, hrestScale.trans hscale⟩

/-- **A document preserves what creations preserve, even if it fails.** -/
theorem stable_document {i : Inflater} (hP : Registry.Stable i.scale P) (hi : P i.registry)
    (lines : List String) :
    P (i.document lines).2.registry ∧ (i.document lines).2.scale = i.scale := by
  rw [document]
  cases Document.split lines with
  | error e => exact ⟨hi, rfl⟩
  | ok d => exact stable_blocks hP hi d.globals d.blocks

end Inflater

end Stable

end SpecOverlay
