import Mathlib.Data.List.Induction
import SpecOverlay.Proofs.Inflation.Run

/-!
# The order inside a block

A block is an optional title, then variables, then layers, but not variables alone.  While
a block is read, `Progress.stage` and `Progress.hasTitle` keep track of the order.  This
file says what comes of a block without them, in terms of its lines:

* A title is *misplaced* after any line that says something, a declaration after any layer
  (`Misplaced`).  Lines without a misplaced one are in the order just described
  (`placed_iff_inOrder`).
* A line that is not misplaced is read in the variables and with the registry that the
  lines before it leave (`LineContext.read`), and may be refused.
* A block fails with the error of its first line that is misplaced or refused (`Flawed`).
  Without such a line it fails if it holds variables and nothing else, and else it is an
  overlay with the title that its title line has.  These are the rules of `Verdict`, and
  `block_iff_verdict` says that they decide.
* Blank lines and comments do not matter (`Inflater.block_contentLines`).

`stageOf` is the link: after lines that are accepted, the stage is a function of the kinds
of these lines (`Fits`).
-/

namespace SpecOverlay

/-! ## Kinds of lines in a block -/

/-- Whether some line is of a kind. -/
def hasKind (kind : LineKind) (lines : List String) : Bool :=
  lines.any fun text => LineKind.of text = kind

/-- The lines that say something. -/
def contentLines (lines : List String) : List String :=
  lines.filter fun text => (LineKind.of text).isContent

/-- The lines that say something are variables, and there is at least one. -/
def VariablesOnly (lines : List String) : Prop :=
  (∃ text ∈ lines, LineKind.of text = .declaration) ∧
    ∀ text ∈ lines, (LineKind.of text).isContent = true → LineKind.of text = .declaration

/-- The title on the first title line, if there is such a line and it is not empty. -/
def blockTitle (lines : List String) : Option String :=
  (lines.find? fun text => LineKind.of text = .title).bind titleOf

/-- A line is misplaced after other lines of its block: a title after a line that says
something, or a declaration after a layer. -/
inductive Misplaced (before : List String) (text : String) : Cause → Prop
  | title (kind : LineKind.of text = .title)
    (late : ∃ t ∈ before, (LineKind.of t).isContent = true) :
    Misplaced before text .misplacedTitle
  | declaration (kind : LineKind.of text = .declaration)
    (late : ∃ t ∈ before, LineKind.of t = .layer) : Misplaced before text .misplacedVariable

/-- No line is misplaced after the lines before it. -/
def Placed (lines : List String) : Prop :=
  ∀ (k : Nat) (text : String), lines[k]? = some text →
    ∀ cause, ¬ Misplaced (lines.take k) text cause

/-! ## What a line finds and leaves -/

/-- The variables and the registry that a line finds. -/
structure LineContext where
  scope : Scope
  registry : Registry

namespace LineContext

/-- What a line leaves, wherever it stands: a declaration binds a variable, a layer is
read and created, and other lines do nothing. -/
def read (scale : Scale) (c : LineContext) (line : Nat) (text : String) :
    Except Error LineContext :=
  match LineKind.of text with
  | .blank => .ok c
  | .comment => .ok c
  | .title => .ok c
  | .declaration => (c.scope.declareLine line text).map fun scope => { c with scope }
  | .layer =>
    match LayerSpec.ofText c.scope scale line text with
    | .error e => .error e
    | .ok spec =>
      match c.registry.create spec with
      | (.ok _, registry) => .ok { c with registry }
      | (.error e, _) => .error (Progress.creationError spec.kind line e)

/-- What lines leave, of which the first has the given number. -/
def readAll (scale : Scale) (c : LineContext) (line : Nat) (lines : List String) :
    Except Error LineContext :=
  (lines.zipIdx line).foldlM (fun c l => c.read scale l.2 l.1) c

theorem readAll_concat (scale : Scale) (c : LineContext) (line : Nat) (before : List String)
    (text : String) :
    c.readAll scale line (before ++ [text]) =
      (c.readAll scale line before).bind fun c => c.read scale (line + before.length) text := by
  rw [readAll, List.zipIdx_append, List.foldlM_append]
  show (c.readAll scale line before).bind (fun c => _) = _
  cases c.readAll scale line before with
  | error e => rfl
  | ok c' => exact bind_pure (c'.read scale (line + before.length) text)

end LineContext

/-- Lines of which none is misplaced or refused, and what they leave. -/
structure Sound (scale : Scale) (c : LineContext) (start : Nat) (lines : List String)
    (c' : LineContext) : Prop where
  placed : Placed lines
  reads : c.readAll scale start lines = .ok c'

/-- A line is misplaced after the lines before it, or it is not and is refused in the
context that these leave. -/
inductive Flawed (scale : Scale) (c : LineContext) (before : List String) (line : Nat)
    (text : String) : Error → Prop
  | misplaced {cause : Cause} (misplaced : Misplaced before text cause) :
    Flawed scale c before line text ⟨cause, some line⟩
  | refused {e : Error} (placed : ∀ cause, ¬ Misplaced before text cause)
    (refused : c.read scale line text = .error e) : Flawed scale c before line text e

/-- What comes of the lines of a block that begins on line `start`: a title or an error,
and a registry.  The first line that is misplaced or refused is the error; without such a
line, variables alone are an error on the first line; and anything else is an overlay. -/
inductive Verdict (scale : Scale) (c : LineContext) (start : Nat) (lines : List String) :
    Except Error (Option String) → Registry → Prop
  | flawed {before after : List String} {text : String} {c' : LineContext} {e : Error}
    (cut : lines = before ++ text :: after) (sound : Sound scale c start before c')
    (flaw : Flawed scale c' before (start + before.length) text e) :
    Verdict scale c start lines (.error e) c'.registry
  | variablesOnly {c' : LineContext} (sound : Sound scale c start lines c')
    (only : VariablesOnly lines) :
    Verdict scale c start lines (.error ⟨.misplacedVariable, some start⟩) c'.registry
  | overlay {c' : LineContext} (sound : Sound scale c start lines c')
    (more : ¬ VariablesOnly lines) :
    Verdict scale c start lines (.ok (blockTitle lines)) c'.registry

variable {scale : Scale} {scope : Scope} {c c' c'' : LineContext} {start line : Nat}
  {lines before after : List String} {text : String} {p q : Progress} {r s : Registry}
  {e e' : Error}

/-! ## Sound lines -/

theorem placed_concat_iff :
    Placed (before ++ [text]) ↔ Placed before ∧ ∀ cause, ¬ Misplaced before text cause := by
  constructor
  · intro h
    refine ⟨fun k t ht => ?_, ?_⟩
    · have hk := (List.getElem?_eq_some_iff.mp ht).1
      have hplaced := h k t (by rwa [List.getElem?_append_left hk])
      rwa [List.take_append_of_le_length (Nat.le_of_lt hk)] at hplaced
    · have hlast := h before.length text List.getElem?_concat_length
      rwa [List.take_left] at hlast
  · rintro ⟨hbefore, hlast⟩ k t ht
    rcases Nat.lt_or_ge k before.length with hk | hk
    · rw [List.getElem?_append_left hk] at ht
      rw [List.take_append_of_le_length (Nat.le_of_lt hk)]
      exact hbefore k t ht
    · have hlength := (List.getElem?_eq_some_iff.mp ht).1
      rw [List.length_append, List.length_singleton] at hlength
      obtain rfl : k = before.length := by omega
      rw [List.getElem?_concat_length, Option.some.injEq] at ht
      rwa [List.take_left, ← ht]

theorem sound_nil : Sound scale c start [] c where
  placed _ _ h := absurd h (by simp)
  reads := rfl

/-- One more line is sound if it is not misplaced and is read in what the others leave. -/
theorem sound_concat_iff :
    Sound scale c start (before ++ [text]) c'' ↔
      ∃ c', Sound scale c start before c' ∧ (∀ cause, ¬ Misplaced before text cause) ∧
        c'.read scale (start + before.length) text = .ok c'' := by
  constructor
  · rintro ⟨hplaced, hreads⟩
    obtain ⟨hbefore, hlast⟩ := placed_concat_iff.mp hplaced
    rw [LineContext.readAll_concat] at hreads
    cases hc : c.readAll scale start before with
    | error e =>
      rw [hc] at hreads
      exact absurd hreads (by simp [Except.bind])
    | ok c' =>
      rw [hc] at hreads
      exact ⟨c', ⟨hbefore, hc⟩, hlast, hreads⟩
  · rintro ⟨c', hbefore, hlast, hread⟩
    refine ⟨placed_concat_iff.mpr ⟨hbefore.placed, hlast⟩, ?_⟩
    rw [LineContext.readAll_concat, hbefore.reads]
    exact hread

theorem Sound.unique (h : Sound scale c start lines c') (h' : Sound scale c start lines c'') :
    c' = c'' :=
  Except.ok.inj (h.reads.symm.trans h'.reads)

/-- The first of sound lines are sound. -/
theorem Sound.exists_before (h : Sound scale c start (before ++ after) c'') :
    ∃ c', Sound scale c start before c' := by
  induction after using List.reverseRecOn generalizing c'' with
  | nil => exact ⟨c'', by simpa using h⟩
  | append_singleton after text ih =>
    rw [← List.append_assoc] at h
    obtain ⟨c', hbefore, -⟩ := sound_concat_iff.mp h
    exact ih hbefore

/-- No line among sound lines is flawed. -/
theorem Sound.not_flawed (h : Sound scale c start (before ++ text :: after) c'')
    (hbefore : Sound scale c start before c') :
    ¬ Flawed scale c' before (start + before.length) text e := by
  rw [← List.singleton_append, ← List.append_assoc] at h
  obtain ⟨d, hd⟩ := h.exists_before
  obtain ⟨d', hd', hplaced, hread⟩ := sound_concat_iff.mp hd
  obtain rfl := hd'.unique hbefore
  rintro (⟨hmisplaced⟩ | ⟨-, hrefused⟩)
  · exact hplaced _ hmisplaced
  · exact absurd (hread.symm.trans hrefused) (by simp)

theorem Misplaced.unique {cause cause' : Cause} (h : Misplaced before text cause)
    (h' : Misplaced before text cause') : cause = cause' := by
  cases h with
  | title kind =>
    cases h' with
    | title => rfl
    | declaration kind' => exact absurd (kind.symm.trans kind') (by simp)
  | declaration kind =>
    cases h' with
    | title kind' => exact absurd (kind.symm.trans kind') (by simp)
    | declaration => rfl

/-- A flawed line has one error. -/
theorem Flawed.unique (h : Flawed scale c before line text e)
    (h' : Flawed scale c before line text e') : e = e' := by
  cases h with
  | misplaced hm =>
    cases h' with
    | misplaced hm' => rw [hm.unique hm']
    | refused hplaced => exact absurd hm (hplaced _)
  | refused hplaced hrefused =>
    cases h' with
    | misplaced hm' => exact absurd hm' (hplaced _)
    | refused _ hrefused' => exact Except.error.inj (hrefused.symm.trans hrefused')

/-! ## The stage after lines -/

/-- How far the order has come after lines. -/
def stageOf (lines : List String) : Section :=
  if hasKind .layer lines then .layers
  else if hasKind .declaration lines then .declarations
  else if hasKind .title lines then .title
  else .start

/-- The progress has the stage and the title of the lines. -/
structure Fits (lines : List String) (p : Progress) : Prop where
  stage_eq : p.stage = stageOf lines
  hasTitle_eq : p.hasTitle = hasKind .title lines
  title_eq : p.title = blockTitle lines

theorem hasKind_iff {kind : LineKind} :
    hasKind kind lines = true ↔ ∃ text ∈ lines, LineKind.of text = kind := by
  simp [hasKind]

@[simp] theorem hasKind_concat (kind : LineKind) (before : List String) (text : String) :
    hasKind kind (before ++ [text]) =
      (hasKind kind before || decide (LineKind.of text = kind)) := by
  simp [hasKind]

theorem LineKind.isContent_iff {kind : LineKind} :
    kind.isContent = true ↔ kind = .title ∨ kind = .declaration ∨ kind = .layer := by
  cases kind <;> simp [isContent]

theorem exists_content_iff :
    (∃ text ∈ lines, (LineKind.of text).isContent = true) ↔
      hasKind .title lines = true ∨ hasKind .declaration lines = true ∨
        hasKind .layer lines = true := by
  simp only [hasKind_iff, LineKind.isContent_iff]
  grind

theorem stageOf_eq_start_iff :
    stageOf lines = .start ↔ hasKind .title lines = false ∧
      hasKind .declaration lines = false ∧ hasKind .layer lines = false := by
  rw [stageOf]
  cases hasKind .layer lines <;> cases hasKind .declaration lines <;>
    cases hasKind .title lines <;> simp

theorem stageOf_eq_layers_iff : stageOf lines = .layers ↔ hasKind .layer lines = true := by
  rw [stageOf]
  cases hasKind .layer lines <;> cases hasKind .declaration lines <;>
    cases hasKind .title lines <;> simp

/-- Lines are variables only if the order has come as far as variables without a title. -/
theorem variablesOnly_iff :
    VariablesOnly lines ↔ stageOf lines = .declarations ∧ hasKind .title lines = false := by
  have honly : VariablesOnly lines ↔
      hasKind .declaration lines = true ∧ hasKind .title lines = false ∧
        hasKind .layer lines = false := by
    simp only [VariablesOnly, ← Bool.not_eq_true, hasKind_iff, LineKind.isContent_iff]
    grind
  rw [honly, stageOf]
  cases hasKind .layer lines <;> cases hasKind .declaration lines <;>
    cases hasKind .title lines <;> simp

/-- **What is misplaced shows in the stage.** -/
theorem misplaced_iff {cause : Cause} :
    Misplaced before text cause ↔
      (LineKind.of text = .title ∧ stageOf before ≠ .start ∧ cause = .misplacedTitle) ∨
        (LineKind.of text = .declaration ∧ stageOf before = .layers ∧
          cause = .misplacedVariable) := by
  have hstart : stageOf before ≠ .start ↔
      ∃ t ∈ before, (LineKind.of t).isContent = true := by
    rw [Ne, stageOf_eq_start_iff, exists_content_iff]
    grind
  rw [hstart, stageOf_eq_layers_iff, hasKind_iff]
  constructor
  · rintro (⟨kind, late⟩ | ⟨kind, late⟩)
    · exact .inl ⟨kind, late, rfl⟩
    · exact .inr ⟨kind, late, rfl⟩
  · rintro (⟨kind, late, rfl⟩ | ⟨kind, late, rfl⟩)
    · exact .title kind late
    · exact .declaration kind late

theorem not_misplaced_of_kind (htitle : LineKind.of text ≠ .title)
    (hdeclaration : LineKind.of text ≠ .declaration) (cause : Cause) :
    ¬ Misplaced before text cause := by
  rw [misplaced_iff]
  rintro (⟨kind, -⟩ | ⟨kind, -⟩)
  · exact htitle kind
  · exact hdeclaration kind

theorem find?_title_eq_none (h : hasKind .title lines = false) :
    lines.find? (fun text => LineKind.of text = .title) = none := by
  rw [List.find?_eq_none]
  simpa [hasKind] using h

theorem blockTitle_concat_of_ne_title (h : LineKind.of text ≠ .title) :
    blockTitle (before ++ [text]) = blockTitle before := by
  rw [blockTitle, List.find?_append, List.find?_cons_of_neg (by simpa using h), List.find?_nil,
    Option.or_none, blockTitle]

theorem blockTitle_concat_of_title (hbefore : hasKind .title before = false)
    (h : LineKind.of text = .title) : blockTitle (before ++ [text]) = titleOf text := by
  rw [blockTitle, List.find?_append, find?_title_eq_none hbefore,
    List.find?_cons_of_pos (by simpa using h)]
  rfl

theorem fits_start (scope : Scope) : Fits [] (.start scope) :=
  ⟨rfl, rfl, rfl⟩

/-- **A line that is accepted keeps the progress fitting.** -/
theorem fits_concat (h : Fits before p) (hadvances : p.Advances scale r line text q s) :
    Fits (before ++ [text]) q := by
  obtain ⟨hstage, hhas, htitle⟩ := h
  cases hadvances with
  | skip kind =>
    have hne {k : LineKind} (hk : k.isContent = true) : LineKind.of text ≠ k := by
      rintro rfl
      exact absurd (hk.symm.trans kind) (by simp)
    refine ⟨?_, ?_, ?_⟩
    · rw [hstage]
      simp [stageOf, hne (k := .layer) rfl, hne (k := .declaration) rfl, hne (k := .title) rfl]
    · rw [hhas]
      simp [hne (k := .title) rfl]
    · rw [htitle, blockTitle_concat_of_ne_title (hne rfl)]
  | title kind place =>
    obtain ⟨hno, hnoDeclaration, hnoLayer⟩ := stageOf_eq_start_iff.mp (hstage.symm.trans place)
    refine ⟨?_, ?_, ?_⟩
    · simp [stageOf, kind, hno, hnoDeclaration, hnoLayer]
    · simp [kind]
    · rw [blockTitle_concat_of_title hno kind]
  | declaration kind place declared =>
    have hnoLayer : hasKind .layer before = false := by
      rw [← Bool.not_eq_true, ← stageOf_eq_layers_iff, ← hstage]
      exact place
    refine ⟨?_, ?_, ?_⟩
    · simp [stageOf, kind, hnoLayer]
    · simp [kind, hhas]
    · rw [blockTitle_concat_of_ne_title (by simp [kind])]
      exact htitle
  | layer kind read created =>
    refine ⟨?_, ?_, ?_⟩
    · simp [stageOf, kind]
    · simp [kind, hhas]
    · rw [blockTitle_concat_of_ne_title (by simp [kind])]
      exact htitle

/-- **A line that is accepted is not misplaced, and it is read.** -/
theorem reads_of_advances (h : Fits before p) (hadvances : p.Advances scale r line text q s) :
    (∀ cause, ¬ Misplaced before text cause) ∧
      (LineContext.mk p.scope r).read scale line text = .ok ⟨q.scope, s⟩ := by
  rw [LineContext.read]
  cases hadvances with
  | skip kind =>
    cases hkind : LineKind.of text with
    | blank => exact ⟨not_misplaced_of_kind (by simp [hkind]) (by simp [hkind]), rfl⟩
    | comment => exact ⟨not_misplaced_of_kind (by simp [hkind]) (by simp [hkind]), rfl⟩
    | _ => exact absurd kind (by simp [hkind, LineKind.isContent])
  | title kind place =>
    refine ⟨fun cause hmisplaced => ?_, by rw [kind]⟩
    rcases misplaced_iff.mp hmisplaced with ⟨-, hstart, -⟩ | ⟨kind', -⟩
    · exact hstart (h.stage_eq.symm.trans place)
    · exact absurd (kind.symm.trans kind') (by simp)
  | declaration kind place declared =>
    refine ⟨fun cause hmisplaced => ?_, by rw [kind, declared]; rfl⟩
    rcases misplaced_iff.mp hmisplaced with ⟨kind', -⟩ | ⟨-, hlayers, -⟩
    · exact absurd (kind.symm.trans kind') (by simp)
    · exact place (h.stage_eq.trans hlayers)
  | layer kind read created =>
    refine ⟨not_misplaced_of_kind (by simp [kind]) (by simp [kind]), ?_⟩
    simp only [kind, read, created]

/-- **A line that fails is flawed.** -/
theorem flawed_of_faults (h : Fits before p) (hfaults : p.Faults scale r line text e) :
    Flawed scale ⟨p.scope, r⟩ before line text e := by
  cases hfaults with
  | misplacedTitle kind place =>
    exact .misplaced (misplaced_iff.mpr (.inl ⟨kind, by rwa [← h.stage_eq], rfl⟩))
  | misplacedVariable kind place =>
    exact .misplaced (misplaced_iff.mpr (.inr ⟨kind, by rwa [← h.stage_eq], rfl⟩))
  | declaration kind place refused =>
    refine .refused (fun cause hmisplaced => ?_) (by rw [LineContext.read, kind, refused]; rfl)
    rcases misplaced_iff.mp hmisplaced with ⟨kind', -⟩ | ⟨-, hlayers, -⟩
    · exact absurd (kind.symm.trans kind') (by simp)
    · exact place (h.stage_eq.trans hlayers)
  | reading kind refused =>
    refine .refused (not_misplaced_of_kind (by simp [kind]) (by simp [kind])) ?_
    simp only [LineContext.read, kind, refused]
  | @creation spec c kind read refused =>
    refine .refused (not_misplaced_of_kind (by simp [kind]) (by simp [kind])) ?_
    obtain ⟨result, r', hcreate⟩ : ∃ result r', r.create spec = (result, r') := ⟨_, _, rfl⟩
    rw [hcreate] at refused
    obtain rfl : result = .error c := refused
    simp only [LineContext.read, kind, read, hcreate]

/-! ## Runs -/

/-- **A run is accepted over sound lines only.** -/
theorem sound_of_run (h : (Progress.start scope).run scale r start before = (.ok p, s)) :
    Sound scale ⟨scope, r⟩ start before ⟨p.scope, s⟩ ∧ Fits before p := by
  induction before using List.reverseRecOn generalizing p s with
  | nil =>
    simp only [Progress.run, Prod.mk.injEq, Except.ok.injEq] at h
    obtain ⟨rfl, rfl⟩ := h
    exact ⟨sound_nil, fits_start scope⟩
  | append_singleton before text ih =>
    obtain ⟨result, r', hbefore⟩ : ∃ result r',
      (Progress.start scope).run scale r start before = (result, r') := ⟨_, _, rfl⟩
    cases result with
    | error e =>
      rw [Progress.run_append_of_error hbefore] at h
      exact absurd (congrArg Prod.fst h) (by simp)
    | ok q =>
      obtain ⟨hsound, hfits⟩ := ih hbefore
      rw [Progress.run_append_of_ok hbefore] at h
      obtain ⟨result, s', hstep⟩ : ∃ result s',
        q.step scale r' (start + before.length) text = (result, s') := ⟨_, _, rfl⟩
      cases result with
      | error e =>
        rw [Progress.run_cons_of_error hstep] at h
        exact absurd (congrArg Prod.fst h) (by simp)
      | ok p' =>
        rw [Progress.run_cons_of_ok hstep] at h
        simp only [Progress.run, Prod.mk.injEq, Except.ok.injEq] at h
        obtain ⟨rfl, rfl⟩ := h
        have hadvances := Progress.advances_of_step hstep
        obtain ⟨hplaced, hread⟩ := reads_of_advances hfits hadvances
        exact ⟨sound_concat_iff.mpr ⟨_, hsound, hplaced, hread⟩, fits_concat hfits hadvances⟩

/-- **A run that fails does so at the first flawed line.** -/
theorem flawed_of_run (h : (Progress.start scope).run scale r start lines = (.error e, s)) :
    ∃ before text after c', lines = before ++ text :: after ∧
      Sound scale ⟨scope, r⟩ start before c' ∧
      Flawed scale c' before (start + before.length) text e ∧ s = c'.registry := by
  obtain ⟨before, text, after, q, r', hcut, hbefore, hstep⟩ := Progress.exists_faulty_line h
  obtain ⟨hsound, hfits⟩ := sound_of_run hbefore
  obtain ⟨hfaults, hregistry⟩ := Progress.faults_of_step hstep
  exact ⟨before, text, after, _, hcut, hsound, flawed_of_faults hfits hfaults, hregistry⟩

/-- **A run over sound lines is accepted.** -/
theorem run_of_sound (h : Sound scale ⟨scope, r⟩ start lines c') :
    ∃ p s, (Progress.start scope).run scale r start lines = (.ok p, s) ∧
      c' = ⟨p.scope, s⟩ ∧ Fits lines p := by
  obtain ⟨result, s, hrun⟩ : ∃ result s,
    (Progress.start scope).run scale r start lines = (result, s) := ⟨_, _, rfl⟩
  cases result with
  | error e =>
    obtain ⟨before, text, after, d, rfl, hbefore, hflawed, -⟩ := flawed_of_run hrun
    exact absurd hflawed (h.not_flawed hbefore)
  | ok p =>
    obtain ⟨hsound, hfits⟩ := sound_of_run hrun
    exact ⟨p, s, hrun, h.unique hsound, hfits⟩

/-- **A flawed line fails**, and leaves the registry alone. -/
theorem step_of_flawed (h : Fits before p)
    (hflawed : Flawed scale ⟨p.scope, r⟩ before line text e) :
    p.step scale r line text = (.error e, r) := by
  obtain ⟨result, s, hstep⟩ : ∃ result s, p.step scale r line text = (result, s) := ⟨_, _, rfl⟩
  cases result with
  | ok q =>
    obtain ⟨hplaced, hread⟩ := reads_of_advances h (Progress.advances_of_step hstep)
    rcases hflawed with ⟨hmisplaced⟩ | ⟨-, hrefused⟩
    · exact absurd hmisplaced (hplaced _)
    · exact absurd (hread.symm.trans hrefused) (by simp)
  | error e' =>
    obtain ⟨hfaults, rfl⟩ := Progress.faults_of_step hstep
    rw [hstep, hflawed.unique (flawed_of_faults h hfaults)]

/-- **A run stops at a flawed line after sound ones.** -/
theorem run_of_flawed (h : Sound scale ⟨scope, r⟩ start before c')
    (hflawed : Flawed scale c' before (start + before.length) text e) :
    (Progress.start scope).run scale r start (before ++ text :: after) =
      (.error e, c'.registry) := by
  obtain ⟨p, s, hrun, rfl, hfits⟩ := run_of_sound h
  rw [Progress.run_append_of_ok hrun, Progress.run_cons_of_error (step_of_flawed hfits hflawed)]

/-! ## Blocks -/

/-- A block of variables alone is an error on its first line, and any other block of sound
lines is an overlay with the title of its lines. -/
theorem finish_of_fits (h : Fits lines p) (start : Nat) :
    (VariablesOnly lines → p.finish start = .error ⟨.misplacedVariable, some start⟩) ∧
      (¬ VariablesOnly lines → (p.finish start).map Overlay.title = .ok (blockTitle lines)) := by
  rw [variablesOnly_iff, ← h.stage_eq, ← h.hasTitle_eq, ← h.title_eq, Progress.finish]
  refine ⟨fun honly => if_pos honly, fun hmore => ?_⟩
  rw [if_neg hmore]
  rfl

namespace Inflater

variable {i : Inflater} {b : Block} {x : Except Error (Option String)}

/-- What a verdict says comes of the lines is what comes of the block. -/
theorem block_of_verdict (h : Verdict i.scale ⟨scope, i.registry⟩ b.start b.lines x s) :
    (i.block scope b).1.map Overlay.title = x ∧ (i.block scope b).2 = { i with registry := s } := by
  rw [block]
  cases h with
  | flawed cut sound flaw =>
    rw [cut, run_of_flawed sound flaw]
    exact ⟨rfl, rfl⟩
  | variablesOnly sound only =>
    obtain ⟨p, s, hrun, rfl, hfits⟩ := run_of_sound sound
    rw [hrun]
    dsimp only
    rw [(finish_of_fits hfits b.start).1 only]
    exact ⟨rfl, rfl⟩
  | overlay sound more =>
    obtain ⟨p, s, hrun, rfl, hfits⟩ := run_of_sound sound
    rw [hrun]
    exact ⟨(finish_of_fits hfits b.start).2 more, rfl⟩

/-- Every block has a verdict. -/
theorem verdict_of_block (i : Inflater) (scope : Scope) (b : Block) :
    Verdict i.scale ⟨scope, i.registry⟩ b.start b.lines ((i.block scope b).1.map Overlay.title)
      (i.block scope b).2.registry := by
  obtain ⟨result, s, hrun⟩ : ∃ result s,
    (Progress.start scope).run i.scale i.registry b.start b.lines = (result, s) := ⟨_, _, rfl⟩
  rw [block, hrun]
  cases result with
  | error e =>
    obtain ⟨before, text, after, c', hcut, hsound, hflawed, rfl⟩ := flawed_of_run hrun
    exact .flawed hcut hsound hflawed
  | ok p =>
    obtain ⟨hsound, hfits⟩ := sound_of_run hrun
    dsimp only
    by_cases honly : VariablesOnly b.lines
    · rw [(finish_of_fits hfits b.start).1 honly]
      exact .variablesOnly hsound honly
    · rw [(finish_of_fits hfits b.start).2 honly]
      exact .overlay hsound honly

/-- **The verdict on its lines decides what comes of a block.** -/
theorem block_iff_verdict :
    Verdict i.scale ⟨scope, i.registry⟩ b.start b.lines x s ↔
      (i.block scope b).1.map Overlay.title = x ∧
        (i.block scope b).2 = { i with registry := s } := by
  refine ⟨block_of_verdict, fun ⟨hresult, hafter⟩ => ?_⟩
  have hverdict := verdict_of_block i scope b
  rwa [hresult, hafter] at hverdict

end Inflater

/-! ## Blank lines and comments -/

theorem Progress.step_of_not_content (h : (LineKind.of text).isContent = false) :
    p.step scale r line text = (.ok p, r) := by
  rw [step]
  cases hkind : LineKind.of text with
  | blank => rfl
  | comment => rfl
  | _ => exact absurd h (by simp [hkind, LineKind.isContent])

/-- **Blank lines and comments may be left out of a run**, up to the line of its error. -/
theorem Progress.run_contentLines (line line' : Nat) (texts : List String) :
    (p.run scale r line (contentLines texts)).1.mapError Error.cause =
        (p.run scale r line' texts).1.mapError Error.cause ∧
      (p.run scale r line (contentLines texts)).2 = (p.run scale r line' texts).2 := by
  induction texts generalizing p r line line' with
  | nil => exact ⟨rfl, rfl⟩
  | cons text texts ih =>
    rw [contentLines, List.filter_cons]
    by_cases hcontent : (LineKind.of text).isContent = true
    · rw [if_pos hcontent]
      have hstep := step_line scale p r line text
      have hstep' := step_line scale p r line' text
      obtain ⟨result, s, h⟩ : ∃ result s, p.step scale r 0 text = (result, s) := ⟨_, _, rfl⟩
      rw [h] at hstep hstep'
      cases result with
      | error e =>
        rw [run_cons_of_error hstep, run_cons_of_error hstep']
        exact ⟨rfl, rfl⟩
      | ok q =>
        rw [run_cons_of_ok hstep, run_cons_of_ok hstep']
        exact ih (line + 1) (line' + 1)
    · rw [if_neg hcontent, run_cons_of_ok (step_of_not_content (by simpa using hcontent))]
      exact ih line (line' + 1)

/-- Blank lines and comments may be left out of a block, up to the line of its error. -/
theorem Inflater.block_contentLines (i : Inflater) (scope : Scope) (start start' : Nat)
    (lines : List String) :
    (i.block scope ⟨start, contentLines lines⟩).1.mapError Error.cause =
        (i.block scope ⟨start', lines⟩).1.mapError Error.cause ∧
      (i.block scope ⟨start, contentLines lines⟩).2 = (i.block scope ⟨start', lines⟩).2 := by
  obtain ⟨hresult, hregistry⟩ := @Progress.run_contentLines i.scale (.start scope) i.registry
    start start' lines
  rw [block, block]
  obtain ⟨result, s, h⟩ : ∃ result s, (Progress.start scope).run i.scale i.registry start
    (contentLines lines) = (result, s) := ⟨_, _, rfl⟩
  obtain ⟨result', s', h'⟩ : ∃ result s,
    (Progress.start scope).run i.scale i.registry start' lines = (result, s) := ⟨_, _, rfl⟩
  rw [h, h'] at hresult hregistry
  rw [h, h']
  obtain rfl : s = s' := hregistry
  cases result with
  | error e =>
    cases result' with
    | error e' => exact ⟨congrArg Except.error (Except.error.inj hresult), rfl⟩
    | ok p' => exact absurd hresult (by simp)
  | ok p =>
    cases result' with
    | error e' => exact absurd hresult (by simp)
    | ok p' =>
      obtain rfl : p = p' := Except.ok.inj hresult
      refine ⟨?_, rfl⟩
      show (p.finish start).mapError Error.cause = (p.finish start').mapError Error.cause
      rw [Progress.finish, Progress.finish]
      split <;> rfl

/-! ## The order as a pattern -/

/-- The kinds of the lines that say something. -/
def contentKinds (lines : List String) : List LineKind :=
  (contentLines lines).map LineKind.of

/-- At most one title, then declarations, then layers. -/
def InOrder (kinds : List LineKind) : Prop :=
  ∃ t d l : Nat, t ≤ 1 ∧ kinds =
    List.replicate t .title ++ List.replicate d .declaration ++ List.replicate l .layer

theorem contentKinds_concat :
    contentKinds (before ++ [text]) =
      contentKinds before ++ if (LineKind.of text).isContent then [LineKind.of text] else [] := by
  rw [contentKinds, contentLines, List.filter_append, List.map_append, contentKinds,
    contentLines, List.filter_cons]
  split <;> rfl

theorem mem_contentKinds {kind : LineKind} (hcontent : kind.isContent = true) :
    kind ∈ contentKinds lines ↔ ∃ text ∈ lines, LineKind.of text = kind := by
  rw [contentKinds, contentLines, List.mem_map]
  constructor
  · rintro ⟨text, htext, rfl⟩
    exact ⟨text, (List.mem_filter.mp htext).1, rfl⟩
  · rintro ⟨text, hmem, rfl⟩
    exact ⟨text, List.mem_filter.mpr ⟨hmem, hcontent⟩, rfl⟩

theorem contentKinds_eq_nil_iff :
    contentKinds lines = [] ↔ ¬ ∃ text ∈ lines, (LineKind.of text).isContent = true := by
  simp [contentKinds, contentLines]

/-- A line is not misplaced if it is no title after a line that says something, and no
declaration after a layer. -/
theorem not_misplaced_iff :
    (∀ cause, ¬ Misplaced before text cause) ↔
      (LineKind.of text = .title → contentKinds before = []) ∧
        (LineKind.of text = .declaration → .layer ∉ contentKinds before) := by
  rw [contentKinds_eq_nil_iff, mem_contentKinds rfl]
  constructor
  · intro h
    exact ⟨fun kind late => h _ (.title kind late), fun kind late => h _ (.declaration kind late)⟩
  · rintro ⟨htitle, hdeclaration⟩ cause (⟨kind, late⟩ | ⟨kind, late⟩)
    · exact htitle kind late
    · exact hdeclaration kind late

/-- One more kind goes on in order unless it is a title that is not the first or a
declaration after a layer. -/
theorem inOrder_concat_iff {kinds : List LineKind} {kind : LineKind}
    (hcontent : kind.isContent = true) :
    InOrder (kinds ++ [kind]) ↔
      InOrder kinds ∧ (kind = .title → kinds = []) ∧ (kind = .declaration → .layer ∉ kinds) := by
  constructor
  · rintro ⟨t, d, l, ht, h⟩
    cases l with
    | succ l =>
      rw [List.replicate_succ', ← List.append_assoc] at h
      obtain ⟨rfl, rfl⟩ := List.append_singleton_inj.mp h
      exact ⟨⟨t, d, l, ht, rfl⟩, by simp, by simp⟩
    | zero =>
      rw [List.replicate_zero, List.append_nil] at h
      cases d with
      | succ d =>
        rw [List.replicate_succ', ← List.append_assoc] at h
        obtain ⟨rfl, rfl⟩ := List.append_singleton_inj.mp h
        exact ⟨⟨t, d, 0, ht, by simp⟩, by simp, by simp⟩
      | zero =>
        cases t with
        | zero => exact absurd h (by simp)
        | succ t =>
          obtain rfl : t = 0 := by omega
          obtain ⟨rfl, rfl⟩ : kinds = [] ∧ kind = .title := List.append_singleton_inj.mp h
          exact ⟨⟨0, 0, 0, by omega, rfl⟩, by simp, by simp⟩
  · rintro ⟨⟨t, d, l, ht, rfl⟩, htitle, hdeclaration⟩
    cases kind with
    | blank => exact absurd hcontent (by simp [LineKind.isContent])
    | comment => exact absurd hcontent (by simp [LineKind.isContent])
    | title =>
      rw [htitle rfl]
      exact ⟨1, 0, 0, Nat.le_refl 1, rfl⟩
    | declaration =>
      obtain rfl : l = 0 := by simpa using hdeclaration rfl
      exact ⟨t, d + 1, 0, ht, by simp [List.replicate_succ']⟩
    | layer => exact ⟨t, d, l + 1, ht, by simp [List.replicate_succ']⟩

/-- **Lines are placed if and only if they are in order.** -/
theorem placed_iff_inOrder : Placed lines ↔ InOrder (contentKinds lines) := by
  induction lines using List.reverseRecOn with
  | nil => exact ⟨fun _ => ⟨0, 0, 0, by omega, rfl⟩, fun _ _ _ h => absurd h (by simp)⟩
  | append_singleton before text ih =>
    rw [placed_concat_iff, ih, contentKinds_concat]
    by_cases hcontent : (LineKind.of text).isContent = true
    · rw [if_pos hcontent, inOrder_concat_iff hcontent, not_misplaced_iff]
    · rw [if_neg hcontent, List.append_nil]
      refine and_iff_left (not_misplaced_of_kind ?_ ?_) <;> intro h <;>
        exact hcontent (by rw [h]; rfl)

namespace Inflater

/-- **What comes of the lines of an overlay.**  The lines are judged one by one: the
first that is misplaced, or that is refused in the variables and with the registry that
the lines before it leave, is the error.  Without such a line, variables alone are an
error on the first line, and any other lines are an overlay with the title of their title
line, if there is one and it is not empty.  No line is misplaced if and only if the lines
that say something are at most one title, then variables, then layers.  Lines that say
nothing do not matter. -/
theorem overlay_iff_verdict (i : Inflater) (scope : Scope) (lines : List String) :
    (∀ x s, Verdict i.scale ⟨scope, i.registry⟩ 1 lines x s ↔
      (i.overlay scope lines).1.map Overlay.title = x ∧
        (i.overlay scope lines).2 = { i with registry := s }) ∧
    (Placed lines ↔ InOrder (contentKinds lines)) ∧
    (∀ lines', contentLines lines' = contentLines lines →
      (i.overlay scope lines').1.mapError Error.cause =
          (i.overlay scope lines).1.mapError Error.cause ∧
        (i.overlay scope lines').2 = (i.overlay scope lines).2) ∧
    Cause.misplacedTitle.code = 111 ∧ Cause.misplacedVariable.code = 110 := by
  refine ⟨fun x s => block_iff_verdict (b := ⟨1, lines⟩), placed_iff_inOrder, fun lines' h => ?_,
    rfl, rfl⟩
  obtain ⟨hresult, hafter⟩ := block_contentLines i scope 1 1 lines
  obtain ⟨hresult', hafter'⟩ := block_contentLines i scope 1 1 lines'
  rw [h] at hresult' hafter'
  exact ⟨hresult'.symm.trans hresult, hafter'.symm.trans hafter⟩

/-- A block whose title comes after a variable and a comment.  Without the comment and the
blank line the title is still what is wrong. -/
theorem overlay_of_late_title :
    let i : Inflater := ⟨.builtIn, ⟨1, 1, 160⟩⟩
    let lines : List String := ["// colors", "@accent=#FF0000", "", "# Grid", "fill color=@none"]
    let lines' : List String := ["@accent=#FF0000", "# Grid", "fill color=@none"]
    contentLines lines' = contentLines lines ∧
      Verdict i.scale ⟨.empty, i.registry⟩ 1 lines (.error ⟨.misplacedTitle, some 4⟩) i.registry ∧
      (i.overlay .empty lines').1.mapError Error.cause = .error .misplacedTitle := by
  intro i lines lines'
  have hlines : contentLines lines' = contentLines lines := rfl
  have hresult : i.overlay .empty lines = (.error ⟨.misplacedTitle, some 4⟩, i) := rfl
  obtain ⟨hverdict, -, hcontent, -⟩ := overlay_iff_verdict i .empty lines
  obtain ⟨hcause, -⟩ := hcontent lines' hlines
  rw [hresult] at hcause
  refine ⟨hlines, (hverdict _ _).mpr ⟨?_, ?_⟩, hcause⟩ <;> rw [hresult]
  rfl

end Inflater
end SpecOverlay
