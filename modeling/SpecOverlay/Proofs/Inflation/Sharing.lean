import SpecOverlay.Proofs.Error.Steps
import SpecOverlay.Proofs.Inflation.Run
import SpecOverlay.Proofs.Layer.Identity

/-!
# Sharing shows in nothing but identities

What an inflater was used for before decides which leaves its registry keeps.  It
decides nothing else: `results_after_uses` says that after any use of an inflater, a
document gives the overlays or the error that it gives from a registry without kept
leaves, apart from identities.

The proof runs two registries side by side.  They have the same registrations and both
are faithful (`Registry.Serves`), so they create the same shapes; from the same
progress, apart from identities, a line gives the same progress (`step_anonymous`), a
run gives the same progress (`run_anonymous`), and blocks and documents give the same
overlays.  A registry goes on to serve whatever the inflater is used for, because
creations are all that happens to it (`Registry.Stable`).
-/

namespace SpecOverlay

/-! ## Registries that serve the same registrations -/

/-- A registry with given registrations, which ignore the indent, and with kept leaves
that are what these make at a scale. -/
structure Registry.Serves (t : Table Registration) (scale : Scale) (r : Registry) : Prop where
  registrations_eq : r.registrations = t
  ignoresIndent : r.IgnoresIndent
  faithful : r.Faithful scale

/-- An inflater at a scale whose registry serves the registrations. -/
structure Inflater.Serves (t : Table Registration) (scale : Scale) (i : Inflater) : Prop where
  scale_eq : i.scale = scale
  registry : i.registry.Serves t scale

variable {t : Table Registration} {scale : Scale}

namespace Registry

variable {r s : Registry}

theorem stable_serves : Stable scale (Serves t scale) := by
  intro r spec hr hscale
  have hregistrations := registrations_create r spec
  exact ⟨hregistrations.trans hr.registrations_eq,
    ignoresIndent_of_registrations hr.ignoresIndent hregistrations,
    faithful_create hr.faithful hr.ignoresIndent hscale⟩

theorem serves_forget (hr : r.Serves t scale) : r.forget.Serves t scale :=
  ⟨hr.registrations_eq, hr.ignoresIndent, faithful_of_kept_eq_nil rfl⟩

/-- **Registries that serve the same registrations create the same shapes.** -/
theorem create_shape_eq {spec : LayerSpec} (hr : r.Serves t scale) (hs : s.Serves t scale)
    (hscale : spec.arguments.scale = scale) :
    (r.create spec).1.map Node.shape = (s.create spec).1.map Node.shape := by
  rw [create_of_faithful hr.faithful hscale, create_of_faithful hs.faithful hscale,
    build_congr (hr.registrations_eq.trans hs.registrations_eq.symm)]

end Registry

/-! ## Lines and runs -/

namespace Progress

/-- What the lines of a block have brought, without the identities in it. -/
def anonymous (p : Progress) : Progress :=
  { p with nesting := p.nesting.anonymous }

variable {p q : Progress} {r s : Registry}

/-- To attach the same shape gives the same, apart from identities. -/
theorem anonymous_attach (hpq : p.anonymous = q.anonymous) {node node' : Node}
    (hnode : node.shape = node'.shape) (indent : Nat) :
    anonymous { p with nesting := p.nesting.attach indent node, stage := .layers } =
      anonymous { q with nesting := q.nesting.attach indent node', stage := .layers } := by
  have hnesting : p.nesting.anonymous = q.nesting.anonymous := congrArg Progress.nesting hpq
  have hattach : (p.nesting.attach indent node).anonymous =
      (q.nesting.attach indent node').anonymous := by
    rw [Nesting.anonymous_attach, Nesting.anonymous_attach, hnesting,
      Node.anonymous_eq_iff.mpr hnode]
  have hrest := congrArg
    (fun p : Progress => { p with nesting := (q.nesting.attach indent node').anonymous,
                                  stage := Section.layers }) hpq
  rw [anonymous, hattach]
  exact hrest

/-- **A line gives the same, apart from identities, from any registry that serves the
registrations.** -/
theorem step_anonymous (hr : r.Serves t scale) (hs : s.Serves t scale)
    (hpq : p.anonymous = q.anonymous) (line : Nat) (text : String) :
    (p.step scale r line text).1.map anonymous = (q.step scale s line text).1.map anonymous := by
  obtain ⟨scope, nesting, title, hasTitle, stage⟩ := p
  obtain ⟨scope', nesting', title', hasTitle', stage'⟩ := q
  rw [anonymous, anonymous, mk.injEq] at hpq
  obtain ⟨rfl, hnesting, rfl, rfl, rfl⟩ := hpq
  dsimp only at hnesting
  rw [step, step]
  cases LineKind.of text with
  | blank => simp only [Except.map, anonymous, hnesting]
  | comment => simp only [Except.map, anonymous, hnesting]
  | title =>
    simp only [addTitle]
    by_cases hstage : stage = .start
    · rw [if_pos hstage, if_pos hstage]
      simp only [Except.map, anonymous, hnesting]
    · rw [if_neg hstage, if_neg hstage]
  | declaration =>
    simp only [addDeclaration]
    by_cases hstage : stage = .layers
    · rw [if_pos hstage, if_pos hstage]
    · rw [if_neg hstage, if_neg hstage]
      cases scope.declareLine line text with
      | error e => rfl
      | ok scope' => simp only [Except.map, anonymous, hnesting]
  | layer =>
    simp only [addLayer]
    cases hread : LayerSpec.ofText scope scale line text with
    | error e => rfl
    | ok spec =>
      have hshape := Registry.create_shape_eq hr hs (LayerSpec.scale_of_ofText hread)
      obtain ⟨result, r', hcreate⟩ : ∃ result r', r.create spec = (result, r') := ⟨_, _, rfl⟩
      obtain ⟨result', s', hcreate'⟩ : ∃ result s', s.create spec = (result, s') := ⟨_, _, rfl⟩
      rw [hcreate, hcreate'] at hshape
      simp only [hcreate, hcreate']
      rcases error_or_ok_of_map_eq hshape with ⟨e, rfl, rfl⟩ | ⟨node, node', rfl, rfl, hnode⟩
      · rfl
      · have hpq : anonymous ⟨scope, nesting, title, hasTitle, stage⟩ =
            anonymous ⟨scope, nesting', title, hasTitle, stage⟩ := by
          simp only [anonymous, hnesting]
        exact congrArg Except.ok (anonymous_attach hpq hnode spec.indent)

/-- **A run gives the same, apart from identities, from any registry that serves the
registrations.** -/
theorem run_anonymous (hr : r.Serves t scale) (hs : s.Serves t scale)
    (hpq : p.anonymous = q.anonymous) (line : Nat) (texts : List String) :
    (p.run scale r line texts).1.map anonymous = (q.run scale s line texts).1.map anonymous := by
  induction texts generalizing p q r s line with
  | nil => exact congrArg Except.ok hpq
  | cons text texts ih =>
    have hstep := step_anonymous hr hs hpq line text
    have hr' := stable_step Registry.stable_serves hr p line text
    have hs' := stable_step Registry.stable_serves hs q line text
    obtain ⟨result, r', h⟩ : ∃ result r', p.step scale r line text = (result, r') := ⟨_, _, rfl⟩
    obtain ⟨result', s', h'⟩ : ∃ result s', q.step scale s line text = (result, s') := ⟨_, _, rfl⟩
    rw [h] at hstep hr'
    rw [h'] at hstep hs'
    rcases error_or_ok_of_map_eq hstep with ⟨e, rfl, rfl⟩ | ⟨p', q', rfl, rfl, hpq'⟩
    · rw [run_cons_of_error h, run_cons_of_error h']
    · rw [run_cons_of_ok h, run_cons_of_ok h']
      exact ih hr' hs' hpq' (line + 1)

/-- The overlay of a finished block does not depend on identities. -/
theorem finish_anonymous (p : Progress) (start : Nat) :
    (p.finish start).map Overlay.anonymous = p.anonymous.finish start := by
  rw [finish, finish]
  by_cases h : p.stage = .declarations ∧ p.hasTitle = false
  · rw [if_pos h, if_pos (show p.anonymous.stage = _ ∧ p.anonymous.hasTitle = _ from h)]
    rfl
  · rw [if_neg h, if_neg (show ¬ (p.anonymous.stage = _ ∧ p.anonymous.hasTitle = _) from h)]
    rw [Except.map, Overlay.anonymous, Nesting.anonymousAll_finish]
    rfl

end Progress

/-! ## Blocks and documents -/

namespace Inflater

variable {i j : Inflater}

theorem serves_block (hi : i.Serves t scale) (globals : Scope) (b : Block) :
    (i.block globals b).2.Serves t scale := by
  obtain ⟨rfl, hregistry⟩ := hi
  exact ⟨scale_block i globals b, stable_block Registry.stable_serves hregistry globals b⟩

theorem serves_document (hi : i.Serves t scale) (lines : List String) :
    (i.document lines).2.Serves t scale := by
  obtain ⟨rfl, hregistry⟩ := hi
  obtain ⟨hregistry', hscale⟩ := stable_document Registry.stable_serves hregistry lines
  exact ⟨hscale, hregistry'⟩

/-- **Inflaters that serve the same registrations give the same overlay of a block**,
apart from identities. -/
theorem block_anonymous (hi : i.Serves t scale) (hj : j.Serves t scale) (globals : Scope)
    (b : Block) :
    (i.block globals b).1.map Overlay.anonymous = (j.block globals b).1.map Overlay.anonymous := by
  have hrun := Progress.run_anonymous hi.registry hj.registry (p := .start globals) rfl b.start
    b.lines
  rw [block, block, hi.scale_eq, hj.scale_eq]
  obtain ⟨result, r, h⟩ : ∃ result r,
    (Progress.start globals).run scale i.registry b.start b.lines = (result, r) := ⟨_, _, rfl⟩
  obtain ⟨result', s, h'⟩ : ∃ result s,
    (Progress.start globals).run scale j.registry b.start b.lines = (result, s) := ⟨_, _, rfl⟩
  rw [h, h'] at hrun
  rw [h, h']
  rcases error_or_ok_of_map_eq hrun with ⟨e, rfl, rfl⟩ | ⟨p, q, rfl, rfl, hpq⟩
  · rfl
  · dsimp only
    rw [Progress.finish_anonymous, Progress.finish_anonymous, hpq]

theorem blocks_anonymous (hi : i.Serves t scale) (hj : j.Serves t scale) (globals : Scope)
    (bs : List Block) :
    (i.blocks globals bs).1.map (List.map Overlay.anonymous) =
      (j.blocks globals bs).1.map (List.map Overlay.anonymous) := by
  induction bs generalizing i j with
  | nil => rfl
  | cons b bs ih =>
    have hblock := block_anonymous hi hj globals b
    have hi' := serves_block hi globals b
    have hj' := serves_block hj globals b
    obtain ⟨result, i', h⟩ : ∃ result i', i.block globals b = (result, i') := ⟨_, _, rfl⟩
    obtain ⟨result', j', h'⟩ : ∃ result j', j.block globals b = (result, j') := ⟨_, _, rfl⟩
    rw [h] at hblock hi'
    rw [h'] at hblock hj'
    rcases error_or_ok_of_map_eq hblock with ⟨e, rfl, rfl⟩ | ⟨o, o', rfl, rfl, ho⟩
    · rw [blocks_cons_of_error h, blocks_cons_of_error h']
    · rw [blocks_cons_of_ok h, blocks_cons_of_ok h']
      rcases error_or_ok_of_map_eq (ih hi' hj') with ⟨e, he, he'⟩ | ⟨os, os', hos, hos', heq⟩
      · rw [he, he']
        rfl
      · rw [hos, hos']
        simp only [Except.map, List.map_cons, ho, heq]

theorem document_anonymous (hi : i.Serves t scale) (hj : j.Serves t scale)
    (lines : List String) :
    (i.document lines).1.map (List.map Overlay.anonymous) =
      (j.document lines).1.map (List.map Overlay.anonymous) := by
  rw [document, document]
  cases Document.split lines with
  | error e => rfl
  | ok d => exact blocks_anonymous hi hj d.globals d.blocks

/-! ## Histories of use -/

/-- A use of an inflater. -/
inductive Use where
  | document (lines : List String)
  | overlay (scope : Scope) (lines : List String)
  | create (spec : LayerSpec)
  | forget

/-- The inflater after a use, which may have failed. -/
def after (i : Inflater) : Use → Inflater
  | .document lines => (i.document lines).2
  | .overlay scope lines => (i.overlay scope lines).2
  | .create spec => { i with registry := (i.registry.create spec).2 }
  | .forget => { i with registry := i.registry.forget }

/-- The inflater after several uses, in order. -/
def afterAll (i : Inflater) (uses : List Use) : Inflater :=
  uses.foldl after i

/-- A use at a scale: layers are created at the scale. -/
def Use.Fits (scale : Scale) : Use → Prop
  | .create spec => spec.arguments.scale = scale
  | _ => True

theorem serves_after (hi : i.Serves t scale) {use : Use} (huse : use.Fits scale) :
    (i.after use).Serves t scale := by
  cases use with
  | document lines => exact serves_document hi lines
  | overlay scope lines => exact serves_block hi scope ⟨1, lines⟩
  | create spec => exact ⟨hi.scale_eq, Registry.stable_serves i.registry spec hi.registry huse⟩
  | forget => exact ⟨hi.scale_eq, Registry.serves_forget hi.registry⟩

theorem serves_afterAll (hi : i.Serves t scale) {uses : List Use}
    (huses : ∀ use ∈ uses, use.Fits scale) : (i.afterAll uses).Serves t scale := by
  induction uses generalizing i with
  | nil => exact hi
  | cons use uses ih =>
    rw [List.forall_mem_cons] at huses
    exact ih (serves_after hi huses.1) huses.2

/-- Overlays that are equal apart from identities draw the same. -/
theorem draw_eq_of_anonymous_eq {x y : Except Error Overlay}
    (h : x.map Overlay.anonymous = y.map Overlay.anonymous) (bounds : Rect Float32)
    (canvas : Canvas) :
    x.map (Overlay.draw · bounds canvas) = y.map (Overlay.draw · bounds canvas) := by
  rcases error_or_ok_of_map_eq h with ⟨e, rfl, rfl⟩ | ⟨o, o', rfl, rfl, ho⟩
  · rfl
  · rw [Except.map, Except.map, ← Overlay.draw_anonymous o, ho, Overlay.draw_anonymous]

theorem drawAll_eq_of_anonymous_eq {x y : Except Error (List Overlay)}
    (h : x.map (List.map Overlay.anonymous) = y.map (List.map Overlay.anonymous))
    (bounds : Rect Float32) (canvas : Canvas) :
    x.map (List.map (Overlay.draw · bounds canvas)) =
      y.map (List.map (Overlay.draw · bounds canvas)) := by
  have hdraw (os : List Overlay) : os.map (Overlay.draw · bounds canvas) =
      (os.map Overlay.anonymous).map (Overlay.draw · bounds canvas) := by
    rw [List.map_map]
    exact List.map_congr_left fun o _ => (Overlay.draw_anonymous o bounds canvas).symm
  rcases error_or_ok_of_map_eq h with ⟨e, rfl, rfl⟩ | ⟨os, os', rfl, rfl, hos⟩
  · rfl
  · rw [Except.map, Except.map, hdraw os, hos, hdraw os']

/-- **What an inflater was used for shows in nothing but identities.**  Let an inflater
start without kept leaves and with factories that ignore the indent, and use it for
documents, overlays and creations at its scale, successfully or not, forgetting the kept
leaves now and then.  A document or an overlay then gives what it gives from any
inflater with the same scale and the same registrations that keeps no leaves: the same
error, or the same overlays apart from identities, which draw the same. -/
theorem results_after_uses {i j : Inflater} {uses : List Use} (hkept : i.registry.kept = [])
    (hindent : i.registry.IgnoresIndent) (huses : ∀ use ∈ uses, use.Fits i.scale)
    (hscale : j.scale = i.scale)
    (hregistrations : j.registry.registrations = i.registry.registrations)
    (hkept' : j.registry.kept = []) (scope : Scope) (lines : List String) :
    ((i.afterAll uses).document lines).1.map (List.map Overlay.anonymous) =
        (j.document lines).1.map (List.map Overlay.anonymous) ∧
      ((i.afterAll uses).overlay scope lines).1.map Overlay.anonymous =
        (j.overlay scope lines).1.map Overlay.anonymous ∧
      ∀ bounds canvas,
        ((i.afterAll uses).document lines).1.map (List.map (Overlay.draw · bounds canvas)) =
            (j.document lines).1.map (List.map (Overlay.draw · bounds canvas)) ∧
          ((i.afterAll uses).overlay scope lines).1.map (Overlay.draw · bounds canvas) =
            (j.overlay scope lines).1.map (Overlay.draw · bounds canvas) := by
  have hi : i.Serves i.registry.registrations i.scale :=
    ⟨rfl, rfl, hindent, Registry.faithful_of_kept_eq_nil hkept⟩
  have hj : j.Serves i.registry.registrations i.scale :=
    ⟨hscale, hregistrations, Registry.ignoresIndent_of_registrations hindent hregistrations,
      Registry.faithful_of_kept_eq_nil hkept'⟩
  have hafter := serves_afterAll hi huses
  have hdocument := document_anonymous hafter hj lines
  have hoverlay := block_anonymous hafter hj scope ⟨1, lines⟩
  refine ⟨hdocument, hoverlay, fun bounds canvas => ⟨?_, ?_⟩⟩
  · exact drawAll_eq_of_anonymous_eq hdocument bounds canvas
  · exact draw_eq_of_anonymous_eq hoverlay bounds canvas

/-- A document that fails on its third line leaves the fill of its second line, which the
next document gets. -/
theorem results_after_failure :
    let i : Inflater := ⟨.builtIn, ⟨1, 1, 160⟩⟩
    let uses : List Use := [.document ["inset", "fill color=#FF0000", "fill color=#12"]]
    let lines : List String := ["fill color=#FF0000", "fill color=#0000FF"]
    let layers : List Layer := [.leaf 1 (.fill ⟨⟨0xFFFF0000⟩⟩), .leaf 2 (.fill ⟨⟨0xFF0000FF⟩⟩)]
    ((i.afterAll uses).document lines).1 = .ok [⟨none, layers⟩] ∧
      (i.document lines).1.map (List.map Overlay.anonymous) =
        .ok [⟨none, Layer.anonymousAll layers⟩] := by
  intro i uses lines layers
  have h : ((i.afterAll uses).document lines).1 = .ok [⟨none, layers⟩] := rfl
  have huses : ∀ use ∈ uses, use.Fits i.scale := by
    rw [List.forall_mem_singleton]
    exact trivial
  obtain ⟨hdocument, -, -⟩ := results_after_uses (i := i) (j := i) rfl
    Registry.ignoresIndent_builtIn huses rfl rfl rfl .empty lines
  rw [h] at hdocument
  exact ⟨h, hdocument.symm⟩

end Inflater
end SpecOverlay
