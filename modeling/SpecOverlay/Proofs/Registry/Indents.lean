import SpecOverlay.Proofs.Registry.Creation

/-!
# Factories that are told other indents

A factory is handed the whole specification, with the indent in it.  `Registry.reindent`
is the registry whose factories are told another indent than the one in the specification.
It creates what the registry creates for the specification with that other indent
(`create_reindent`), because nothing else in a creation looks at the indent: neither the
key that a leaf is kept for nor the error for an unknown type.

Factories that ignore the indent may be told anything (`reindent_eq_self`).
-/

namespace SpecOverlay

/-! ## Tables with mapped values -/

namespace Table

variable {β γ : Type}

/-- The table with every value mapped. -/
def map (g : β → γ) (t : Table β) : Table γ :=
  ⟨t.entries.map fun e => (e.1, g e.2), by
    rw [Ascending, List.pairwise_map]
    exact t.ascending⟩

theorem get?_map (g : β → γ) (t : Table β) (key : String) :
    (t.map g).get? key = (t.get? key).map g := by
  rw [get?, map, List.find?_map, Option.map_map, get?, Option.map_map]
  rfl

theorem keys_map (g : β → γ) (t : Table β) : (t.map g).keys = t.keys := by
  rw [keys, map, List.map_map]
  rfl

end Table

/-! ## Other indents -/

/-- The specification with another indent. -/
def LayerSpec.reindent (f : Nat → Nat) (spec : LayerSpec) : LayerSpec :=
  { spec with indent := f spec.indent }

/-- The registration whose factory is told another indent. -/
def Registration.reindent (f : Nat → Nat) (registration : Registration) : Registration :=
  { registration with factory := fun spec => registration.factory (spec.reindent f) }

namespace Registry

/-- The registry whose factories are told another indent. -/
def reindent (f : Nat → Nat) (r : Registry) : Registry :=
  { r with registrations := r.registrations.map (Registration.reindent f) }

variable (f : Nat → Nat) (r : Registry)

theorem unknown_reindent (token : String) : (r.reindent f).unknown token = r.unknown token := by
  have htokens : (r.reindent f).tokens = r.tokens := Table.keys_map _ _
  rw [unknown, suggestions, htokens, unknown, suggestions]

theorem find_reindent (token : String) :
    (r.reindent f).find token = (r.find token).map (Registration.reindent f) := by
  rw [find, reindent, Table.get?_map, find]
  cases r.registrations.get? token with
  | some registration => rfl
  | none => exact congrArg Except.error (unknown_reindent f r token)

theorem make_reindent (factory : Factory) (spec : LayerSpec) :
    (r.reindent f).make (fun spec => factory (spec.reindent f)) spec =
      ((r.make factory (spec.reindent f)).1, (r.make factory (spec.reindent f)).2.reindent f) := by
  rw [make, make]
  cases factory (spec.reindent f) <;> rfl

theorem keep_reindent (key : LayerKey) (node : Node) :
    (r.reindent f).keep key node = (r.keep key node).reindent f := by
  obtain ⟨id, shape⟩ := node
  cases shape <;> rfl

/-- **A creation looks at the indent only to tell it to a factory.** -/
theorem create_reindent (spec : LayerSpec) :
    (r.reindent f).create spec =
      ((r.create (spec.reindent f)).1, (r.create (spec.reindent f)).2.reindent f) := by
  have hkept : (r.reindent f).kept? spec.key = r.kept? (spec.reindent f).key := rfl
  have hkind : (spec.reindent f).kind = spec.kind := rfl
  rw [create, create, find_reindent, hkept, hkind]
  cases r.find spec.kind with
  | error e => rfl
  | ok registration =>
    obtain ⟨factory, shared⟩ := registration
    cases shared with
    | false => exact make_reindent f r factory spec
    | true =>
      simp only [Except.map, Registration.reindent]
      cases r.kept? (spec.reindent f).key with
      | some s => rfl
      | none =>
        simp only [make_reindent]
        obtain ⟨result, s, hmake⟩ : ∃ result s, r.make factory (spec.reindent f) = (result, s) :=
          ⟨_, _, rfl⟩
        cases result with
        | error e => simp only [hmake]
        | ok node =>
          simp only [hmake, keep_reindent]
          rfl

variable {r}

/-- **Factories that ignore the indent may be told any.** -/
theorem reindent_eq_self (hr : r.IgnoresIndent) : r.reindent f = r := by
  have hregistrations : r.registrations.map (Registration.reindent f) = r.registrations := by
    refine Table.ext_get? fun token => ?_
    rw [Table.get?_map]
    cases hget : r.registrations.get? token with
    | none => rfl
    | some registration =>
      have hfactory : (registration.reindent f).factory = registration.factory :=
        funext fun spec => hr token registration hget (spec.reindent f) spec rfl rfl
      rw [Option.map_some, Option.some_inj]
      exact congrArg (Registration.mk · registration.shared) hfactory
  rw [reindent, hregistrations]

end Registry
end SpecOverlay
