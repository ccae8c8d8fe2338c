import SpecOverlay.Proofs.Registry.Instances

/-!
# What an operation on a registry leaves alone

A registry is *reachable* if calls make it of the one without types.  The registry of the
built-in types is reachable (`reachable_builtIn`).

`operations_frame` says of every reachable registry what its operations may change:

* A look-up, a second name and a creation fail to find the same tokens, those that are not
  registered, and they fail with the same error.  It lists the registered tokens, and they
  ascend because the keys of a table do.
* What fails leaves the registry as it was.
* A creation leaves the registrations and what is kept, and keeps at most one leaf more.
  `kept_create` says when it does: exactly if the type is shared, nothing is kept for the
  key, and the factory makes a leaf.

No two leaves are kept for one key.  This is the one part that needs the history of the
registry, and it is `WellKept.distinct`.
-/

namespace SpecOverlay
namespace Registry

variable {r : Registry} {token : String} {spec : LayerSpec} {e : Error}

/-! ## Reachable registries -/

/-- Calls make the registry of the one without layer types. -/
def Reachable (r : Registry) : Prop :=
  ∃ calls, empty.afterAll calls = r

/-- The registry of the built-in types is reachable by their registrations. -/
theorem reachable_builtIn : builtIn.Reachable := by
  refine ⟨BuiltIn.all.map fun b => .register b.token b.factory b.shared, ?_⟩
  rw [afterAll, List.foldl_map]
  rfl

theorem Reachable.wellKept (h : r.Reachable) : r.WellKept := by
  obtain ⟨calls, rfl⟩ := h
  exact wellKept_afterAll (wellKept_of_kept_eq_nil rfl) calls

/-! ## Tokens that are not registered -/

theorem find_eq_error_iff :
    r.find token = .error e ↔ r.contains token = false ∧ e = r.unknown token := by
  rw [contains, ← Table.get?_eq_none_iff, find]
  cases r.registrations.get? token <;> simp [eq_comm]

theorem addAlias_eq_error_iff {new : String} :
    r.addAlias token new = .error e ↔ r.contains token = false ∧ e = r.unknown token := by
  rw [← find_eq_error_iff, addAlias]
  cases r.find token <;> simp [Except.map]

theorem create_eq_lookup_iff :
    (r.create spec).1 = .error (.lookup e) ↔
      r.contains spec.kind = false ∧ e = r.unknown spec.kind := by
  rw [contains, ← Table.get?_eq_none_iff]
  obtain ⟨result, r', hcreate⟩ : ∃ result r', r.create spec = (result, r') := ⟨_, _, rfl⟩
  rw [hcreate]
  cases outcome_of_create hcreate with
  | unknown missing => simp [missing, eq_comm]
  | failed found _ _ => simp [found]
  | reused found _ _ => simp [found]
  | fresh found _ _ => simp [found]
  | stored found _ _ _ => simp [found]

/-- A second name for a token that is not registered changes nothing. -/
theorem after_addAlias_of_error {new : String} (h : r.addAlias token new = .error e) :
    r.after (.addAlias token new) = r := by
  rw [Registry.after, h]

/-! ## What a creation keeps -/

theorem kept?_create_of_kept? {key : LayerKey} {s : SharedLeaf} (h : r.kept? key = some s)
    (spec : LayerSpec) : (r.create spec).2.kept? key = some s := by
  show (r.after (.create spec)).kept? key = some s
  exact kept?_after h (by simp)

/-- **Operations change no more than they must, and fail alike.**  In every reachable
registry, for every token:

* a look-up, a second name and a creation do not find it exactly if it is not registered,
  and all fail with one error, which lists the registered tokens in ascending order;
* a second name, a look-up and a factory that fail leave the registry as it was;
* a creation leaves the registrations, goes on to keep what was kept for each key, and
  keeps one leaf more, for its own key, exactly if the type is shared, nothing was kept for
  the key, and the factory made a leaf.  No two leaves are kept for one key. -/
theorem operations_frame (hr : r.Reachable) :
    (∀ token, ∃ known near,
      known.Pairwise (· < ·) ∧ (∀ t, t ∈ known ↔ r.contains t = true) ∧
      (∀ e, r.find token = .error e ↔
        r.contains token = false ∧ e = ⟨.unknownLayer token known near, none⟩) ∧
      (∀ new e, r.addAlias token new = .error e ↔
        r.contains token = false ∧ e = ⟨.unknownLayer token known near, none⟩) ∧
      ∀ spec e, spec.kind = token → ((r.create spec).1 = .error (.lookup e) ↔
        r.contains token = false ∧ e = ⟨.unknownLayer token known near, none⟩)) ∧
    (∀ token new e, r.addAlias token new = .error e → r.after (.addAlias token new) = r) ∧
    (∀ spec e, (r.create spec).1 = .error e → (r.create spec).2 = r) ∧
    (∀ spec, (r.create spec).2.registrations = r.registrations ∧
      (∀ key s, r.kept? key = some s → (r.create spec).2.kept? key = some s) ∧
      (((r.create spec).2.kept = r.kept ∧ (r.kept? spec.key = none → ∀ f, ¬ r.Stores spec f)) ∨
        ∃ f leaf, r.registrations.get? spec.kind = some ⟨f, true⟩ ∧ r.kept? spec.key = none ∧
          f spec = .ok (.leaf leaf) ∧ (r.create spec).1 = .ok ⟨r.nextId, .leaf leaf⟩ ∧
          (r.create spec).2.kept = ⟨spec.key, r.nextId, leaf⟩ :: r.kept)) ∧
    r.kept.Pairwise fun s t => s.key ≠ t.key := by
  refine ⟨fun token => ?_, fun token new e => after_addAlias_of_error,
    fun spec e => create_snd_of_error, fun spec => ?_, hr.wellKept.distinct.imp And.left⟩
  · refine ⟨r.tokens, r.suggestions token, r.registrations.pairwise_keys,
      fun t => Table.mem_keys_iff, fun e => find_eq_error_iff, fun new e => addAlias_eq_error_iff,
      ?_⟩
    rintro spec e rfl
    exact create_eq_lookup_iff
  · exact ⟨registrations_create r spec, fun key s h => kept?_create_of_kept? h spec,
      kept_create r spec⟩

/-- A token that is not built in is not found by any operation, and what is then listed has
the tokens that are built in. -/
theorem operations_frame_of_builtIn :
    ∃ known near, GridLines.token ∈ known ∧ "column" ∉ known ∧
      builtIn.find "column" = .error ⟨.unknownLayer "column" known near, none⟩ ∧
      builtIn.addAlias "column" "ruler" = .error ⟨.unknownLayer "column" known near, none⟩ ∧
      (builtIn.create ⟨"column", 0, .empty .standard⟩).1 =
        .error (.lookup ⟨.unknownLayer "column" known near, none⟩) := by
  obtain ⟨hlookup, -⟩ := operations_frame reachable_builtIn
  obtain ⟨known, near, -, hknown, hfind, halias, hcreate⟩ := hlookup "column"
  have hmissing : builtIn.contains "column" = false := rfl
  refine ⟨known, near, (hknown _).mpr rfl, fun h => ?_, (hfind _).mpr ⟨hmissing, rfl⟩,
    (halias _ _).mpr ⟨hmissing, rfl⟩, (hcreate _ _ rfl).mpr ⟨hmissing, rfl⟩⟩
  exact absurd (hmissing.symm.trans ((hknown _).mp h)) (by simp)

end Registry
end SpecOverlay
