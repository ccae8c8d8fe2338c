import Mathlib.Data.List.Basic
import Mathlib.Data.List.Induction
import SpecOverlay.Proofs.Registry.Creation

/-!
# What a registry creates after a history of calls

A registry is used by registering factories, giving tokens second names, creating
layers and forgetting the kept leaves, in any order and any number of times.  A kept
leaf outlives the registration that made it: a token may get another factory while
leaves of the earlier one are still kept for it.

So a creation need not give what the registered factory makes.  `create_after_calls`
says exactly when it does, in terms of the history alone:

* `Registry.StoredBy`: the factory that made the leaf which is kept for a key.  It is
  the shared factory behind the first creation of the key, since the last time that
  leaves were forgotten, that made a leaf.
* A creation through a shared factory gives what the factory that stored the leaf
  makes.  It is what the registered factory makes if, and only if, the two agree on the
  specification.

The invariant that carries this is `Registry.Remembers`, which says what is kept for a
key after a history.  `badgeCalls` is a history of three calls after which the two
factories do not agree.
-/

namespace SpecOverlay
namespace Registry

/-! ## Histories -/

/-- A call that changes a registry. -/
inductive Call where
  | register (token : String) (factory : Factory) (shared : Bool)
  | addAlias (existing token : String)
  | create (spec : LayerSpec)
  | forget

/-- The registry after a call.  A call that fails leaves it as it is. -/
def after (r : Registry) : Call → Registry
  | .register token factory shared => r.register token factory shared
  | .addAlias existing token =>
    match r.addAlias existing token with
    | .ok r' => r'
    | .error _ => r
  | .create spec => (r.create spec).2
  | .forget => r.forget

/-- The registry after calls, made in order. -/
def afterAll (r : Registry) (calls : List Call) : Registry :=
  calls.foldl after r

@[simp] theorem afterAll_nil (r : Registry) : r.afterAll [] = r := rfl

@[simp] theorem afterAll_concat (r : Registry) (calls : List Call) (call : Call) :
    r.afterAll (calls ++ [call]) = (r.afterAll calls).after call := by
  rw [afterAll, List.foldl_append]
  rfl

/-- A call at a scale: registered factories ignore the indent, and layers are created
at the scale. -/
def Call.Fits (scale : Scale) : Call → Prop
  | .register _ factory _ => factory.IgnoresIndent
  | .addAlias _ _ => True
  | .create spec => spec.arguments.scale = scale
  | .forget => True

variable {scale : Scale} {r : Registry} {calls : List Call} {call : Call} {spec : LayerSpec}
  {key : LayerKey} {f : Factory}

/-- A second name is given to the registration of a token, and nothing else changes. -/
theorem exists_registration_of_addAlias {s : Registry} {existing token : String}
    (h : r.addAlias existing token = .ok s) :
    ∃ registration, r.registrations.get? existing = some registration ∧
      s = { r with registrations := r.registrations.insert token registration } := by
  rw [addAlias, find] at h
  cases hget : r.registrations.get? existing with
  | none => simp [hget, Except.map] at h
  | some registration =>
    simp only [hget, Except.map, Except.ok.injEq] at h
    exact ⟨registration, rfl, h.symm⟩

theorem ignoresIndent_addAlias {s : Registry} {existing token : String} (h : r.IgnoresIndent)
    (hs : r.addAlias existing token = .ok s) : s.IgnoresIndent := by
  obtain ⟨registration, hget, rfl⟩ := exists_registration_of_addAlias hs
  exact ignoresIndent_register h token (h existing registration hget) registration.shared

/-- A call that fits leaves only factories that ignore the indent. -/
theorem ignoresIndent_after (h : r.IgnoresIndent) (hcall : call.Fits scale) :
    (r.after call).IgnoresIndent := by
  cases call with
  | register token factory shared => exact ignoresIndent_register h token hcall shared
  | addAlias existing token =>
    rw [after]
    cases hs : r.addAlias existing token with
    | ok s => exact ignoresIndent_addAlias h hs
    | error e => exact h
  | create spec => exact ignoresIndent_of_registrations h (registrations_create r spec)
  | forget => exact h

theorem ignoresIndent_afterAll (h : r.IgnoresIndent) (hcalls : ∀ call ∈ calls, call.Fits scale) :
    (r.afterAll calls).IgnoresIndent := by
  induction calls using List.reverseRecOn with
  | nil => exact h
  | append_singleton calls call ih =>
    rw [afterAll_concat]
    rw [List.forall_mem_append] at hcalls
    exact ignoresIndent_after (ih hcalls.1) (hcalls.2 call (List.mem_singleton.mpr rfl))

/-! ## Who stored a leaf -/

/-- The type of a specification is shared, and its factory makes a leaf of it. -/
def Stores (r : Registry) (spec : LayerSpec) (f : Factory) : Prop :=
  r.registrations.get? spec.kind = some ⟨f, true⟩ ∧ ∃ leaf, f spec = .ok (.leaf leaf)

theorem Stores.of_found {registration : Registration} (h : r.Stores spec f)
    (found : r.registrations.get? spec.kind = some registration) :
    registration.shared = true ∧ ∃ leaf, registration.factory spec = .ok (.leaf leaf) := by
  obtain ⟨hget, hleaf⟩ := h
  obtain rfl := Option.some.inj (hget.symm.trans found)
  exact ⟨rfl, hleaf⟩

/-- Each creation of the key that made a leaf with a shared factory has been
forgotten. -/
def Unstored (r : Registry) (calls : List Call) (key : LayerKey) : Prop :=
  ∀ before spec since f, calls = before ++ .create spec :: since → spec.key = key →
    (r.afterAll before).Stores spec f → Call.forget ∈ since

/-- The factory made a leaf for the key, which has not been forgotten, and there was
none for the key at that time. -/
def StoredBy (r : Registry) (calls : List Call) (key : LayerKey) (f : Factory) : Prop :=
  ∃ before spec since, calls = before ++ .create spec :: since ∧ spec.key = key ∧
    (r.afterAll before).Stores spec f ∧ r.Unstored before key ∧ Call.forget ∉ since

theorem concat_eq_append_cons_iff {α : Type} {xs before since : List α} {x y : α} :
    xs ++ [x] = before ++ y :: since ↔
      (xs = before ∧ x = y ∧ since = []) ∨
        ∃ since', since = since' ++ [x] ∧ xs = before ++ y :: since' := by
  constructor
  · intro h
    rcases List.eq_nil_or_concat' since with rfl | ⟨since', z, rfl⟩
    · obtain ⟨rfl, rfl⟩ := List.append_singleton_inj.mp h
      exact .inl ⟨rfl, rfl, rfl⟩
    · rw [← List.cons_append, ← List.append_assoc] at h
      obtain ⟨rfl, rfl⟩ := List.append_singleton_inj.mp h
      exact .inr ⟨since', rfl, rfl⟩
  · rintro (⟨rfl, rfl, rfl⟩ | ⟨since', rfl, rfl⟩)
    · rfl
    · rw [List.append_assoc, List.cons_append]

theorem unstored_nil : r.Unstored [] key := by
  intro before spec since f h
  exact absurd h (by simp)

/-- After one more call nothing is stored for a key if the call forgets, or if nothing
was stored before and the call stores nothing. -/
theorem unstored_concat_iff :
    r.Unstored (calls ++ [call]) key ↔
      call = .forget ∨ (r.Unstored calls key ∧
        ∀ spec f, call = .create spec → spec.key = key → ¬ (r.afterAll calls).Stores spec f) := by
  constructor
  · intro h
    by_cases hforget : call = .forget
    · exact .inl hforget
    · refine .inr ⟨fun before spec since f hcalls hkey hf => ?_, fun spec f hspec hkey hf => ?_⟩
      · have hmem := h before spec (since ++ [call]) f (by simp [hcalls]) hkey hf
        rcases List.mem_append.mp hmem with hmem | hmem
        · exact hmem
        · exact absurd (List.mem_singleton.mp hmem).symm hforget
      · have hmem := h calls spec [] f (by rw [hspec]) hkey hf
        exact absurd hmem List.not_mem_nil
  · intro h before spec since f hcalls hkey hf
    rcases concat_eq_append_cons_iff.mp hcalls with ⟨rfl, rfl, rfl⟩ | ⟨since, rfl, rfl⟩
    · rcases h with hforget | ⟨-, hlast⟩
      · exact absurd hforget (by simp)
      · exact absurd hf (hlast spec f rfl hkey)
    · rcases h with rfl | ⟨hbefore, -⟩
      · exact List.mem_append_right since (List.mem_singleton.mpr rfl)
      · exact List.mem_append_left _ (hbefore before spec since f rfl hkey hf)

/-- After one more call a factory has stored the leaf of a key if it had before and the
call does not forget, or if nothing was stored before and the call makes the factory
store it. -/
theorem storedBy_concat_iff :
    r.StoredBy (calls ++ [call]) key f ↔
      (call ≠ .forget ∧ r.StoredBy calls key f) ∨
        ∃ spec, call = .create spec ∧ spec.key = key ∧ (r.afterAll calls).Stores spec f ∧
          r.Unstored calls key := by
  constructor
  · rintro ⟨before, spec, since, hcalls, hkey, hf, hbefore, hsince⟩
    rcases concat_eq_append_cons_iff.mp hcalls with ⟨rfl, rfl, rfl⟩ | ⟨since, rfl, rfl⟩
    · exact .inr ⟨spec, rfl, hkey, hf, hbefore⟩
    · rw [List.mem_append, not_or, List.mem_singleton] at hsince
      exact .inl ⟨fun h => hsince.2 h.symm, before, spec, since, rfl, hkey, hf, hbefore, hsince.1⟩
  · rintro (⟨hcall, before, spec, since, rfl, hkey, hf, hbefore, hsince⟩ |
      ⟨spec, rfl, hkey, hf, hbefore⟩)
    · refine ⟨before, spec, since ++ [call], by simp, hkey, hf, hbefore, ?_⟩
      rw [List.mem_append, not_or, List.mem_singleton]
      exact ⟨hsince, fun h => hcall h.symm⟩
    · exact ⟨calls, spec, [], rfl, hkey, hf, hbefore, List.not_mem_nil⟩

theorem StoredBy.not_unstored (h : r.StoredBy calls key f) : ¬ r.Unstored calls key := by
  obtain ⟨before, spec, since, hcalls, hkey, hf, -, hsince⟩ := h
  intro hunstored
  exact hsince (hunstored before spec since f hcalls hkey hf)

/-! ## What is kept for a key -/

/-- What a registry without kept leaves keeps for a key after calls: nothing if nothing
is stored, and else what the one factory that stored the leaf makes for the key. -/
inductive Remembers (scale : Scale) (r : Registry) (calls : List Call) (key : LayerKey) :
    Option SharedLeaf → Prop
  | nothing (unstored : r.Unstored calls key) : Remembers scale r calls key none
  | leaf {f : Factory} {s : SharedLeaf} (stored : r.StoredBy calls key f)
    (only : ∀ g, r.StoredBy calls key g → g = f)
    (makes : ∀ spec, spec.key = key → spec.arguments.scale = scale → f spec = .ok (.leaf s.leaf)) :
    Remembers scale r calls key (some s)

/-- A call that neither forgets nor stores for the key leaves what is kept for it. -/
theorem Remembers.concat {kept : Option SharedLeaf} (h : Remembers scale r calls key kept)
    (hforget : call ≠ .forget)
    (hstores : ∀ spec f, call = .create spec → spec.key = key → r.Unstored calls key →
      ¬ (r.afterAll calls).Stores spec f) :
    Remembers scale r (calls ++ [call]) key kept := by
  cases h with
  | nothing unstored =>
    refine .nothing (unstored_concat_iff.mpr (.inr ⟨unstored, fun spec f hcall hkey => ?_⟩))
    exact hstores spec f hcall hkey unstored
  | leaf stored only makes =>
    refine .leaf (storedBy_concat_iff.mpr (.inl ⟨hforget, stored⟩)) (fun g hg => ?_) makes
    rcases storedBy_concat_iff.mp hg with ⟨-, hg⟩ | ⟨-, -, -, -, hunstored⟩
    · exact only g hg
    · exact absurd hunstored stored.not_unstored

/-- A creation that stores a leaf is remembered for its key. -/
theorem Remembers.concat_create {s : SharedLeaf} {leaf : Leaf}
    (hr : (r.afterAll calls).IgnoresIndent) (hscale : spec.arguments.scale = scale)
    (hunstored : r.Unstored calls spec.key)
    (hget : (r.afterAll calls).registrations.get? spec.kind = some ⟨f, true⟩)
    (hmade : f spec = .ok (.leaf leaf)) (hs : s.leaf = leaf) :
    Remembers scale r (calls ++ [.create spec]) spec.key (some s) := by
  have hstored : r.StoredBy (calls ++ [.create spec]) spec.key f :=
    storedBy_concat_iff.mpr (.inr ⟨spec, rfl, rfl, ⟨hget, leaf, hmade⟩, hunstored⟩)
  refine .leaf hstored (fun g hg => ?_) (fun spec' hkey hscale' => ?_)
  · rcases storedBy_concat_iff.mp hg with ⟨-, hg⟩ | ⟨spec', hcall, -, ⟨hget', -⟩, -⟩
    · exact absurd hunstored hg.not_unstored
    · obtain rfl : spec = spec' := Call.create.inj hcall
      rw [hget] at hget'
      exact (Registration.mk.inj (Option.some.inj hget')).1.symm
  · rw [hs, ← hmade]
    exact hr spec.kind _ hget spec' spec hkey (hscale'.trans hscale.symm)

/-- Registering and aliasing touch no kept leaf. -/
theorem kept_after_of_registers (hforget : call ≠ .forget) (hcreate : ∀ spec, call ≠ .create spec) :
    (r.after call).kept = r.kept := by
  cases call with
  | register token factory shared => rfl
  | addAlias existing token =>
    rw [after, addAlias]
    cases r.find existing <;> rfl
  | create spec => exact absurd rfl (hcreate spec)
  | forget => exact absurd rfl hforget

/-- **What is kept after a creation.**  It is what was kept before, and one leaf in front
of it exactly if a shared factory has made the leaf for a key that none was kept for. -/
theorem kept_create (r : Registry) (spec : LayerSpec) :
    ((r.create spec).2.kept = r.kept ∧ (r.kept? spec.key = none → ∀ f, ¬ r.Stores spec f)) ∨
      ∃ f leaf, r.registrations.get? spec.kind = some ⟨f, true⟩ ∧ r.kept? spec.key = none ∧
        f spec = .ok (.leaf leaf) ∧ (r.create spec).1 = .ok ⟨r.nextId, .leaf leaf⟩ ∧
        (r.create spec).2.kept = ⟨spec.key, r.nextId, leaf⟩ :: r.kept := by
  obtain ⟨result, r', hcreate⟩ : ∃ result r', r.create spec = (result, r') := ⟨_, _, rfl⟩
  rw [hcreate]
  cases outcome_of_create hcreate with
  | unknown missing =>
    refine .inl ⟨rfl, fun _ f hf => ?_⟩
    exact absurd (missing.symm.trans hf.1) (by simp)
  | failed found unkept made =>
    refine .inl ⟨rfl, fun _ f hf => ?_⟩
    obtain ⟨-, leaf, hmade⟩ := hf.of_found found
    exact absurd (made.symm.trans hmade) (by simp)
  | reused found shared kept =>
    exact .inl ⟨rfl, fun hnone => absurd (hnone.symm.trans kept) (by simp)⟩
  | fresh found unkept made =>
    refine .inl ⟨rfl, fun _ f hf => ?_⟩
    obtain ⟨hshared, leaf, hmade⟩ := hf.of_found found
    obtain rfl := Except.ok.inj (made.symm.trans hmade)
    exact absurd (unkept hshared).2 (by simp [Shape.isGroup])
  | @stored registration leaf found shared unkept made =>
    obtain ⟨f, isShared⟩ := registration
    obtain rfl : isShared = true := shared
    exact .inr ⟨f, leaf, found, unkept, made, rfl, rfl⟩

/-- What a creation keeps for a key: what was kept before, or the leaf that it stores
for the key. -/
theorem kept?_create (r : Registry) (spec : LayerSpec) (key : LayerKey) :
    ((r.create spec).2.kept? key = r.kept? key ∧
        (spec.key = key → r.kept? key = none → ∀ f, ¬ r.Stores spec f)) ∨
      ∃ f leaf s, spec.key = key ∧ r.kept? key = none ∧
        r.registrations.get? spec.kind = some ⟨f, true⟩ ∧ f spec = .ok (.leaf leaf) ∧
        (r.create spec).2.kept? key = some s ∧ s.leaf = leaf := by
  rcases kept_create r spec with ⟨hkept, hstores⟩ | ⟨f, leaf, hget, hnone, hmade, -, hkept⟩
  · refine .inl ⟨by rw [kept?, hkept, kept?], ?_⟩
    rintro rfl
    exact hstores
  · rw [kept?, hkept]
    by_cases hkey : spec.key = key
    · subst hkey
      refine .inr ⟨f, leaf, ⟨spec.key, r.nextId, leaf⟩, rfl, hnone, hget, hmade, ?_, rfl⟩
      rw [List.find?_cons_of_pos (by simp)]
    · refine .inl ⟨?_, fun hkey' => absurd hkey' hkey⟩
      rw [List.find?_cons_of_neg (by simpa using hkey), kept?]

/-- **A creation goes on to be remembered.** -/
theorem remembers_after_create (h : Remembers scale r calls key ((r.afterAll calls).kept? key))
    (hr : (r.afterAll calls).IgnoresIndent) (hscale : spec.arguments.scale = scale) :
    Remembers scale r (calls ++ [.create spec]) key
      (((r.afterAll calls).create spec).2.kept? key) := by
  rcases kept?_create (r.afterAll calls) spec key with
    ⟨hsame, hstores⟩ | ⟨f, leaf, s, rfl, hnone, hget, hmade, hsome, hs⟩
  · rw [hsame]
    refine h.concat (by simp) fun spec' f hcall hkey hunstored => ?_
    obtain rfl : spec = spec' := Call.create.inj hcall
    refine hstores hkey ?_ f
    -- nothing is stored for the key, so nothing is kept for it
    cases hkept : (r.afterAll calls).kept? key with
    | none => rfl
    | some kept =>
      rw [hkept] at h
      cases h with
      | leaf stored => exact absurd hunstored stored.not_unstored
  · rw [hnone] at h
    rw [hsome]
    cases h with
    | nothing unstored => exact Remembers.concat_create hr hscale unstored hget hmade hs

/-- **What is kept for a key follows from the history of calls.** -/
theorem remembers_afterAll (hkept : r.kept = []) (hr : r.IgnoresIndent)
    (hcalls : ∀ call ∈ calls, call.Fits scale) (key : LayerKey) :
    Remembers scale r calls key ((r.afterAll calls).kept? key) := by
  induction calls using List.reverseRecOn with
  | nil =>
    rw [afterAll_nil, kept?, hkept]
    exact .nothing unstored_nil
  | append_singleton calls call ih =>
    rw [List.forall_mem_append] at hcalls
    have hfits := hcalls.2 call (List.mem_singleton.mpr rfl)
    have hbefore := ih hcalls.1
    rw [afterAll_concat]
    by_cases hforget : call = .forget
    · subst hforget
      exact .nothing (unstored_concat_iff.mpr (.inl rfl))
    by_cases hcreate : ∃ spec, call = .create spec
    · obtain ⟨spec, rfl⟩ := hcreate
      exact remembers_after_create hbefore (ignoresIndent_afterAll hr hcalls.1) hfits
    · rw [not_exists] at hcreate
      rw [kept?, kept_after_of_registers hforget hcreate]
      exact hbefore.concat hforget fun spec _ hspec => absurd hspec (hcreate spec)

/-! ## Creation after a history -/

/-- **What a creation gives after a history of calls.**  Let a registry start without
kept leaves, and let its calls fit the scale.  A creation of a registered type gives
what the registered factory makes if and only if the type is not shared, nothing is
stored for the key, or the factory that stored the leaf makes the same of the
specification.  If the type is shared and a leaf is stored, the creation gives what the
factory that stored it makes. -/
theorem create_after_calls {registration : Registration} (hkept : r.kept = [])
    (hr : r.IgnoresIndent) (hcalls : ∀ call ∈ calls, call.Fits scale)
    (hscale : spec.arguments.scale = scale)
    (hfind : (r.afterAll calls).find spec.kind = .ok registration) :
    (((r.afterAll calls).create spec).1.map Node.shape =
        (registration.factory spec).mapError .factory ↔
      (registration.shared = true → ∀ f, r.StoredBy calls spec.key f →
        f spec = registration.factory spec)) ∧
    (registration.shared = true → ∀ f, r.StoredBy calls spec.key f →
      ((r.afterAll calls).create spec).1.map Node.shape = (f spec).mapError .factory) := by
  have hget : (r.afterAll calls).registrations.get? spec.kind = some registration := by
    rw [find] at hfind
    cases hget : (r.afterAll calls).registrations.get? spec.kind with
    | none => simp [hget] at hfind
    | some _ => simpa [hget] using hfind
  have hremembers := remembers_afterAll hkept hr hcalls spec.key
  cases hshared : registration.shared with
  | false =>
    have hmade := create_of_unkept hget fun h => absurd (hshared.symm.trans h) (by simp)
    exact ⟨⟨fun _ h => absurd h (by simp), fun _ => hmade⟩, fun h => absurd h (by simp)⟩
  | true =>
    cases hslot : (r.afterAll calls).kept? spec.key with
    | none =>
      rw [hslot] at hremembers
      cases hremembers with
      | nothing unstored =>
        have hmade := create_of_unkept hget fun _ => hslot
        have hstored : ∀ f, ¬ r.StoredBy calls spec.key f := fun f hf => hf.not_unstored unstored
        exact ⟨⟨fun _ _ f hf => absurd hf (hstored f), fun _ => hmade⟩,
          fun _ f hf => absurd hf (hstored f)⟩
    | some s =>
      rw [hslot] at hremembers
      cases hremembers with
      | @leaf f _ stored only makes =>
        have hleaf : f spec = .ok (.leaf s.leaf) := makes spec rfl hscale
        rw [create_of_kept hget hshared hslot]
        refine ⟨⟨fun hmade _ g hg => ?_, fun hagree => ?_⟩, fun _ g hg => ?_⟩
        · rw [only g hg, hleaf]
          cases hfactory : registration.factory spec with
          | error e => simp [hfactory, Except.map] at hmade
          | ok shape =>
            rw [hfactory] at hmade
            exact congrArg Except.ok (Except.ok.inj hmade)
        · rw [← hagree rfl f stored, hleaf]
          rfl
        · rw [only g hg, hleaf]
          rfl

/-- A keyline, written with a token of its own. -/
def badge : LayerSpec :=
  ⟨"badge", 0, .ofList ⟨1, 1, 160⟩ [("distance", .value "8px"), ("from", .value "left")]⟩

/-- The token of the badge is registered for fills, a badge is created, and the token is
made a second name of the keylines. -/
def badgeCalls : List Call :=
  [.register badge.kind Factory.fill true, .create badge, .addAlias Keyline.token badge.kind]

theorem fits_badgeCalls : ∀ call ∈ badgeCalls, call.Fits badge.arguments.scale := by
  simp only [badgeCalls, List.forall_mem_cons, List.not_mem_nil, false_implies, implies_true,
    and_true]
  exact ⟨(Factory.readsArguments_ofLeaf _ _).ignoresIndent, rfl, trivial⟩

theorem create_after_badgeCalls :
    builtIn.StoredBy badgeCalls badge.key Factory.fill ∧
      ((builtIn.afterAll badgeCalls).create badge).1.map Node.shape =
        (Factory.fill badge).mapError .factory := by
  have hstored : builtIn.StoredBy badgeCalls badge.key Factory.fill := by
    refine ⟨[.register badge.kind Factory.fill true], badge, [.addAlias Keyline.token badge.kind],
      rfl, rfl, ⟨rfl, _, rfl⟩, ?_, by simp⟩
    exact unstored_concat_iff.mpr (.inr ⟨unstored_nil, fun _ _ h => absurd h (by simp)⟩)
  have hfind : (builtIn.afterAll badgeCalls).find badge.kind = .ok ⟨Factory.keyline, true⟩ := rfl
  obtain ⟨-, hcreate⟩ := create_after_calls rfl ignoresIndent_builtIn fits_badgeCalls rfl hfind
  exact ⟨hstored, hcreate rfl _ hstored⟩

/-- **A creation need not give what the registered factory makes.**  The token of the
badge is a second name of the keylines, and still a fill is created for it. -/
theorem create_ne_registered_factory :
    (∀ call ∈ badgeCalls, call.Fits badge.arguments.scale) ∧
      ∃ registration k c, (builtIn.afterAll badgeCalls).find badge.kind = .ok registration ∧
        (builtIn.afterAll badgeCalls).find Keyline.token = .ok registration ∧
        registration.factory badge = .ok (.leaf (.keyline k)) ∧
        ((builtIn.afterAll badgeCalls).create badge).1.map Node.shape = .ok (.leaf (.fill c)) :=
  ⟨fits_badgeCalls, ⟨Factory.keyline, true⟩, _, _, rfl, rfl, rfl, rfl⟩

end Registry
end SpecOverlay
