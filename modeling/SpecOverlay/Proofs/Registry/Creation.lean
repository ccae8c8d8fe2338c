import SpecOverlay.Proofs.Error.Steps
import SpecOverlay.Registry.BuiltIn

/-!
# What a creation does

`Registry.Outcome` lists the five ways in which a creation ends, with the registry
afterwards, and `outcome_of_create` says that there is no sixth.  `create_of_kept` and
`create_of_unkept` say what a creation of a registered type gives.

## Building without a store

`Registry.build` is a creation that has no store and no identities: it looks the type
up and lets the factory make the shape.  A registry is *faithful* at a scale if each
leaf that it keeps is what `build` makes for the leaf's key at that scale.  A faithful
registry creates what it builds (`create_of_faithful`) and stays faithful
(`faithful_create`), provided that its factories ignore the indent, which is no part of
a key.  The built-in factories do, because they read the arguments and the scale alone
(`readsArguments_builtIn`).
-/

namespace SpecOverlay

namespace Registry

/-! ## The outcomes of a creation -/

/-- The ways in which a creation ends.  The type is unknown, or the factory fails, or a
kept leaf is used again, or a new shape is returned, which is kept if the type is
shared and the shape is a leaf. -/
inductive Outcome (r : Registry) (spec : LayerSpec) : Except CreateError Node → Registry → Prop
  | unknown (missing : r.registrations.get? spec.kind = none) :
    Outcome r spec (.error (.lookup (r.unknown spec.kind))) r
  | failed {registration : Registration} {f : Failure}
    (found : r.registrations.get? spec.kind = some registration)
    (unkept : registration.shared = true → r.kept? spec.key = none)
    (made : registration.factory spec = .error f) : Outcome r spec (.error (.factory f)) r
  | reused {registration : Registration} {s : SharedLeaf}
    (found : r.registrations.get? spec.kind = some registration)
    (shared : registration.shared = true) (kept : r.kept? spec.key = some s) :
    Outcome r spec (.ok ⟨s.id, .leaf s.leaf⟩) r
  | fresh {registration : Registration} {shape : Shape}
    (found : r.registrations.get? spec.kind = some registration)
    (unkept : registration.shared = true → r.kept? spec.key = none ∧ shape.isGroup = true)
    (made : registration.factory spec = .ok shape) :
    Outcome r spec (.ok ⟨r.nextId, shape⟩) { r with nextId := r.nextId + 1 }
  | stored {registration : Registration} {leaf : Leaf}
    (found : r.registrations.get? spec.kind = some registration)
    (shared : registration.shared = true) (unkept : r.kept? spec.key = none)
    (made : registration.factory spec = .ok (.leaf leaf)) :
    Outcome r spec (.ok ⟨r.nextId, .leaf leaf⟩)
      { r with kept := ⟨spec.key, r.nextId, leaf⟩ :: r.kept, nextId := r.nextId + 1 }

/-- **A creation ends in one of five ways.** -/
theorem outcome_of_create {r r' : Registry} {spec : LayerSpec} {result : Except CreateError Node}
    (h : r.create spec = (result, r')) : r.Outcome spec result r' := by
  rw [create, find] at h
  cases hget : r.registrations.get? spec.kind with
  | none =>
    simp only [hget, Prod.mk.injEq] at h
    obtain ⟨rfl, rfl⟩ := h
    exact .unknown hget
  | some registration =>
    obtain ⟨factory, shared⟩ := registration
    cases shared with
    | false =>
      simp only [hget, make] at h
      cases hmade : factory spec with
      | error f =>
        simp only [hmade, Prod.mk.injEq] at h
        obtain ⟨rfl, rfl⟩ := h
        exact .failed hget (fun hshared => absurd hshared (by simp)) hmade
      | ok shape =>
        simp only [hmade, Prod.mk.injEq] at h
        obtain ⟨rfl, rfl⟩ := h
        exact .fresh hget (fun hshared => absurd hshared (by simp)) hmade
    | true =>
      simp only [hget, make] at h
      cases hkept : r.kept? spec.key with
      | some s =>
        simp only [hkept, Prod.mk.injEq] at h
        obtain ⟨rfl, rfl⟩ := h
        exact .reused hget rfl hkept
      | none =>
        cases hmade : factory spec with
        | error f =>
          simp only [hkept, hmade, Prod.mk.injEq] at h
          obtain ⟨rfl, rfl⟩ := h
          exact .failed hget (fun _ => hkept) hmade
        | ok shape =>
          simp only [hkept, hmade, Prod.mk.injEq] at h
          obtain ⟨rfl, rfl⟩ := h
          cases shape with
          | leaf leaf => exact .stored hget rfl hkept hmade
          | group g => exact .fresh hget (fun _ => ⟨hkept, rfl⟩) hmade

/-- A leaf that is kept for a shared type is used again. -/
theorem create_of_kept {r : Registry} {spec : LayerSpec} {registration : Registration}
    {s : SharedLeaf} (found : r.registrations.get? spec.kind = some registration)
    (shared : registration.shared = true) (kept : r.kept? spec.key = some s) :
    (r.create spec).1 = .ok ⟨s.id, .leaf s.leaf⟩ := by
  obtain ⟨factory, isShared⟩ := registration
  obtain rfl : isShared = true := shared
  simp only [create, find, found, kept]

/-- Without a kept leaf, the factory makes the shape. -/
theorem create_of_unkept {r : Registry} {spec : LayerSpec} {registration : Registration}
    (found : r.registrations.get? spec.kind = some registration)
    (unkept : registration.shared = true → r.kept? spec.key = none) :
    (r.create spec).1.map Node.shape = (registration.factory spec).mapError .factory := by
  obtain ⟨result, s, hcreate⟩ : ∃ result s, r.create spec = (result, s) := ⟨_, _, rfl⟩
  rw [hcreate]
  cases outcome_of_create hcreate with
  | unknown missing => exact absurd (missing.symm.trans found) (by simp)
  | failed found' _ made =>
    obtain rfl := Option.some.inj (found'.symm.trans found)
    rw [made]
    rfl
  | reused found' shared kept =>
    obtain rfl := Option.some.inj (found'.symm.trans found)
    exact absurd ((unkept shared).symm.trans kept) (by simp)
  | fresh found' _ made =>
    obtain rfl := Option.some.inj (found'.symm.trans found)
    rw [made]
    rfl
  | stored found' _ _ made =>
    obtain rfl := Option.some.inj (found'.symm.trans found)
    rw [made]
    rfl

/-- A creation changes no registration. -/
theorem registrations_create (r : Registry) (spec : LayerSpec) :
    (r.create spec).2.registrations = r.registrations := by
  obtain ⟨result, r', h⟩ : ∃ result r', r.create spec = (result, r') := ⟨_, _, rfl⟩
  rw [h]
  cases outcome_of_create h <;> rfl

/-- A look-up fails without a line. -/
theorem line_of_lookup {r : Registry} {spec : LayerSpec} {e : Error}
    (h : (r.create spec).1 = .error (.lookup e)) : e.line = none := by
  obtain ⟨result, r', hcreate⟩ : ∃ result r', r.create spec = (result, r') := ⟨_, _, rfl⟩
  rw [hcreate] at h
  subst h
  cases outcome_of_create hcreate
  rfl

/-! ## Building -/

/-- What a registry makes of a specification without a store and without identities. -/
def build (r : Registry) (spec : LayerSpec) : Except CreateError Shape :=
  match r.find spec.kind with
  | .error e => .error (.lookup e)
  | .ok registration => (registration.factory spec).mapError .factory

theorem build_of_found {r : Registry} {spec : LayerSpec} {registration : Registration}
    (h : r.registrations.get? spec.kind = some registration) :
    r.build spec = (registration.factory spec).mapError .factory := by
  rw [build, find, h]

theorem build_of_missing {r : Registry} {spec : LayerSpec}
    (h : r.registrations.get? spec.kind = none) :
    r.build spec = .error (.lookup (r.unknown spec.kind)) := by
  rw [build, find, h]

/-- What is built depends on the registrations alone. -/
theorem build_congr {r s : Registry} (h : r.registrations = s.registrations) :
    r.build = s.build := by
  obtain ⟨registrations, kept, nextId⟩ := r
  obtain rfl : registrations = s.registrations := h
  rfl

end Registry

/-! ## What factories read -/

/-- A factory whose result depends on the arguments and the scale alone. -/
def Factory.ReadsArguments (f : Factory) : Prop :=
  ∀ spec spec' : LayerSpec, spec.arguments = spec'.arguments → f spec = f spec'

/-- A factory whose result depends on the type, the arguments and the scale, but not on
the indent. -/
def Factory.IgnoresIndent (f : Factory) : Prop :=
  ∀ spec spec' : LayerSpec, spec.key = spec'.key →
    spec.arguments.scale = spec'.arguments.scale → f spec = f spec'

theorem LayerSpec.arguments_eq_of_key {spec spec' : LayerSpec} (hkey : spec.key = spec'.key)
    (hscale : spec.arguments.scale = spec'.arguments.scale) :
    spec.arguments = spec'.arguments := by
  obtain ⟨kind, indent, values, scale⟩ := spec
  obtain ⟨kind', indent', values', scale'⟩ := spec'
  obtain rfl : scale = scale' := hscale
  obtain rfl : values = values' := congrArg LayerKey.values hkey
  rfl

namespace Factory

theorem ReadsArguments.ignoresIndent {f : Factory} (h : f.ReadsArguments) : f.IgnoresIndent :=
  fun spec spec' hkey hscale => h spec spec' (LayerSpec.arguments_eq_of_key hkey hscale)

theorem readsArguments_ofLeaf {α : Type} (make : Arguments → Except Error α) (leaf : α → Leaf) :
    (ofLeaf make leaf).ReadsArguments := by
  intro spec spec' h
  rw [ofLeaf, ofLeaf, h]

theorem readsArguments_ofGroup {α : Type} (make : Arguments → Except Error α)
    (group : α → Group) : (ofGroup make group).ReadsArguments := by
  intro spec spec' h
  rw [ofGroup, ofGroup, h]

end Factory

namespace Registry

/-- All registered factories read the arguments and the scale alone. -/
def ReadsArguments (r : Registry) : Prop :=
  ∀ token registration, r.registrations.get? token = some registration →
    registration.factory.ReadsArguments

/-- All registered factories ignore the indent. -/
def IgnoresIndent (r : Registry) : Prop :=
  ∀ token registration, r.registrations.get? token = some registration →
    registration.factory.IgnoresIndent

theorem ReadsArguments.ignoresIndent {r : Registry} (h : r.ReadsArguments) : r.IgnoresIndent :=
  fun token registration hget => (h token registration hget).ignoresIndent

theorem ignoresIndent_of_registrations {r s : Registry} (h : r.IgnoresIndent)
    (hs : s.registrations = r.registrations) : s.IgnoresIndent := by
  intro token registration hget
  rw [hs] at hget
  exact h token registration hget

theorem ignoresIndent_register {r : Registry} (h : r.IgnoresIndent) (token : String)
    {factory : Factory} (hfactory : factory.IgnoresIndent) (shared : Bool) :
    (r.register token factory shared).IgnoresIndent := by
  intro token' registration hget
  rw [register, Table.get?_insert] at hget
  split at hget
  · rw [← Option.some.inj hget]
    exact hfactory
  · exact h token' registration hget

/-- What is registered in the built-in registry is a built-in type. -/
theorem exists_builtIn_of_get? {token : String} {registration : Registration}
    (h : builtIn.registrations.get? token = some registration) :
    ∃ b ∈ BuiltIn.all, b.token = token ∧ registration = ⟨b.factory, b.shared⟩ := by
  have hfold : ∀ (bs : List BuiltIn) (r : Registry),
      (bs.foldl (fun r b => r.register b.token b.factory b.shared) r).registrations.get? token =
        some registration →
      r.registrations.get? token = some registration ∨
        ∃ b ∈ bs, b.token = token ∧ registration = ⟨b.factory, b.shared⟩ := by
    intro bs
    induction bs with
    | nil => exact fun r hr => .inl hr
    | cons b bs ih =>
      intro r hr
      rcases ih _ hr with hr | ⟨b', hb', hb⟩
      · simp only [register, Table.get?_insert] at hr
        by_cases htoken : b.token = token
        · rw [if_pos htoken] at hr
          exact .inr ⟨b, List.mem_cons_self, htoken, (Option.some.inj hr).symm⟩
        · rw [if_neg htoken] at hr
          exact .inl hr
      · exact .inr ⟨b', List.mem_cons_of_mem b hb', hb⟩
  rcases hfold _ _ h with hempty | hb
  · exact absurd hempty (by simp [empty])
  · exact hb

/-- **The built-in factories read the arguments and the scale alone.** -/
theorem readsArguments_builtIn : builtIn.ReadsArguments := by
  have hall : ∀ b ∈ BuiltIn.all, b.factory.ReadsArguments := by
    simp only [BuiltIn.all, List.forall_mem_cons, List.not_mem_nil, false_implies, implies_true,
      and_true]
    exact ⟨Factory.readsArguments_ofLeaf _ _, Factory.readsArguments_ofLeaf _ _,
      Factory.readsArguments_ofLeaf _ _, Factory.readsArguments_ofLeaf _ _,
      Factory.readsArguments_ofGroup _ _, Factory.readsArguments_ofGroup _ _,
      Factory.readsArguments_ofGroup _ _, Factory.readsArguments_ofLeaf _ _,
      Factory.readsArguments_ofLeaf _ _⟩
  intro token registration h
  obtain ⟨b, hb, -, rfl⟩ := exists_builtIn_of_get? h
  exact hall b hb

/-- The built-in factories ignore the indent. -/
theorem ignoresIndent_builtIn : builtIn.IgnoresIndent :=
  readsArguments_builtIn.ignoresIndent

/-! ## Faithful registries -/

/-- Every kept leaf is what the registry builds for its key at a scale. -/
def Faithful (scale : Scale) (r : Registry) : Prop :=
  ∀ s ∈ r.kept, ∀ spec : LayerSpec, spec.key = s.key → spec.arguments.scale = scale →
    r.build spec = .ok (.leaf s.leaf)

theorem mem_of_kept? {r : Registry} {key : LayerKey} {s : SharedLeaf}
    (h : r.kept? key = some s) : s ∈ r.kept ∧ s.key = key := by
  rw [kept?] at h
  have hkey := List.find?_some h
  exact ⟨List.mem_of_find?_eq_some h, by simpa using hkey⟩

/-- **A faithful registry creates what it builds**, apart from the identity. -/
theorem create_of_faithful {scale : Scale} {r : Registry} {spec : LayerSpec}
    (h : r.Faithful scale) (hscale : spec.arguments.scale = scale) :
    (r.create spec).1.map Node.shape = r.build spec := by
  obtain ⟨result, r', hcreate⟩ : ∃ result r', r.create spec = (result, r') := ⟨_, _, rfl⟩
  rw [hcreate]
  cases outcome_of_create hcreate with
  | unknown missing =>
    rw [build_of_missing missing]
    rfl
  | failed found unkept made =>
    rw [build_of_found found, made]
    rfl
  | reused found shared kept =>
    obtain ⟨hmem, hkey⟩ := mem_of_kept? kept
    rw [h _ hmem spec hkey.symm hscale]
    rfl
  | fresh found unkept made =>
    rw [build_of_found found, made]
    rfl
  | stored found shared unkept made =>
    rw [build_of_found found, made]
    rfl

/-- **A creation at the scale leaves a faithful registry faithful.** -/
theorem faithful_create {scale : Scale} {r : Registry} {spec : LayerSpec} (h : r.Faithful scale)
    (hindent : r.IgnoresIndent) (hscale : spec.arguments.scale = scale) :
    (r.create spec).2.Faithful scale := by
  have hbuild := build_congr (registrations_create r spec)
  obtain ⟨result, r', hcreate⟩ : ∃ result r', r.create spec = (result, r') := ⟨_, _, rfl⟩
  rw [hcreate] at hbuild ⊢
  rw [Faithful, hbuild]
  cases outcome_of_create hcreate with
  | unknown missing => exact h
  | failed found unkept made => exact h
  | reused found shared kept => exact h
  | fresh found unkept made => exact h
  | @stored registration leaf found shared unkept made =>
    intro s hs spec' hkey hscale'
    rcases List.mem_cons.mp hs with rfl | hs
    · have hkind : spec'.kind = spec.kind := congrArg LayerKey.kind hkey
      have hmade : registration.factory spec' = registration.factory spec :=
        hindent _ _ found spec' spec hkey (hscale'.trans hscale.symm)
      rw [build_of_found (by rw [hkind]; exact found), hmade, made]
      rfl
    · exact h s hs spec' hkey hscale'

theorem faithful_of_kept_eq_nil {scale : Scale} {r : Registry} (h : r.kept = []) :
    r.Faithful scale := by
  intro s hs
  rw [h] at hs
  exact absurd hs List.not_mem_nil

end Registry
end SpecOverlay
