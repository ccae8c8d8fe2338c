import SpecOverlay.Proofs.Registry.History

/-!
# When two creations return the same instance

A registry gives every layer that it makes a new identity, and hands a kept leaf out again
with the identity that it has.  `same_instance_iff` says, for any history of calls, when
two successful creations return the same instance: both return leaves, for equal keys,
the type was shared at both calls, and the leaves were not forgotten between them.  So a
group is returned once, and so is a leaf of a type that is not shared.

The registrations may change between the two creations.  What is handed out again then is
the leaf of the earlier factory; and a factory that answers differently from call to call
is no more than a token that is registered anew between the calls.

After its creation an instance is in one of two states, which every call preserves:

* it is kept for its key, until the leaves are forgotten (`kept?_afterAll`), and a
  creation returns it again exactly for that key through a shared type
  (`id_eq_iff_of_kept`);
* it is *spent*: its identity has been given out and is not kept (`Registry.Spent`).  It
  stays so (`spent_afterAll`), and no creation returns it again (`id_ne_of_spent`).
-/

namespace SpecOverlay
namespace Registry

variable {r : Registry} {calls : List Call} {call : Call} {spec : LayerSpec} {node : Node}
  {key : LayerKey} {s t : SharedLeaf} {id : Nat}

/-! ## Kept leaves have keys and identities of their own -/

/-- No two kept leaves have the same key or the same identity, and the identity that the
next layer gets is larger than theirs. -/
structure WellKept (r : Registry) : Prop where
  lt_nextId : ∀ s ∈ r.kept, s.id < r.nextId
  distinct : r.kept.Pairwise fun s t => s.key ≠ t.key ∧ s.id ≠ t.id

theorem wellKept_of_kept_eq_nil (h : r.kept = []) : r.WellKept where
  lt_nextId _ hs := absurd (h ▸ hs) List.not_mem_nil
  distinct := h ▸ List.Pairwise.nil

/-- Kept leaves with the same identity are the same. -/
theorem WellKept.eq_of_id_eq (hr : r.WellKept) (hs : s ∈ r.kept) (ht : t ∈ r.kept)
    (hid : s.id = t.id) : s = t := by
  have hdistinct := hr.distinct
  generalize r.kept = kept at hs ht hdistinct
  induction kept with
  | nil => exact absurd hs List.not_mem_nil
  | cons u us ih =>
    obtain ⟨hu, hus⟩ := List.pairwise_cons.mp hdistinct
    rcases List.mem_cons.mp hs with rfl | hs'
    · rcases List.mem_cons.mp ht with rfl | ht'
      · rfl
      · exact absurd hid (hu t ht').2
    · rcases List.mem_cons.mp ht with rfl | ht'
      · exact absurd hid.symm (hu s hs').2
      · exact ih hs' ht' hus

/-- A creation keeps leaves well. -/
theorem wellKept_create (hr : r.WellKept) (spec : LayerSpec) : (r.create spec).2.WellKept := by
  obtain ⟨result, r', hcreate⟩ : ∃ result r', r.create spec = (result, r') := ⟨_, _, rfl⟩
  rw [hcreate]
  cases outcome_of_create hcreate with
  | unknown missing => exact hr
  | failed found unkept made => exact hr
  | reused found shared kept => exact hr
  | fresh found unkept made =>
    exact ⟨fun s hs => Nat.lt_succ_of_lt (hr.lt_nextId s hs), hr.distinct⟩
  | stored found shared unkept made =>
    refine ⟨fun s hs => ?_, List.pairwise_cons.mpr ⟨fun s hs => ⟨?_, ?_⟩, hr.distinct⟩⟩
    · rcases List.mem_cons.mp hs with rfl | hs
      · exact Nat.lt_succ_self _
      · exact Nat.lt_succ_of_lt (hr.lt_nextId s hs)
    · have hkey := List.find?_eq_none.mp unkept s hs
      exact fun h => hkey (by simpa using h.symm)
    · exact (Nat.ne_of_lt (hr.lt_nextId s hs)).symm

/-- **Every call keeps leaves well.** -/
theorem wellKept_after (hr : r.WellKept) (call : Call) : (r.after call).WellKept := by
  cases call with
  | register token factory shared => exact ⟨hr.lt_nextId, hr.distinct⟩
  | addAlias existing token =>
    rw [after, addAlias]
    cases r.find existing with
    | error e => exact hr
    | ok registration => exact ⟨hr.lt_nextId, hr.distinct⟩
  | create spec => exact wellKept_create hr spec
  | forget => exact wellKept_of_kept_eq_nil rfl

theorem wellKept_afterAll (hr : r.WellKept) (calls : List Call) : (r.afterAll calls).WellKept := by
  induction calls generalizing r with
  | nil => exact hr
  | cons call calls ih => exact ih (wellKept_after hr call)

/-! ## An instance that is kept -/

/-- **A leaf stays kept until the leaves are forgotten.** -/
theorem kept?_after (hkept : r.kept? key = some s) (hforget : call ≠ .forget) :
    (r.after call).kept? key = some s := by
  by_cases hcreate : ∃ spec, call = .create spec
  · obtain ⟨spec, rfl⟩ := hcreate
    rcases kept?_create r spec key with ⟨hsame, -⟩ | ⟨-, -, -, -, hnone, -⟩
    · exact hsame.trans hkept
    · exact absurd (hnone.symm.trans hkept) (by simp)
  · rw [not_exists] at hcreate
    rwa [kept?, kept_after_of_registers hforget hcreate]

theorem kept?_afterAll (hkept : r.kept? key = some s) (hforget : Call.forget ∉ calls) :
    (r.afterAll calls).kept? key = some s := by
  induction calls generalizing r with
  | nil => exact hkept
  | cons call calls ih =>
    rw [List.mem_cons, not_or] at hforget
    exact ih (kept?_after hkept fun h => hforget.1 h.symm) hforget.2

/-- **A creation returns a kept leaf again exactly for its key, through a shared type.** -/
theorem id_eq_iff_of_kept (hr : r.WellKept) (hkept : r.kept? key = some s)
    (h : (r.create spec).1 = .ok node) :
    (node.id = s.id ↔ spec.key = key ∧ r.isShared spec.kind = true) ∧
      (node.id = s.id → node = ⟨s.id, .leaf s.leaf⟩) := by
  obtain ⟨hs, hkey⟩ := mem_of_kept? hkept
  have hlt := hr.lt_nextId s hs
  obtain ⟨result, r', hcreate⟩ : ∃ result r', r.create spec = (result, r') := ⟨_, _, rfl⟩
  rw [hcreate] at h
  -- a new layer has a new identity, and a shared type of the key makes none
  have hnew (hunkept : spec.key = key ∧ r.isShared spec.kind = true → r.kept? spec.key = none)
      (hid : node.id = r.nextId) :
      (node.id = s.id ↔ spec.key = key ∧ r.isShared spec.kind = true) ∧
        (node.id = s.id → node = ⟨s.id, .leaf s.leaf⟩) := by
    have hne : node.id ≠ s.id := by omega
    refine ⟨⟨fun h => absurd h hne, fun hshared => ?_⟩, fun h => absurd h hne⟩
    have hnone := hunkept hshared
    rw [hshared.1, hkept] at hnone
    exact absurd hnone (by simp)
  cases outcome_of_create hcreate with
  | unknown missing => exact absurd h (by simp)
  | failed found unkept made => exact absurd h (by simp)
  | @reused registration u found shared kept =>
    obtain rfl := Except.ok.inj h
    obtain ⟨hu, hukey⟩ := mem_of_kept? kept
    have hshared : r.isShared spec.kind = true := by simp [isShared, found, shared]
    refine ⟨⟨fun hid => ?_, fun hspec => ?_⟩, fun hid => ?_⟩
    · obtain rfl := hr.eq_of_id_eq hu hs hid
      exact ⟨hukey.symm.trans hkey, hshared⟩
    · rw [hspec.1, hkept] at kept
      rw [Option.some.inj kept]
    · rw [hr.eq_of_id_eq hu hs hid]
  | @fresh registration shape found unkept made =>
    obtain rfl := Except.ok.inj h
    refine hnew (fun hspec => (unkept ?_).1) rfl
    simpa [isShared, found] using hspec.2
  | stored found shared unkept made =>
    obtain rfl := Except.ok.inj h
    exact hnew (fun _ => unkept) rfl

/-! ## An instance that is spent -/

/-- An identity that has been given out and that no kept leaf has. -/
def Spent (r : Registry) (id : Nat) : Prop :=
  id < r.nextId ∧ ∀ s ∈ r.kept, s.id ≠ id

/-- **No creation returns what is spent.** -/
theorem id_ne_of_spent (hid : r.Spent id) (h : (r.create spec).1 = .ok node) : node.id ≠ id := by
  obtain ⟨hlt, hkept⟩ := hid
  obtain ⟨result, r', hcreate⟩ : ∃ result r', r.create spec = (result, r') := ⟨_, _, rfl⟩
  rw [hcreate] at h
  cases outcome_of_create hcreate with
  | unknown missing => exact absurd h (by simp)
  | failed found unkept made => exact absurd h (by simp)
  | reused found shared kept =>
    obtain rfl := Except.ok.inj h
    exact hkept _ (mem_of_kept? kept).1
  | fresh found unkept made =>
    obtain rfl := Except.ok.inj h
    exact (Nat.ne_of_lt hlt).symm
  | stored found shared unkept made =>
    obtain rfl := Except.ok.inj h
    exact (Nat.ne_of_lt hlt).symm

/-- No call takes an identity back. -/
theorem nextId_le_after (r : Registry) (call : Call) : r.nextId ≤ (r.after call).nextId := by
  cases call with
  | register token factory shared => exact Nat.le_refl _
  | addAlias existing token =>
    rw [after, addAlias]
    cases r.find existing <;> exact Nat.le_refl _
  | create spec =>
    obtain ⟨result, r', hcreate⟩ : ∃ result r', r.create spec = (result, r') := ⟨_, _, rfl⟩
    rw [after, hcreate]
    cases outcome_of_create hcreate <;> first | exact Nat.le_refl _ | exact Nat.le_succ _
  | forget => exact Nat.le_refl _

/-- **What is spent stays so.** -/
theorem spent_after (hid : r.Spent id) (call : Call) : (r.after call).Spent id := by
  obtain ⟨hlt, hkept⟩ := hid
  refine ⟨Nat.lt_of_lt_of_le hlt (nextId_le_after r call), ?_⟩
  by_cases hforget : call = .forget
  · subst hforget
    exact fun s hs => absurd hs List.not_mem_nil
  by_cases hcreate : ∃ spec, call = .create spec
  · obtain ⟨spec, rfl⟩ := hcreate
    obtain ⟨result, r', hcreate⟩ : ∃ result r', r.create spec = (result, r') := ⟨_, _, rfl⟩
    rw [after, hcreate]
    cases outcome_of_create hcreate with
    | stored found shared unkept made =>
      exact List.forall_mem_cons.mpr ⟨(Nat.ne_of_lt hlt).symm, hkept⟩
    | _ => exact hkept
  · rw [not_exists] at hcreate
    rwa [kept_after_of_registers hforget hcreate]

theorem spent_afterAll (hid : r.Spent id) (calls : List Call) : (r.afterAll calls).Spent id := by
  induction calls generalizing r with
  | nil => exact hid
  | cons call calls ih => exact ih (spent_after hid call)

/-- What has been made is spent once the leaves are forgotten. -/
theorem spent_of_forget (hlt : id < r.nextId) (hforget : Call.forget ∈ calls) :
    (r.afterAll calls).Spent id := by
  induction calls generalizing r with
  | nil => exact absurd hforget List.not_mem_nil
  | cons call calls ih =>
    rcases List.mem_cons.mp hforget with rfl | hforget
    · have hspent : r.forget.Spent id := ⟨hlt, fun s hs => absurd hs List.not_mem_nil⟩
      exact spent_afterAll hspent calls
    · exact ih (Nat.lt_of_lt_of_le hlt (nextId_le_after r call)) hforget

/-! ## Two creations -/

/-- **What becomes of a created instance.**  A leaf of a shared type is kept for its key;
anything else is spent. -/
theorem kept_or_spent_of_create (hr : r.WellKept) (h : (r.create spec).1 = .ok node) :
    (r.isShared spec.kind = true ∧ ∃ leaf, node.shape = .leaf leaf ∧
        (r.create spec).2.kept? spec.key = some ⟨spec.key, node.id, leaf⟩) ∨
      ((r.isShared spec.kind = false ∨ node.shape.isGroup = true) ∧
        (r.create spec).2.Spent node.id) := by
  obtain ⟨result, r', hcreate⟩ : ∃ result r', r.create spec = (result, r') := ⟨_, _, rfl⟩
  rw [hcreate] at h ⊢
  cases outcome_of_create hcreate with
  | unknown missing => exact absurd h (by simp)
  | failed found unkept made => exact absurd h (by simp)
  | @reused registration s found shared kept =>
    obtain rfl := Except.ok.inj h
    refine .inl ⟨by simp [isShared, found, shared], s.leaf, rfl, ?_⟩
    rw [kept, ← (mem_of_kept? kept).2]
  | @fresh registration shape found unkept made =>
    obtain rfl := Except.ok.inj h
    refine .inr ⟨?_, Nat.lt_succ_self _, fun s hs => Nat.ne_of_lt (hr.lt_nextId s hs)⟩
    cases hshared : registration.shared with
    | false => exact .inl (by simp [isShared, found, hshared])
    | true => exact .inr (unkept hshared).2
  | @stored registration leaf found shared unkept made =>
    obtain rfl := Except.ok.inj h
    refine .inl ⟨by simp [isShared, found, shared], leaf, rfl, ?_⟩
    rw [kept?, List.find?_cons_of_pos (by simp)]

/-- **When two creations return the same instance.**  Let a registry start without kept
leaves, and let two creations succeed in the course of any calls.  They return the same
instance if and only if both return leaves, the two specifications have the same type and
the same arguments, the type is shared at both calls, and the leaves are not forgotten
between them. -/
theorem same_instance_iff {before between : List Call} {spec spec' : LayerSpec}
    {node node' : Node} (hkept : r.kept = [])
    (hfirst : ((r.afterAll before).create spec).1 = .ok node)
    (hsecond : ((r.afterAll (before ++ .create spec :: between)).create spec').1 = .ok node') :
    (node.id = node'.id ↔
      node.shape.isGroup = false ∧ node'.shape.isGroup = false ∧ spec.key = spec'.key ∧
        (r.afterAll before).isShared spec.kind = true ∧
        (r.afterAll (before ++ .create spec :: between)).isShared spec'.kind = true ∧
        Call.forget ∉ between) ∧
    (node.id = node'.id → node = node') := by
  have hbefore := wellKept_afterAll (wellKept_of_kept_eq_nil hkept) before
  have hcreated := wellKept_create hbefore spec
  have hsplit : r.afterAll (before ++ .create spec :: between) =
      ((r.afterAll before).create spec).2.afterAll between := by
    rw [afterAll, List.foldl_append]
    rfl
  rw [hsplit] at hsecond ⊢
  rcases kept_or_spent_of_create hbefore hfirst with
    ⟨hshared, leaf, hleaf, hslot⟩ | ⟨hunshared, hspent⟩
  · by_cases hforget : Call.forget ∈ between
    · have hlt := hcreated.lt_nextId _ (mem_of_kept? hslot).1
      have hne := id_ne_of_spent (spent_of_forget hlt hforget) hsecond
      exact ⟨⟨fun h => absurd h.symm hne, fun h => absurd hforget h.2.2.2.2.2⟩,
        fun h => absurd h.symm hne⟩
    · obtain ⟨hiff, heq⟩ := id_eq_iff_of_kept (wellKept_afterAll hcreated between)
        (kept?_afterAll hslot hforget) hsecond
      have hnode : node = ⟨node.id, .leaf leaf⟩ := by rw [← hleaf]
      refine ⟨⟨fun hid => ?_, fun h => ?_⟩, fun hid => hnode.trans (heq hid.symm).symm⟩
      · obtain ⟨hkey, hshared'⟩ := hiff.mp hid.symm
        refine ⟨by rw [hleaf]; rfl, ?_, hkey.symm, hshared, hshared', hforget⟩
        rw [heq hid.symm]
        rfl
      · exact (hiff.mpr ⟨h.2.2.1.symm, h.2.2.2.2.1⟩).symm
  · have hne := id_ne_of_spent (spent_afterAll hspent between) hsecond
    refine ⟨⟨fun h => absurd h.symm hne, fun h => ?_⟩, fun h => absurd h.symm hne⟩
    rcases hunshared with hplain | hgroup
    · exact absurd (hplain.symm.trans h.2.2.2.1) (by simp)
    · exact absurd (hgroup.symm.trans h.1) (by simp)

/-- The token of the badge is registered for fills, as shared, a badge is created, and the
token is registered for fills that are not shared, and then for shared keylines.  A badge
that is indented is the same instance. -/
theorem same_instance_of_badge :
    let before : List Call := [.register badge.kind Factory.fill true]
    let between : List Call :=
      [.register badge.kind Factory.fill false, .register badge.kind Factory.keyline true]
    let indented : LayerSpec := { badge with indent := 4 }
    ∃ node node', ((builtIn.afterAll before).create badge).1 = .ok node ∧
      ((builtIn.afterAll (before ++ .create badge :: between)).create indented).1 = .ok node' ∧
      node = node' := by
  intro before between indented
  obtain ⟨hiff, heq⟩ := @same_instance_iff builtIn before between badge indented _ _ rfl rfl rfl
  exact ⟨_, _, rfl, rfl, heq (hiff.mpr ⟨rfl, rfl, rfl, rfl, rfl, by simp [between]⟩)⟩

end Registry
end SpecOverlay
