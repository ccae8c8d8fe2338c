import SpecOverlay.Layer
import SpecOverlay.LayerSpec
import SpecOverlay.Text.EditDistance
import SpecOverlay.Text.Quoted

/-!
# The registry of layer types

A registry knows the layer types by their tokens.  Behind each token stands a
*factory*, which makes a shape from a specification or fails.  A failure is an
error of this library or a message of the factory's own.  A factory is any function of the
whole specification, its indent included; but what it makes is one of the shapes of the
built-in types, and a group comes without children.

A type may be registered as *shared*.  Then a leaf made for one specification is
kept and handed out again for every equal specification, with the same identity.
Groups are never shared, because their children differ.

`create` is the only operation that makes layers.  It returns the registry as it
is afterwards, and a failure leaves the registry as it was
(`Registry.create_snd_of_error`).
-/

namespace SpecOverlay

/-! ## Factories -/

/-- Why a factory made nothing. -/
inductive Failure where
  | error (e : Error)
  | foreign (message : String)
  deriving DecidableEq

/-- What makes a shape from a specification. -/
abbrev Factory := LayerSpec → Except Failure Shape

/-- A factory and whether its leaves are shared. -/
structure Registration where
  factory : Factory
  shared : Bool

/-- A leaf that was made for a key, with its identity. -/
structure SharedLeaf where
  key : LayerKey
  id : Nat
  leaf : Leaf

/-- The layer types, the leaves kept for sharing, and the identity that the next
layer gets. -/
structure Registry where
  registrations : Table Registration
  kept : List SharedLeaf
  nextId : Nat

/-- Why no layer was created. -/
inductive CreateError where
  | lookup (e : Error)
  | factory (f : Failure)
  deriving DecidableEq

namespace Registry

/-- No layer types. -/
def empty : Registry :=
  ⟨.empty, [], 0⟩

/-- The registered tokens, ascending. -/
def tokens (r : Registry) : List String :=
  r.registrations.keys

/-- Whether a token is registered. -/
def contains (r : Registry) (token : String) : Bool :=
  r.registrations.contains token

/-- Whether a token is registered as shared. -/
def isShared (r : Registry) (token : String) : Bool :=
  (r.registrations.get? token).any Registration.shared

/-! ## Unknown tokens -/

/-- The registered tokens near an unknown one.  A token is near if its distance is
at most half the bytes of the unknown one; the three nearest are offered, equally
near ones in ascending order. -/
def suggestions (r : Registry) (token : String) : List String :=
  let scored := r.tokens.map fun known => (Text.editDistance token.toList known.toList, known)
  let near := scored.filter fun s => s.1 ≤ token.utf8ByteSize * 50 / 100
  ((near.mergeSort fun a b => a.1 ≤ b.1).take 3).map Prod.snd

/-- The error for a token that is not registered. -/
def unknown (r : Registry) (token : String) : Error :=
  ⟨.unknownLayer token r.tokens (r.suggestions token), none⟩

/-- The registration of a token. -/
def find (r : Registry) (token : String) : Except Error Registration :=
  match r.registrations.get? token with
  | some registration => .ok registration
  | none => .error (r.unknown token)

/-! ## Registration -/

/-- Registers a factory under a token, in place of an earlier one. -/
def register (r : Registry) (token : String) (factory : Factory) (shared : Bool) : Registry :=
  { r with registrations := r.registrations.insert token ⟨factory, shared⟩ }

/-- Registers the factory of one token under another token too. -/
def addAlias (r : Registry) (existing token : String) : Except Error Registry :=
  (r.find existing).map fun registration =>
    { r with registrations := r.registrations.insert token registration }

/-! ## Creation -/

/-- The leaf kept for a key. -/
def kept? (r : Registry) (key : LayerKey) : Option SharedLeaf :=
  r.kept.find? fun s => s.key = key

/-- Forgets the leaves kept for sharing. -/
def forget (r : Registry) : Registry :=
  { r with kept := [] }

/-- Lets a factory make a new layer. -/
def make (r : Registry) (factory : Factory) (spec : LayerSpec) :
    Except CreateError Node × Registry :=
  match factory spec with
  | .ok shape => (.ok ⟨r.nextId, shape⟩, { r with nextId := r.nextId + 1 })
  | .error f => (.error (.factory f), r)

/-- Keeps a node for sharing, if it is a leaf. -/
def keep (r : Registry) (key : LayerKey) (node : Node) : Registry :=
  match node.shape with
  | .leaf leaf => { r with kept := ⟨key, node.id, leaf⟩ :: r.kept }
  | .group _ => r

/-- The layer of a specification: a kept one if its type is shared and an equal
one was made before, else a new one. -/
def create (r : Registry) (spec : LayerSpec) : Except CreateError Node × Registry :=
  match r.find spec.kind with
  | .error e => (.error (.lookup e), r)
  | .ok ⟨factory, false⟩ => r.make factory spec
  | .ok ⟨factory, true⟩ =>
    match r.kept? spec.key with
    | some s => (.ok ⟨s.id, .leaf s.leaf⟩, r)
    | none =>
      match r.make factory spec with
      | (.ok node, r) => (.ok node, r.keep spec.key node)
      | (.error e, r) => (.error e, r)

theorem make_snd_of_error {r : Registry} {factory : Factory} {spec : LayerSpec} {e : CreateError}
    (h : (r.make factory spec).1 = .error e) : (r.make factory spec).2 = r := by
  rw [make] at h ⊢
  cases hf : factory spec with
  | ok shape => simp [hf] at h
  | error f => rfl

/-- A failure leaves the registry as it was. -/
theorem create_snd_of_error {r : Registry} {spec : LayerSpec} {e : CreateError}
    (h : (r.create spec).1 = .error e) : (r.create spec).2 = r := by
  rw [create] at h ⊢
  split at h
  · rfl
  · exact make_snd_of_error h
  · rename_i factory hf
    split at h
    · rfl
    · cases hm : r.make factory spec with
      | mk result r' =>
        cases result with
        | ok node => simp [hm] at h
        | error f =>
          have hr := @make_snd_of_error r factory spec f
          rw [hm] at hr
          exact hr rfl

/-! ## Description -/

/-- The registered tokens and the number of kept leaves, as a debugging aid. -/
def describe (r : Registry) : String :=
  "FactoryRegistry \x7b known_types: [" ++ ", ".intercalate (r.tokens.map Text.quoted) ++
    "], cached_layers: " ++ toString r.kept.length ++ " \x7d"

end Registry
end SpecOverlay
