import Mathlib.Data.List.Induction
import SpecOverlay.LayerSpec
import SpecOverlay.Proofs.Text.Bytes

/-!
# Arguments as what was inserted last

Arguments are filled by insertions, each of a key with what it carries.  Of the insertions
of one key only the last counts (`lastOf`), and nothing else about them does: neither their
order nor the scale.  `insertions_extensional` says so for everything that can be asked of
arguments: their equality and hash, the list of their entries, and what an insertion finds.

All of it comes from two facts.  An insertion changes the look-up of its own key and of no
other, so after a run of insertions each look-up gives the last one of its key
(`get?_insertAll`, by induction on the run, the last insertion taken off).  And look-ups
determine the table behind the arguments, because the order of its entries is part of its
type; the listed order of the keys is that of their bytes by `Text.bytes_lt_iff`.
-/

namespace SpecOverlay

namespace Arguments

/-! ## Equality and hashing -/

/-- Arguments are the same if they list the same entries. -/
theorem beq_iff_toList_eq {a b : Arguments} : a == b ↔ a.toList = b.toList := by
  refine beq_iff.trans ⟨fun h => ?_, fun h key => ?_⟩
  · exact congrArg Table.entries (Table.ext_get? h)
  · show (a.toList.find? _).map _ = (b.toList.find? _).map _
    rw [h]

instance : LawfulHashable Arguments where
  hash_eq a b h := by
    show hash a.toList = hash b.toList
    rw [beq_iff_toList_eq.mp h]

end Arguments

namespace LayerSpec

/-- Specifications are the same if their types are and their arguments are. -/
theorem beq_iff {s t : LayerSpec} : s == t ↔ s.kind = t.kind ∧ s.arguments == t.arguments := by
  show decide (s.key = t.key) = true ↔ _ ∧ decide (s.arguments.values = t.arguments.values) = true
  rw [decide_eq_true_iff, decide_eq_true_iff, key, key, LayerKey.mk.injEq]

instance : LawfulHashable LayerSpec where
  hash_eq s t h := by
    have hkey : s.key = t.key := of_decide_eq_true h
    show hash s.key = hash t.key
    rw [hkey]

end LayerSpec

namespace Arguments

/-! ## Insertions -/

/-- The arguments once entries are inserted, first to last. -/
def insertAll (args : Arguments) (entries : List (String × Argument)) : Arguments :=
  entries.foldl (fun args e => (args.insert e.1 e.2).2) args

/-- What the last of the entries with a key carries. -/
def lastOf (entries : List (String × Argument)) (key : String) : Option Argument :=
  (entries.reverse.find? fun e => e.1 = key).map Prod.snd

theorem insertAll_concat (args : Arguments) (entries : List (String × Argument))
    (e : String × Argument) :
    args.insertAll (entries ++ [e]) = ((args.insertAll entries).insert e.1 e.2).2 :=
  List.foldl_concat ..

theorem lastOf_concat (entries : List (String × Argument)) (e : String × Argument)
    (key : String) :
    lastOf (entries ++ [e]) key = if e.1 = key then some e.2 else lastOf entries key := by
  rw [lastOf, List.reverse_concat, List.find?_cons]
  by_cases hkey : e.1 = key
  · simp [hkey]
  · simp [hkey, lastOf]

/-- An insertion changes what its own key carries, and what no other key carries. -/
theorem get?_insert (args : Arguments) (key : String) (a : Argument) (k : String) :
    (args.insert key a).2.get? k = if key = k then some a else args.get? k :=
  get?_set args key a k

/-- **A key carries what was inserted last for it.** -/
theorem get?_insertAll (scale : Scale) (entries : List (String × Argument)) (key : String) :
    ((empty scale).insertAll entries).get? key = lastOf entries key := by
  induction entries using List.reverseRecOn with
  | nil => rfl
  | append_singleton entries e ih => rw [insertAll_concat, get?_insert, lastOf_concat, ih]

/-- An insertion leaves the arguments the same exactly if the key has carried that before. -/
theorem insert_beq_iff (args : Arguments) (key : String) (a : Argument) :
    (args.insert key a).2 == args ↔ args.get? key = some a := by
  refine beq_iff.trans ⟨fun h => ?_, fun h k => ?_⟩
  · rw [← h key, get?_insert, if_pos rfl]
  · rw [get?_insert]
    split
    · rename_i hk
      rw [← hk, h]
    · rfl

/-- **Arguments are what was inserted last for each key.**

* After any two runs of insertions, under any scales, the arguments are the same exactly if
  for every key the last insertions agree.
* A key that is absent, a flag and a value are three states: to insert what a key carries
  changes the arguments unless the key has carried just that.
* Arguments that are the same list the same entries and hash equally, and so do
  specifications of one type with the same arguments.
* The listed keys ascend by their bytes, so none is listed twice, and what is listed for
  them is what was inserted last.
* An insertion tells what the last insertion of its key has left. -/
theorem insertions_extensional :
    (∀ (scale scale' : Scale) (entries entries' : List (String × Argument)),
      (empty scale).insertAll entries == (empty scale').insertAll entries' ↔
        ∀ key, lastOf entries key = lastOf entries' key) ∧
    (∀ (args : Arguments) (key : String) (a : Argument),
      (args.insert key a).2 == args ↔ args.get? key = some a) ∧
    (∀ a b : Arguments, (a == b ↔ a.toList = b.toList) ∧ (a == b → hash a = hash b)) ∧
    (∀ s t : LayerSpec, (s == t ↔ s.kind = t.kind ∧ s.arguments == t.arguments) ∧
      (s == t → hash s = hash t)) ∧
    ∀ (scale : Scale) (entries : List (String × Argument)),
      let args := (empty scale).insertAll entries
      ofList scale entries = args ∧
      args.toList.Pairwise (fun d e => Text.bytes d.1 < Text.bytes e.1) ∧
      (∀ key a, (key, a) ∈ args.toList ↔ lastOf entries key = some a) ∧
      ∀ key a, (args.insert key a).1 = lastOf entries key ∧
        args.has key = (lastOf entries key).isSome := by
  refine ⟨fun scale scale' entries entries' => ?_, insert_beq_iff,
    fun a b => ⟨beq_iff_toList_eq, LawfulHashable.hash_eq a b⟩,
    fun s t => ⟨LayerSpec.beq_iff, LawfulHashable.hash_eq s t⟩, fun scale entries => ?_⟩
  · simp only [beq_iff, get?_insertAll]
  · refine ⟨rfl, ?_, fun key a => ?_, fun key a => ?_⟩
    · exact ((empty scale).insertAll entries).values.ascending.imp Text.bytes_lt_iff.mpr
    · rw [← get?_insertAll scale]
      exact Table.mem_entries_iff
    · rw [← get?_insertAll scale]
      exact ⟨rfl, rfl⟩

/-- A key that is given twice and a flag, and the same in another order, for another scale and
on a line with another indent. -/
theorem insertions_extensional_of_reordered :
    let a := (empty .standard).insertAll
      [("from", .value "top"), ("outside", .flag), ("from", .value "left")]
    let b := (empty (.ofDensity 2)).insertAll [("from", .value "left"), ("outside", .flag)]
    a == b ∧ hash a = hash b ∧
      hash (⟨"keyline", 0, a⟩ : LayerSpec) = hash (⟨"keyline", 4, b⟩ : LayerSpec) := by
  intro a b
  obtain ⟨hsame, -, hargs, hspecs, -⟩ := insertions_extensional
  have hab : a == b := (hsame _ _ _ _).mpr fun key => by
    by_cases hfrom : "from" = key
    · subst hfrom
      rfl
    · by_cases houtside : "outside" = key
      · subst houtside
        rfl
      · simp [lastOf, hfrom, houtside]
  exact ⟨hab, (hargs a b).2 hab, (hspecs _ _).2 ((hspecs _ _).1.mpr ⟨rfl, hab⟩)⟩

end Arguments
end SpecOverlay
