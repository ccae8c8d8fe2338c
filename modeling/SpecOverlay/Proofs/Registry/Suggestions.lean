import SpecOverlay.Proofs.Registry.Operations
import SpecOverlay.Proofs.Text.EditDistance

/-!
# The suggestions for an unknown token

The error for a token that is not registered suggests registered tokens.  A registered token is
*near* if at most half as many edits as the token has bytes turn one into the other (`IsNear`), and
near tokens are ranked by their distance and then by the order of texts (`Nearer`).  The
suggestions are the three that rank first (`ranks_suggestions`).

The sort behind this looks at the distances only.  That equally near tokens ascend is left to it,
because it keeps the order of the table between them: `pairwise_mergeSort_of_stable` is the
statement of this for every order.
-/

namespace SpecOverlay
namespace Registry

open Text (editDistance Edits isLeast_editDistance)

/-! ## Stable sorting -/

/-- **Sorting keeps what holds between equal entries** of the list in their order. -/
theorem pairwise_mergeSort_of_stable {α : Type} (le : α → α → Bool) {R : α → α → Prop}
    (htrans : ∀ a b c, le a b → le b c → le a c) (htotal : ∀ a b, le a b || le b a)
    {l : List α} (h : l.Pairwise R) :
    (l.mergeSort le).Pairwise fun a b => le a b = true ∧ (le b a = true → R a b) := by
  induction l with
  | nil => simp
  | cons a l ih =>
    obtain ⟨before, after, hsort, hrest, hbefore⟩ := List.mergeSort_cons htrans htotal a l
    obtain ⟨hhead, htail⟩ := List.pairwise_cons.mp h
    have ih := ih htail
    have hsorted := List.pairwise_mergeSort htrans htotal (a :: l)
    rw [hrest, List.pairwise_append] at ih
    rw [hsort, List.pairwise_append] at hsorted ⊢
    obtain ⟨ihbefore, ihafter, ihboth⟩ := ih
    obtain ⟨-, hafter, hboth⟩ := hsorted
    refine ⟨ihbefore, List.pairwise_cons.mpr ⟨fun b hb => ?_, ihafter⟩, fun b hb c hc => ?_⟩
    · have hmem : b ∈ l.mergeSort le := hrest ▸ List.mem_append_right before hb
      have hmem := List.mem_mergeSort.mp hmem
      exact ⟨List.rel_of_pairwise_cons hafter hb, fun _ => hhead b hmem⟩
    · rcases List.mem_cons.mp hc with rfl | hc
      · -- what is sorted before the head is less than the head
        refine ⟨hboth b hb c List.mem_cons_self, fun hle => ?_⟩
        have hlt := hbefore b hb
        rw [hle] at hlt
        exact Bool.noConfusion hlt
      · exact ihboth b hb c hc

/-! ## Nearness -/

variable {r : Registry} {token : String} {spec : LayerSpec}

/-- The edits between the unknown token and another one. -/
def distanceTo (token known : String) : ℕ :=
  editDistance token.toList known.toList

/-- A token is near if its distance is at most half the bytes of the unknown one. -/
def IsNear (token known : String) : Prop :=
  distanceTo token known ≤ token.utf8ByteSize / 2

/-- One token ranks before another: it is nearer, or equally near and first in the order of
texts. -/
def Nearer (token a b : String) : Prop :=
  distanceTo token a < distanceTo token b ∨ distanceTo token a = distanceTo token b ∧ a < b

/-- A list holds the first three registered tokens in the ranking of the near ones, or all of them
if they are fewer. -/
def RanksFirst (r : Registry) (token : String) (l : List String) : Prop :=
  ∃ ranked : List String, (∀ known, known ∈ ranked ↔ r.contains known = true ∧ IsNear token known) ∧
    ranked.Pairwise (Nearer token) ∧ l = ranked.take 3

/-- The registered tokens that are near, each behind its distance, in the order of the table. -/
def nearTokens (r : Registry) (token : String) : List (ℕ × String) :=
  (r.tokens.map fun known => (distanceTo token known, known)).filter fun s =>
    s.1 ≤ token.utf8ByteSize * 50 / 100

theorem mem_nearTokens_iff {s : ℕ × String} :
    s ∈ nearTokens r token ↔
      s.1 = distanceTo token s.2 ∧ r.contains s.2 = true ∧ IsNear token s.2 := by
  obtain ⟨distance, known⟩ := s
  have htokens : r.tokens = r.registrations.keys := rfl
  have hhalf : token.utf8ByteSize * 50 / 100 = token.utf8ByteSize / 2 := by omega
  simp only [nearTokens, List.mem_filter, List.mem_map, Prod.mk.injEq, decide_eq_true_eq, hhalf,
    IsNear, contains, ← Table.mem_keys_iff, htokens]
  constructor
  · rintro ⟨⟨known, hmem, rfl, rfl⟩, hnear⟩
    exact ⟨rfl, hmem, hnear⟩
  · rintro ⟨rfl, hmem, hnear⟩
    exact ⟨⟨known, hmem, rfl, rfl⟩, hnear⟩

/-- In the table tokens ascend. -/
theorem pairwise_nearTokens (r : Registry) (token : String) :
    (nearTokens r token).Pairwise fun a b => a.2 < b.2 := by
  have htokens : r.tokens.Pairwise (· < ·) := Table.pairwise_keys r.registrations
  refine List.Pairwise.filter _ (List.pairwise_map.mpr ?_)
  exact htokens

theorem pairwise_ranked (r : Registry) (token : String) :
    ((nearTokens r token).mergeSort fun a b => a.1 ≤ b.1).Pairwise fun a b =>
      Nearer token a.2 b.2 := by
  have hsorted := pairwise_mergeSort_of_stable (fun a b : ℕ × String => a.1 ≤ b.1)
    (fun a b c hab hbc => by simp only [decide_eq_true_eq] at *; omega)
    (fun a b => by simp only [Bool.or_eq_true, decide_eq_true_eq]; omega)
    (pairwise_nearTokens r token)
  refine hsorted.imp_of_mem fun {a b} ha hb hab => ?_
  obtain ⟨hscore, -⟩ := mem_nearTokens_iff.mp (List.mem_mergeSort.mp ha)
  obtain ⟨hscore', -⟩ := mem_nearTokens_iff.mp (List.mem_mergeSort.mp hb)
  simp only [decide_eq_true_eq] at hab
  rw [Nearer, ← hscore, ← hscore']
  rcases hab.1.lt_or_eq with hlt | heq
  · exact .inl hlt
  · exact .inr ⟨heq, hab.2 heq.ge⟩

/-- **The suggestions are the near tokens that rank first.** -/
theorem ranksFirst_suggestions (r : Registry) (token : String) :
    RanksFirst r token (r.suggestions token) := by
  refine ⟨((nearTokens r token).mergeSort fun a b => a.1 ≤ b.1).map Prod.snd, fun known => ?_,
    List.pairwise_map.mpr (pairwise_ranked r token), ?_⟩
  · simp only [List.mem_map, List.mem_mergeSort, mem_nearTokens_iff]
    constructor
    · rintro ⟨s, ⟨-, hmem⟩, rfl⟩
      exact hmem
    · intro hmem
      exact ⟨(distanceTo token known, known), ⟨rfl, hmem⟩, rfl⟩
  · rw [suggestions, ← List.map_take]
    rfl

/-! ## What ranks first -/

theorem Nearer.ne {a b : String} (h : Nearer token a b) : a ≠ b := by
  rintro rfl
  rcases h with h | ⟨-, h⟩
  · exact Nat.lt_irrefl _ h
  · exact String.lt_irrefl a h

theorem Nearer.distanceTo_le {a b : String} (h : Nearer token a b) :
    distanceTo token a ≤ distanceTo token b := by
  rcases h with h | ⟨h, -⟩
  · exact h.le
  · exact h.le

namespace RanksFirst

variable {l : List String}

theorem contains (h : RanksFirst r token l) : ∀ known ∈ l, r.contains known = true := by
  obtain ⟨ranked, hmem, -, rfl⟩ := h
  exact fun known hknown => ((hmem known).mp (List.mem_of_mem_take hknown)).1

theorem nodup (h : RanksFirst r token l) : l.Nodup := by
  obtain ⟨ranked, -, hranked, rfl⟩ := h
  exact (hranked.sublist (List.take_sublist 3 ranked)).imp Nearer.ne

/-- **Nothing that is left out is nearer** than what is listed. -/
theorem distanceTo_le (h : RanksFirst r token l) {known listed : String}
    (hcontains : r.contains known = true) (hnear : IsNear token known) (hout : known ∉ l)
    (hlisted : listed ∈ l) : distanceTo token listed ≤ distanceTo token known := by
  obtain ⟨ranked, hmem, hranked, rfl⟩ := h
  have hsplit := List.take_append_drop 3 ranked
  have hrest : known ∈ ranked.drop 3 := by
    have hknown := (hmem known).mpr ⟨hcontains, hnear⟩
    rw [← hsplit] at hknown
    exact (List.mem_append.mp hknown).resolve_left hout
  rw [← hsplit] at hranked
  exact Nearer.distanceTo_le ((List.pairwise_append.mp hranked).2.2 listed hlisted known hrest)

end RanksFirst

/-- **The error for an unknown token suggests the nearest registered tokens.**

* The distance of two tokens is the least number of characters inserted, deleted and replaced that
  turn one into the other.
* A look-up, a second name and a creation fail to find a token that is not registered with the same
  error.  It suggests the first three registered tokens of those whose distance is at most half the
  bytes of the unknown one, by distance and then by ascending token.
* So each of them is registered, none repeats, and no near token that is left out is nearer. -/
theorem suggests_nearest :
    (∀ token known : String, IsLeast {n | Edits n token.toList known.toList}
      (distanceTo token known)) ∧
    ∀ (r : Registry) (token : String), r.contains token = false → ∃ suggested,
      r.find token = .error ⟨.unknownLayer token r.tokens suggested, none⟩ ∧
      (∀ new, r.addAlias token new = .error ⟨.unknownLayer token r.tokens suggested, none⟩) ∧
      (∀ spec : LayerSpec, spec.kind = token →
        (r.create spec).1 = .error (.lookup ⟨.unknownLayer token r.tokens suggested, none⟩)) ∧
      RanksFirst r token suggested ∧
      (∀ known ∈ suggested, r.contains known = true) ∧ suggested.Nodup ∧
      ∀ known, r.contains known = true → IsNear token known → known ∉ suggested →
        ∀ listed ∈ suggested, distanceTo token listed ≤ distanceTo token known := by
  refine ⟨fun token known => isLeast_editDistance _ _, fun r token hunknown => ?_⟩
  have hranks := ranksFirst_suggestions r token
  refine ⟨r.suggestions token, find_eq_error_iff.mpr ⟨hunknown, rfl⟩,
    fun new => addAlias_eq_error_iff.mpr ⟨hunknown, rfl⟩, ?_, hranks, hranks.contains,
    hranks.nodup, fun known hknown hnear hout listed => hranks.distanceTo_le hknown hnear hout⟩
  rintro spec rfl
  exact create_eq_lookup_iff.mpr ⟨hunknown, rfl⟩

/-- Five tokens for one factory. -/
def columnTokens : Registry :=
  ["columns", "rows", "column", "col", "calls"].foldl
    (fun r token => r.register token (fun _ => .error (.foreign "")) false) empty

/-- Four of them are near the unknown one, and of the two that are equally near the later one is
left out. -/
theorem suggests_nearest_of_colmns :
    columnTokens.contains "colmns" = false ∧ (∃ suggested,
      columnTokens.find "colmns" = .error
        ⟨.unknownLayer "colmns" ["calls", "col", "column", "columns", "rows"] suggested, none⟩ ∧
      RanksFirst columnTokens "colmns" suggested) ∧
    columnTokens.suggestions "colmns" = ["columns", "column", "calls"] ∧
    distanceTo "colmns" "calls" = 3 ∧ distanceTo "colmns" "col" = 3 := by
  have hunknown : columnTokens.contains "colmns" = false := by decide +kernel
  obtain ⟨suggested, hfind, -, -, hranks, -⟩ := suggests_nearest.2 columnTokens "colmns" hunknown
  have htokens : columnTokens.tokens = ["calls", "col", "column", "columns", "rows"] := by
    decide +kernel
  rw [htokens] at hfind
  have hnear : nearTokens columnTokens "colmns" =
      [(3, "calls"), (3, "col"), (2, "column"), (1, "columns")] := by decide +kernel
  have hsuggestions : columnTokens.suggestions "colmns" = ["columns", "column", "calls"] := by
    change (((nearTokens columnTokens "colmns").mergeSort fun a b => a.1 ≤ b.1).take 3).map
      Prod.snd = _
    rw [hnear]
    simp [List.mergeSort, List.MergeSort.Internal.splitInTwo]
  exact ⟨hunknown, ⟨suggested, hfind, hranks⟩, hsuggestions, by decide +kernel,
    by decide +kernel⟩

end Registry
end SpecOverlay
