/-!
# Tables with text keys

A table holds at most one value for each key and lists its entries by ascending
key.  Texts are ordered by code points, which is also the order of their UTF-8
bytes.

The order is part of the type, so a table is determined by the values of its keys:
`Table.ext_get?` says that two tables with the same look-ups are equal, however
they were filled.  `Table.get?_insert` is the one law that describes filling.
-/

namespace SpecOverlay

/-! ## Entries in order -/

/-- The first components ascend. -/
def Ascending {β : Type} (entries : List (String × β)) : Prop :=
  entries.Pairwise fun a b => a.1 < b.1

/-- Entries with a key's value set. -/
def insertEntry {β : Type} (key : String) (value : β) : List (String × β) → List (String × β)
  | [] => [(key, value)]
  | e :: es =>
    if key < e.1 then (key, value) :: e :: es
    else if e.1 < key then e :: insertEntry key value es
    else (key, value) :: es

theorem fst_mem_of_mem_insertEntry {β : Type} {key : String} {value : β}
    {entries : List (String × β)} {e : String × β} (h : e ∈ insertEntry key value entries) :
    e = (key, value) ∨ e ∈ entries := by
  induction entries with
  | nil => simpa [insertEntry] using h
  | cons d ds ih =>
    rw [insertEntry] at h
    split at h
    · simpa using h
    · split at h
      · rcases List.mem_cons.1 h with rfl | h
        · simp
        · rcases ih h with h | h
          · exact .inl h
          · exact .inr (List.mem_cons_of_mem _ h)
      · rcases List.mem_cons.1 h with rfl | h
        · simp
        · exact .inr (List.mem_cons_of_mem _ h)

theorem ascending_insertEntry {β : Type} (key : String) (value : β)
    {entries : List (String × β)} (h : Ascending entries) :
    Ascending (insertEntry key value entries) := by
  induction entries with
  | nil => simp [insertEntry, Ascending]
  | cons d ds ih =>
    have hd := List.pairwise_cons.1 h
    rw [insertEntry]
    split
    · rename_i hlt
      refine List.pairwise_cons.2 ⟨fun e he => ?_, h⟩
      rcases List.mem_cons.1 he with rfl | he
      · exact hlt
      · exact String.lt_trans hlt (hd.1 e he)
    · split
      · rename_i hlt
        refine List.pairwise_cons.2 ⟨fun e he => ?_, ih hd.2⟩
        rcases fst_mem_of_mem_insertEntry he with rfl | he
        · exact hlt
        · exact hd.1 e he
      · rename_i hge hle
        have heq : key = d.1 := String.le_antisymm hle hge
        refine List.pairwise_cons.2 ⟨fun e he => ?_, hd.2⟩
        rw [heq]
        exact hd.1 e he

/-! ## Tables -/

/-- A finite map from texts to values. -/
structure Table (β : Type) where
  entries : List (String × β)
  ascending : Ascending entries

namespace Table

variable {β : Type}

/-- The table without entries. -/
def empty : Table β :=
  ⟨[], List.Pairwise.nil⟩

instance : EmptyCollection (Table β) := ⟨empty⟩

/-- The table with a key's value set; an earlier value of the key is lost. -/
def insert (t : Table β) (key : String) (value : β) : Table β :=
  ⟨insertEntry key value t.entries, ascending_insertEntry key value t.ascending⟩

/-- The value of a key. -/
def get? (t : Table β) (key : String) : Option β :=
  (t.entries.find? fun e => e.1 = key).map Prod.snd

/-- Whether a key has a value. -/
def contains (t : Table β) (key : String) : Bool :=
  (t.get? key).isSome

/-- The number of keys. -/
def size (t : Table β) : Nat :=
  t.entries.length

/-- The keys, ascending. -/
def keys (t : Table β) : List String :=
  t.entries.map Prod.fst

/-- The table of a list of entries, a later entry of a key replacing an earlier
one. -/
def ofList (entries : List (String × β)) : Table β :=
  entries.foldl (fun t e => t.insert e.1 e.2) empty

instance [DecidableEq β] : DecidableEq (Table β) := fun a b =>
  decidable_of_iff (a.entries = b.entries) <| by
    cases a
    cases b
    simp

instance [Hashable β] : Hashable (Table β) where
  hash t := hash t.entries

/-! ## Look-ups determine a table -/

@[simp] theorem get?_empty (key : String) : (empty : Table β).get? key = none := rfl

/-- **Setting a key changes the look-up of that key and of no other.** -/
theorem get?_insert (t : Table β) (key : String) (value : β) (k : String) :
    (t.insert key value).get? k = if key = k then some value else t.get? k := by
  have hfind : ∀ entries : List (String × β),
      (insertEntry key value entries).find? (fun e => e.1 = k) =
        if key = k then some (key, value) else entries.find? fun e => e.1 = k := by
    intro entries
    induction entries with
    | nil =>
      by_cases hk : key = k <;> simp [insertEntry, hk]
    | cons d ds ih =>
      rw [insertEntry]
      split
      · by_cases hk : key = k <;> simp [List.find?_cons, hk]
      · split
        · rename_i hlt
          by_cases hk : key = k
          · have hd : d.1 ≠ k := by
              rintro rfl
              subst hk
              exact String.lt_irrefl _ hlt
            rw [List.find?_cons_of_neg (by simpa using hd), ih, if_pos hk, if_pos hk]
          · simp [List.find?_cons, ih, hk]
        · rename_i hge hle
          have heq : key = d.1 := String.le_antisymm hle hge
          by_cases hk : key = k
          · simp [hk]
          · have hd : d.1 ≠ k := by rwa [← heq]
            simp [hd, hk]
  rw [get?, insert, hfind]
  by_cases hk : key = k <;> simp [hk, get?]

theorem pairwise_keys (t : Table β) : t.keys.Pairwise (· < ·) :=
  List.pairwise_map.mpr t.ascending

theorem mem_keys_iff {t : Table β} {key : String} : key ∈ t.keys ↔ t.contains key = true := by
  simp [keys, contains, get?]

theorem get?_eq_none_iff {t : Table β} {key : String} : t.get? key = none ↔ t.contains key = false := by
  rw [contains, Option.isSome_eq_false_iff, Option.isNone_iff_eq_none]

/-- The entries are what the look-ups give. -/
theorem mem_entries_iff {t : Table β} {key : String} {value : β} :
    (key, value) ∈ t.entries ↔ t.get? key = some value := by
  obtain ⟨entries, ascending⟩ := t
  show _ ↔ (entries.find? fun e => e.1 = key).map Prod.snd = some value
  induction entries with
  | nil => simp
  | cons e es ih =>
    obtain ⟨hlt, hes⟩ := List.pairwise_cons.1 ascending
    by_cases hkey : e.1 = key
    · rw [List.find?_cons_of_pos (by simpa using hkey), List.mem_cons]
      constructor
      · rintro (rfl | hmem)
        · rfl
        · exact absurd (hlt _ hmem) (by rw [hkey]; exact String.lt_irrefl key)
      · intro hvalue
        exact .inl (Prod.ext hkey.symm (Option.some.inj hvalue).symm)
    · rw [List.find?_cons_of_neg (by simpa using hkey), ← ih hes, List.mem_cons]
      refine ⟨fun h => h.resolve_left ?_, .inr⟩
      rintro rfl
      exact hkey rfl

/-- A key that is smaller than all others is looked up in vain. -/
theorem find?_eq_none_of_lt {entries : List (String × β)} {k : String}
    (h : ∀ e ∈ entries, k < e.1) : entries.find? (fun e => e.1 = k) = none := by
  refine List.find?_eq_none.2 fun e he hek => ?_
  have hlt := h e he
  rw [of_decide_eq_true hek] at hlt
  exact String.lt_irrefl _ hlt

/-- **Tables with the same look-ups are equal.** -/
theorem ext_get? {a b : Table β} (h : ∀ k, a.get? k = b.get? k) : a = b := by
  have key : ∀ as bs : List (String × β), Ascending as → Ascending bs →
      (∀ k, (as.find? fun e => e.1 = k).map Prod.snd = (bs.find? fun e => e.1 = k).map Prod.snd) →
      as = bs := by
    intro as
    induction as with
    | nil =>
      intro bs _ _ hk
      cases bs with
      | nil => rfl
      | cons b bs => simpa using hk b.1
    | cons x xs ih =>
      intro bs hx hb hk
      have hx := List.pairwise_cons.1 hx
      cases bs with
      | nil => simpa using hk x.1
      | cons y ys =>
        have hy := List.pairwise_cons.1 hb
        have hxy : x.1 = y.1 := by
          refine String.le_antisymm (fun hlt => ?_) fun hlt => ?_
          · have hnone : (x :: xs).find? (fun e => decide (e.1 = y.1)) = none :=
              find?_eq_none_of_lt fun e he => by
                rcases List.mem_cons.1 he with rfl | he
                · exact hlt
                · exact String.lt_trans hlt (hx.1 e he)
            have := hk y.1
            rw [hnone] at this
            simp at this
          · have hnone : (y :: ys).find? (fun e => decide (e.1 = x.1)) = none :=
              find?_eq_none_of_lt fun e he => by
                rcases List.mem_cons.1 he with rfl | he
                · exact hlt
                · exact String.lt_trans hlt (hy.1 e he)
            have := hk x.1
            rw [hnone] at this
            simp at this
        have hvalue : x.2 = y.2 := by
          have := hk x.1
          rw [List.find?_cons_of_pos (by simp), List.find?_cons_of_pos (by simp [hxy])] at this
          simpa using this
        have hhead : x = y := Prod.ext hxy hvalue
        have htail : xs = ys := by
          refine ih ys hx.2 hy.2 fun k => ?_
          by_cases hkx : x.1 = k
          · subst hkx
            rw [find?_eq_none_of_lt hx.1]
            rw [hxy, find?_eq_none_of_lt hy.1]
          · have := hk k
            rwa [List.find?_cons_of_neg (by simpa using hkx),
              List.find?_cons_of_neg (by simpa [← hxy] using hkx)] at this
        rw [hhead, htail]
  obtain ⟨as, ha⟩ := a
  obtain ⟨bs, hb⟩ := b
  have := key as bs ha hb h
  subst this
  rfl

end Table
end SpecOverlay
