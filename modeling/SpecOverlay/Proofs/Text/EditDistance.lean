import Mathlib
import SpecOverlay.Text.EditDistance

/-!
# The edit distance is the least number of edits

An edit inserts, deletes or replaces one character of a text (`Edit`).  The distance of two texts
is computed from a table of their ends, and it is the least number of edits that turn one into the
other (`isLeast_editDistance`).

* `distances_cons`: the table holds the distances to all ends of the second text, so the distance
  obeys a recursion on the first characters (`editDistance_cons_cons`).
* `edits_editDistance`: that many edits are enough, by the same recursion.
* `Edits.editDistance_le`: fewer are not, because one edit changes every distance by at most one
  (`Edit.within`).

The recursion does not compare the three ways if the first characters are the same.  So it does not
say by itself that keeping a common character is never worse: this is what `editDistance_cons_le`
is for.
-/

namespace SpecOverlay
namespace Text

variable {s t u : List Char} {c d : Char} {n : ℕ}

/-! ## Edits -/

/-- One edit: a character is inserted, deleted or replaced, and what stands before and after it
stays. -/
inductive Edit : List Char → List Char → Prop where
  | insert (before after : List Char) (c : Char) : Edit (before ++ after) (before ++ c :: after)
  | delete (before after : List Char) (c : Char) : Edit (before ++ c :: after) (before ++ after)
  | replace (before after : List Char) (c d : Char) :
      Edit (before ++ c :: after) (before ++ d :: after)

/-- A number of edits turns one text into another. -/
inductive Edits : ℕ → List Char → List Char → Prop where
  | none (s : List Char) : Edits 0 s s
  | next {n : ℕ} {s t u : List Char} : Edit s t → Edits n t u → Edits (n + 1) s u

/-- An edit behind a common first character. -/
theorem Edit.cons (h : Edit s t) (c : Char) : Edit (c :: s) (c :: t) := by
  cases h with
  | insert before after d => exact .insert (c :: before) after d
  | delete before after d => exact .delete (c :: before) after d
  | replace before after d d' => exact .replace (c :: before) after d d'

theorem Edits.cons (h : Edits n s t) (c : Char) : Edits n (c :: s) (c :: t) := by
  induction h with
  | none s => exact .none (c :: s)
  | next hedit _ ih => exact .next (hedit.cons c) ih

/-! ## The recursion -/

theorem length_prependDistances (c : Char) (t : List Char) :
    ∀ ends : List ℕ, ends.length = t.length + 1 →
      (prependDistances c t ends).length = t.length + 1 := by
  induction t with
  | nil =>
    intro ends hends
    rw [prependDistances, List.length_map, hends]
    simp
  | cons d t ih =>
    rintro (_ | ⟨whole, ends⟩) hends
    · simp at hends
    · have hlength := ih ends (by simpa using hends)
      rw [prependDistances]
      cases hrest : prependDistances c t ends with
      | nil => simp [hrest] at hlength
      | cons next rest =>
        rw [hrest] at hlength
        rw [List.length_cons, hlength, List.length_cons]

theorem length_distances (s t : List Char) : (distances s t).length = t.length + 1 := by
  induction s with
  | nil => simp [distances]
  | cons c s ih => exact length_prependDistances c t _ ih

theorem exists_distances (s t : List Char) : ∃ rest, distances s t = editDistance s t :: rest := by
  have hlength := length_distances s t
  rw [editDistance]
  cases hd : distances s t with
  | nil => simp [hd] at hlength
  | cons first rest => exact ⟨rest, rfl⟩

/-- **The table lists the distances to all ends** of the second text. -/
theorem distances_cons (s : List Char) (d : Char) (t : List Char) :
    distances s (d :: t) = editDistance s (d :: t) :: distances s t := by
  induction s with
  | nil => simp [editDistance, distances, List.range_succ]
  | cons c s ih =>
    obtain ⟨rest, hnext⟩ := exists_distances (c :: s) t
    have hstep : distances (c :: s) (d :: t) = prependDistances c (d :: t) (distances s (d :: t)) :=
      rfl
    have hnext' : prependDistances c t (distances s t) = editDistance (c :: s) t :: rest := hnext
    rw [editDistance, hstep, ih, prependDistances, hnext, hnext']
    rfl

theorem editDistance_nil_left (t : List Char) : editDistance [] t = t.length := by
  simp [editDistance, distances, List.range_succ]

theorem editDistance_nil_right (s : List Char) : editDistance s [] = s.length := by
  induction s with
  | nil => rfl
  | cons c s ih =>
    obtain ⟨rest, hrest⟩ := exists_distances s []
    have hstep : distances (c :: s) [] = prependDistances c [] (distances s []) := rfl
    rw [editDistance, hstep, hrest, prependDistances, ih]
    · rfl
    · simp

/-- **The distance by the first characters**: it is that of the rests if they are the same, and
otherwise one more than the least of the three distances that one edit leads to. -/
theorem editDistance_cons_cons (c d : Char) (s t : List Char) :
    editDistance (c :: s) (d :: t) =
      if c = d then editDistance s t
      else
        1 + min (editDistance s (d :: t)) (min (editDistance (c :: s) t) (editDistance s t)) := by
  obtain ⟨rest, hnext⟩ := exists_distances (c :: s) t
  obtain ⟨rest', hboth⟩ := exists_distances s t
  have hstep : distances (c :: s) (d :: t) = prependDistances c (d :: t) (distances s (d :: t)) :=
    rfl
  have hnext' : prependDistances c t (distances s t) = editDistance (c :: s) t :: rest := hnext
  rw [editDistance, hstep, distances_cons, prependDistances, hnext', hboth]
  rfl

theorem editDistance_comm (s t : List Char) : editDistance s t = editDistance t s := by
  induction s generalizing t with
  | nil => rw [editDistance_nil_left, editDistance_nil_right]
  | cons c s ih =>
    induction t with
    | nil => rw [editDistance_nil_left, editDistance_nil_right]
    | cons d t ih' =>
      rw [editDistance_cons_cons, editDistance_cons_cons, ih, ih, ih', min_left_comm]
      simp only [eq_comm]

/-! ## Enough edits -/

/-- **As many edits as the distance are enough.** -/
theorem edits_editDistance (s t : List Char) : Edits (editDistance s t) s t := by
  induction s generalizing t with
  | nil =>
    rw [editDistance_nil_left]
    induction t with
    | nil => exact .none []
    | cons d t ih => exact .next (.insert [] [] d) (ih.cons d)
  | cons c s ih =>
    induction t with
    | nil =>
      have hdrop := ih []
      rw [editDistance_nil_right] at hdrop ⊢
      exact .next (.delete [] s c) hdrop
    | cons d t ih' =>
      rw [editDistance_cons_cons]
      by_cases hcd : c = d
      · rw [if_pos hcd, hcd]
        exact (ih t).cons d
      · rw [if_neg hcd, Nat.add_comm]
        -- the least of the three distances is one of them
        rcases min_choice (editDistance s (d :: t))
          (min (editDistance (c :: s) t) (editDistance s t)) with hmin | hmin
        · rw [hmin]
          exact .next (.delete [] s c) (ih (d :: t))
        · rw [hmin]
          rcases min_choice (editDistance (c :: s) t) (editDistance s t) with hmin | hmin
          · rw [hmin]
            exact .next (.insert [] (c :: s) d) (ih'.cons d)
          · rw [hmin]
            exact .next (.replace [] s c d) ((ih t).cons d)

/-! ## Not fewer -/

/-- **A first character changes every distance by at most one.**  Where the other text begins with
the same character, this is the statement for its rest, with the texts exchanged. -/
theorem editDistance_cons_le (n : ℕ) : ∀ (s u : List Char) (c : Char), s.length + u.length = n →
    editDistance (c :: s) u ≤ editDistance s u + 1 ∧
      editDistance s u ≤ editDistance (c :: s) u + 1 := by
  induction n with
  | zero =>
    intro s u c hn
    obtain rfl : u = [] := List.eq_nil_of_length_eq_zero (by omega)
    rw [editDistance_nil_right, editDistance_nil_right, List.length_cons]
    omega
  | succ n ih =>
    rintro s (_ | ⟨d, u⟩) c hn
    · rw [editDistance_nil_right, editDistance_nil_right, List.length_cons]
      omega
    · rw [List.length_cons] at hn
      -- the character `d` in front of the second text, for both directions
      obtain ⟨hmore, hless⟩ := ih u s d (by omega)
      rw [editDistance_comm (d :: u), editDistance_comm u] at hmore hless
      rw [editDistance_cons_cons]
      by_cases hcd : c = d
      · rw [if_pos hcd]
        omega
      · have hrest := (ih s u c (by omega)).2
        rw [if_neg hcd]
        omega

theorem editDistance_cons_left_le (c : Char) (s u : List Char) :
    editDistance (c :: s) u ≤ editDistance s u + 1 :=
  (editDistance_cons_le _ s u c rfl).1

theorem editDistance_le_cons_left (c : Char) (s u : List Char) :
    editDistance s u ≤ editDistance (c :: s) u + 1 :=
  (editDistance_cons_le _ s u c rfl).2

/-- One text is at most one edit farther from every text than another one. -/
def Within (s t : List Char) : Prop :=
  ∀ u, editDistance s u ≤ editDistance t u + 1

/-- The same first character in front of both texts. -/
theorem Within.cons (h : Within s t) (c : Char) : Within (c :: s) (c :: t) := by
  intro u
  induction u with
  | nil =>
    have hnil := h []
    rw [editDistance_nil_right, editDistance_nil_right] at hnil ⊢
    simpa using hnil
  | cons d u ih =>
    rw [editDistance_cons_cons, editDistance_cons_cons]
    by_cases hcd : c = d
    · rw [if_pos hcd, if_pos hcd]
      exact h u
    · have hboth := h u
      have hleft := h (d :: u)
      rw [if_neg hcd, if_neg hcd]
      omega

/-- Another first character. -/
theorem within_replace (c d : Char) (s : List Char) : Within (c :: s) (d :: s) := by
  intro u
  induction u with
  | nil =>
    rw [editDistance_nil_right, editDistance_nil_right, List.length_cons, List.length_cons]
    omega
  | cons a u ih =>
    have hdrop := editDistance_le_cons_left d s u
    have hright := editDistance_le_cons_left a u s
    rw [editDistance_comm u, editDistance_comm (a :: u)] at hright
    rw [editDistance_cons_cons, editDistance_cons_cons]
    by_cases hca : c = a <;> by_cases hda : d = a
    · rw [if_pos hca, if_pos hda]
      omega
    · rw [if_pos hca, if_neg hda]
      omega
    · rw [if_neg hca, if_pos hda]
      omega
    · rw [if_neg hca, if_neg hda]
      omega

/-- **One edit changes every distance by at most one.** -/
theorem Edit.within (h : Edit s t) : Within s t := by
  have hbefore {s t : List Char} (h : Within s t) (before : List Char) :
      Within (before ++ s) (before ++ t) := by
    induction before with
    | nil => exact h
    | cons c before ih => exact ih.cons c
  cases h with
  | insert before after c => exact hbefore (editDistance_le_cons_left c after) before
  | delete before after c => exact hbefore (editDistance_cons_left_le c after) before
  | replace before after c d => exact hbefore (within_replace c d after) before

theorem editDistance_self (s : List Char) : editDistance s s = 0 := by
  induction s with
  | nil => rfl
  | cons c s ih => rw [editDistance_cons_cons, if_pos rfl, ih]

/-- **Fewer edits than the distance are not enough.** -/
theorem Edits.editDistance_le (h : Edits n s t) : editDistance s t ≤ n := by
  induction h with
  | none s => rw [editDistance_self]
  | next hedit _ ih => exact (hedit.within _).trans (Nat.add_le_add_right ih 1)

/-- **The distance is the least number of edits** that turn one text into the other. -/
theorem isLeast_editDistance (s t : List Char) :
    IsLeast {n | Edits n s t} (editDistance s t) :=
  ⟨edits_editDistance s t, fun _ h => Edits.editDistance_le h⟩

end Text
end SpecOverlay
