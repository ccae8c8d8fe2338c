import SpecOverlay.Proofs.Canvas.Calls
import SpecOverlay.Proofs.Number.Order

/-!
# The clip, from the history of the calls

A canvas narrows its clip step by step and goes back to clips it remembered.  `clip_of_active`
says what comes of it in terms of the calls alone: the clip is the common part of the
rectangles that are still active, that is, of those given since the canvas last began anew
and not undone by a restore of an earlier save (`Active`).

* The geometry is `Rect.contains_intersection_iff`: the common part of two rectangles holds
  the points of both.  It holds for every edge, also if the rectangles do not meet, are
  inverted or have edges that are no numbers, because what holds a point is never such a
  rectangle.
* The history is read off the brackets that saves and restores form.  A restore closes the
  latest save still open (`LatestOpen`), if there is one, and then there is a clip to go
  back to (`LatestOpen.saved_ne_nil`).
* One more command adds the rectangle it clips to, and a restore takes away those that came
  after the save it closes (`active_concat_iff`, `active_restore_iff`).  The invariant
  `Remembers` says the same of the clips to go back to: each belongs to the calls before its
  save.
-/

namespace SpecOverlay

/-! ## Points in rectangles -/

namespace Rect

variable {a b : Rect Float32} {p : Point Float32}

theorem contains_iff :
    a.contains p = true ↔ (a.left ≤ p.x ∧ p.x < a.right) ∧ a.top ≤ p.y ∧ p.y < a.bottom := by
  simp only [contains, Bool.and_eq_true, decide_eq_true_eq]

theorem intersects_iff :
    a.intersects b = true ↔
      (a.left < b.right ∧ b.left < a.right) ∧ a.top < b.bottom ∧ b.top < a.bottom := by
  simp only [intersects, Bool.and_eq_true, decide_eq_true_eq]

/-- The rectangle whose edges are all at the origin holds no point. -/
theorem contains_zero (p : Point Float32) : (zero : Rect Float32).contains p = false := by
  rw [Bool.eq_false_iff, Ne, contains_iff]
  rintro ⟨⟨hleft, hright⟩, -⟩
  exact Single.lt_irrefl _ (Single.lt_of_le_of_lt hleft hright)

/-- Two rectangles that hold the same point meet. -/
theorem intersects_of_contains (ha : a.contains p = true) (hb : b.contains p = true) :
    a.intersects b = true := by
  obtain ⟨⟨haleft, haright⟩, hatop, habottom⟩ := contains_iff.mp ha
  obtain ⟨⟨hbleft, hbright⟩, hbtop, hbbottom⟩ := contains_iff.mp hb
  exact intersects_iff.mpr
    ⟨⟨Single.lt_of_le_of_lt haleft hbright, Single.lt_of_le_of_lt hbleft haright⟩,
      Single.lt_of_le_of_lt hatop hbbottom, Single.lt_of_le_of_lt hbtop habottom⟩

/-- **The common part of two rectangles holds the points of both**, whatever their edges
are.  If they do not meet, the rectangle that stands for nothing takes its place. -/
theorem contains_intersection_iff (a b : Rect Float32) (p : Point Float32) :
    ((a.intersection? b).getD zero).contains p = true ↔
      a.contains p = true ∧ b.contains p = true := by
  rw [intersection?]
  by_cases hmeet : a.intersects b = true
  · -- rectangles that meet have numbers for edges
    obtain ⟨⟨hlr, hrl⟩, htb, hbt⟩ := intersects_iff.mp hmeet
    obtain ⟨haleft, hbright⟩ := Single.le_self_of_lt hlr
    obtain ⟨hbleft, haright⟩ := Single.le_self_of_lt hrl
    obtain ⟨hatop, hbbottom⟩ := Single.le_self_of_lt htb
    obtain ⟨hbtop, habottom⟩ := Single.le_self_of_lt hbt
    rw [if_pos hmeet, Option.getD_some]
    simp only [contains_iff, Single.larger_le_iff haleft hbleft, Single.larger_le_iff hatop hbtop,
      Single.lt_smaller_iff haright hbright, Single.lt_smaller_iff habottom hbbottom]
    constructor
    · rintro ⟨⟨⟨hal, hbl⟩, har, hbr⟩, ⟨hat, hbt⟩, hab, hbb⟩
      exact ⟨⟨⟨hal, har⟩, hat, hab⟩, ⟨hbl, hbr⟩, hbt, hbb⟩
    · rintro ⟨⟨⟨hal, har⟩, hat, hab⟩, ⟨hbl, hbr⟩, hbt, hbb⟩
      exact ⟨⟨⟨hal, hbl⟩, har, hbr⟩, ⟨hat, hbt⟩, hab, hbb⟩
  · rw [if_neg hmeet, Option.getD_none, contains_zero]
    constructor
    · exact fun h => absurd h (by decide)
    · rintro ⟨ha, hb⟩
      exact absurd (intersects_of_contains ha hb) hmeet

end Rect

/-! ## The common part of many rectangles -/

/-- A clip is the common part of some rectangles: there is none if there are no rectangles,
and otherwise it holds the points that all of them hold. -/
structure IsCommonPart (rects : Rect Float32 → Prop) (clip : Option (Rect Float32)) : Prop where
  eq_none_iff : clip = none ↔ ∀ rect, ¬ rects rect
  contains_iff : ∀ common, clip = some common → ∀ p,
    common.contains p = true ↔ ∀ rect, rects rect → rect.contains p = true

namespace IsCommonPart

variable {rects rects' : Rect Float32 → Prop} {clip : Option (Rect Float32)}

theorem congr (h : IsCommonPart rects clip) (hrects : ∀ rect, rects' rect ↔ rects rect) :
    IsCommonPart rects' clip := by
  obtain rfl : rects' = rects := funext fun rect => propext (hrects rect)
  exact h

theorem none_of_forall_not (h : ∀ rect, ¬ rects rect) : IsCommonPart rects none where
  eq_none_iff := iff_of_true rfl h
  contains_iff := by
    rintro common ⟨⟩

/-- **Narrowing a clip takes one more rectangle into the common part.** -/
theorem clipRect {c : Canvas} (h : IsCommonPart rects c.clip) (rect : Rect Float32)
    (hrects : ∀ r, rects' r ↔ rects r ∨ r = rect) :
    IsCommonPart rects' (c.clipRect rect).clip where
  eq_none_iff :=
    iff_of_false (Option.some_ne_none _) fun hnone => hnone rect ((hrects rect).mpr (.inr rfl))
  contains_iff := by
    intro common hcommon p
    have hboth : common.contains p = true ↔
        (∀ r, rects r → r.contains p = true) ∧ rect.contains p = true := by
      cases hclip : c.clip with
      | none =>
        obtain rfl : rect = common := by
          rw [Canvas.clipRect, hclip] at hcommon
          exact Option.some.inj hcommon
        have hno := h.eq_none_iff.mp hclip
        exact (and_iff_right fun r hr => absurd hr (hno r)).symm
      | some current =>
        obtain rfl : (current.intersection? rect).getD .zero = common := by
          rw [Canvas.clipRect, hclip] at hcommon
          exact Option.some.inj hcommon
        rw [Rect.contains_intersection_iff, h.contains_iff current hclip]
    rw [hboth]
    constructor
    · rintro ⟨hall, hrect⟩ r hr
      rcases (hrects r).mp hr with hr | rfl
      · exact hall r hr
      · exact hrect
    · intro hall
      exact ⟨fun r hr => hall r ((hrects r).mpr (.inl hr)),
        hall rect ((hrects rect).mpr (.inr rfl))⟩

end IsCommonPart

namespace Canvas

/-! ## The history of the calls -/

/-- The call at place `i` is a save, and it is the latest one still open: all that is saved
after it is restored again. -/
def LatestOpen (calls : List Call) (i : Nat) : Prop :=
  ∃ between, calls.drop i = (Command.save :: between).map .command ∧ Balanced between

/-- The call at place `j` is a restore, and it closes the save at place `i`. -/
def Closes (calls : List Call) (i j : Nat) : Prop :=
  calls[j]? = some (.command .restore) ∧ LatestOpen (calls.take j) i

/-- The call at place `k` clips to a rectangle.  No later call begins anew, and no later
restore closes a save that comes before this call. -/
structure ActiveAt (calls : List Call) (k : Nat) (rect : Rect Float32) : Prop where
  clips : calls[k]? = some (.command (.clip rect))
  not_cleared : ∀ j, k < j → calls[j]? ≠ some .clear
  not_undone : ∀ i j, i < k → k < j → ¬ Closes calls i j

/-- The calls clip to a rectangle, and it is still active after the last of them. -/
def Active (calls : List Call) (rect : Rect Float32) : Prop :=
  ∃ k, ActiveAt calls k rect

variable {calls rest before : List Call} {commands between : List Command} {command : Command}
  {rect : Rect Float32} {i j k : Nat}

theorem latestOpen_of_balanced (h : Balanced between) :
    LatestOpen (before ++ (Command.save :: between).map .command) before.length :=
  ⟨between, List.drop_left, h⟩

/-- A save is not the latest one open as long as a later one is. -/
theorem not_latestOpen_of_lt (h : Nested between) (hi : i < before.length) :
    ¬ LatestOpen (before ++ (Command.save :: between).map .command) i := by
  rintro ⟨whole, hwhole, hbalanced⟩
  rw [List.drop_append_of_le_length (Nat.le_of_lt hi), List.drop_eq_getElem_cons hi,
    List.cons_append] at hwhole
  obtain ⟨first, last, rfl, -, hlast⟩ := List.map_eq_append_iff.mp (List.cons.inj hwhole).2.symm
  obtain rfl : last = .save :: between :=
    List.map_injective_iff.mpr (fun _ _ => Call.command.inj) hlast
  have hfirst := hbalanced.nested first (List.prefix_append _ _)
  have hrest := h between List.prefix_rfl
  have hcount := hbalanced.count_eq
  rw [List.count_append, List.count_append, List.count_cons_self,
    List.count_cons_of_ne (by decide)] at hcount
  omega

/-! ## What further calls leave active -/

theorem ActiveAt.lt_length (h : ActiveAt calls k rect) : k < calls.length :=
  (List.getElem?_eq_some_iff.mp h.clips).1

theorem closes_append_iff (hj : j < calls.length) :
    Closes (calls ++ rest) i j ↔ Closes calls i j := by
  rw [Closes, Closes, List.getElem?_append_left hj, List.take_append_of_le_length hj.le]

/-- What is active stays so through further calls, unless these begin anew or close a save
before it. -/
theorem activeAt_append_iff (hk : k < calls.length) :
    ActiveAt (calls ++ rest) k rect ↔
      ActiveAt calls k rect ∧ .clear ∉ rest ∧
        ∀ i j, i < k → calls.length ≤ j → ¬ Closes (calls ++ rest) i j := by
  constructor
  · intro h
    refine ⟨⟨?_, fun j hj hmem => ?_, fun i j hi hj hclosed => ?_⟩, fun hmem => ?_,
      fun i j hi hj => h.not_undone i j hi (hk.trans_le hj)⟩
    · exact List.getElem?_append_left hk ▸ h.clips
    · have hlength := (List.getElem?_eq_some_iff.mp hmem).1
      exact h.not_cleared j hj (List.getElem?_append_left hlength ▸ hmem)
    · have hlength := (List.getElem?_eq_some_iff.mp hclosed.1).1
      exact h.not_undone i j hi hj ((closes_append_iff hlength).mpr hclosed)
    · obtain ⟨m, hm⟩ := List.mem_iff_getElem?.mp hmem
      refine h.not_cleared (calls.length + m) (by omega) ?_
      rwa [List.getElem?_append_right (Nat.le_add_right _ _), Nat.add_sub_cancel_left]
  · rintro ⟨h, hrest, hlater⟩
    refine ⟨?_, fun j hj hmem => ?_, fun i j hi hj hclosed => ?_⟩
    · exact List.getElem?_append_left hk ▸ h.clips
    · rcases Nat.lt_or_ge j calls.length with hlength | hlength
      · exact h.not_cleared j hj (List.getElem?_append_left hlength ▸ hmem)
      · rw [List.getElem?_append_right hlength] at hmem
        exact hrest (List.mem_of_getElem? hmem)
    · rcases Nat.lt_or_ge j calls.length with hlength | hlength
      · exact h.not_undone i j hi hj ((closes_append_iff hlength).mp hclosed)
      · exact hlater i j hi hlength hclosed

/-- One more call stands at the last place. -/
theorem le_length_of_getElem?_concat {call call' : Call}
    (h : (calls ++ [call])[j]? = some call') : j ≤ calls.length := by
  have hlength := (List.getElem?_eq_some_iff.mp h).1
  rw [List.length_append, List.length_singleton] at hlength
  exact Nat.le_of_lt_succ hlength

/-- One more command closes a save if it is a restore, and then the latest one open. -/
theorem closes_concat_iff (hj : calls.length ≤ j) :
    Closes (calls ++ [.command command]) i j ↔
      j = calls.length ∧ command = .restore ∧ LatestOpen calls i := by
  constructor
  · rintro ⟨hrestore, hopen⟩
    obtain rfl : j = calls.length := Nat.le_antisymm (le_length_of_getElem?_concat hrestore) hj
    rw [List.getElem?_concat_length, Option.some.injEq, Call.command.injEq] at hrestore
    rw [List.take_left] at hopen
    exact ⟨rfl, hrestore, hopen⟩
  · rintro ⟨rfl, rfl, hopen⟩
    exact ⟨List.getElem?_concat_length, by rwa [List.take_left]⟩

theorem activeAt_concat_iff (hk : k < calls.length) :
    ActiveAt (calls ++ [.command command]) k rect ↔
      ActiveAt calls k rect ∧ (command = .restore → ∀ i, i < k → ¬ LatestOpen calls i) := by
  rw [activeAt_append_iff hk]
  refine and_congr_right fun _ => ?_
  constructor
  · rintro ⟨-, hlater⟩ hrestore i hi hopen
    exact hlater i calls.length hi (Nat.le_refl _)
      ((closes_concat_iff (Nat.le_refl _)).mpr ⟨rfl, hrestore, hopen⟩)
  · intro hnot
    refine ⟨by simp, fun i j hi hj hclosed => ?_⟩
    obtain ⟨-, hrestore, hopen⟩ := (closes_concat_iff hj).mp hclosed
    exact hnot hrestore i hi hopen

theorem activeAt_length_iff {call : Call} :
    ActiveAt (calls ++ [call]) calls.length rect ↔ call = .command (.clip rect) := by
  constructor
  · intro h
    exact Option.some.inj (List.getElem?_concat_length.symm.trans h.clips)
  · rintro rfl
    refine ⟨List.getElem?_concat_length, fun j hj hmem => ?_, fun i j hi hj hclosed => ?_⟩
    · exact Nat.not_lt_of_le (le_length_of_getElem?_concat hmem) hj
    · exact Nat.not_lt_of_le (le_length_of_getElem?_concat hclosed.1) hj

/-- **What is active after one more command**: the rectangle it clips to, and what was active
before, less what it undoes. -/
theorem active_concat_iff :
    Active (calls ++ [.command command]) rect ↔
      command = .clip rect ∨
        ∃ k, ActiveAt calls k rect ∧ (command = .restore → ∀ i, i < k → ¬ LatestOpen calls i) := by
  constructor
  · rintro ⟨k, hactive⟩
    rcases Nat.lt_or_eq_of_le (le_length_of_getElem?_concat hactive.clips) with hk | rfl
    · exact .inr ⟨k, (activeAt_concat_iff hk).mp hactive⟩
    · exact .inl (Call.command.inj (activeAt_length_iff.mp hactive))
  · rintro (rfl | ⟨k, hactive, hnot⟩)
    · exact ⟨calls.length, activeAt_length_iff.mpr rfl⟩
    · exact ⟨k, (activeAt_concat_iff hactive.lt_length).mpr ⟨hactive, hnot⟩⟩

theorem active_concat_iff_of_ne (h : command ≠ .restore) :
    Active (calls ++ [.command command]) rect ↔ Active calls rect ∨ command = .clip rect := by
  rw [active_concat_iff, or_comm]
  exact or_congr_left (exists_congr fun k => and_iff_left fun hrestore => absurd hrestore h)

theorem not_active_clear : ¬ Active (calls ++ [.clear]) rect := by
  rintro ⟨k, hactive⟩
  rcases Nat.lt_or_eq_of_le (le_length_of_getElem?_concat hactive.clips) with hk | rfl
  · exact hactive.not_cleared calls.length hk List.getElem?_concat_length
  · cases activeAt_length_iff.mp hactive

/-- **A restore undoes what came after the save that it closes**, and nothing else. -/
theorem active_restore_iff (h : Balanced between) :
    Active (before ++ (Command.save :: between).map .command ++ [.command .restore]) rect ↔
      Active before rect := by
  rw [active_concat_iff]
  constructor
  · rintro (hclip | ⟨k, hactive, hnot⟩)
    · cases hclip
    · have hk : k ≤ before.length :=
        Nat.le_of_not_lt fun hlt => hnot rfl before.length hlt (latestOpen_of_balanced h)
      rcases Nat.lt_or_eq_of_le hk with hk | rfl
      · exact ⟨k, ((activeAt_append_iff hk).mp hactive).1⟩
      · -- the call at this place is the save
        have hclip := hactive.clips
        rw [List.getElem?_append_right (Nat.le_refl _), Nat.sub_self] at hclip
        cases hclip
  · rintro ⟨k, hactive⟩
    have hk := hactive.lt_length
    refine .inr ⟨k, (activeAt_append_iff hk).mpr ⟨hactive, by simp, ?_⟩, fun _ i hi => ?_⟩
    · -- a restore between the save and its own closes a save between them
      rintro i j hi hj ⟨hrestore, hopen⟩
      obtain rfl | hj := Nat.eq_or_lt_of_le hj
      · rw [List.getElem?_append_right (Nat.le_refl _), Nat.sub_self] at hrestore
        cases hrestore
      · obtain ⟨m, rfl⟩ := Nat.exists_eq_add_of_lt hj
        rw [Nat.add_assoc, List.take_length_add_append, List.map_cons, List.take_succ_cons,
          ← List.map_take, ← List.map_cons] at hopen
        exact not_latestOpen_of_lt
          (fun first hfirst => h.nested first (hfirst.trans (List.take_prefix m between)))
          (hi.trans hk) hopen
    · exact not_latestOpen_of_lt h.nested (hi.trans hk)

/-! ## The clips to go back to -/

/-- The clips to go back to, latest first, belong to the saves still open: each is the common
part of what was active at its save. -/
inductive Remembers : List Call → List (Option (Rect Float32)) → Prop where
  | nil {calls : List Call} : Remembers calls []
  | save {calls : List Call} {clip : Option (Rect Float32)}
      {saved : List (Option (Rect Float32))} {between : List Command}
      (hclip : IsCommonPart (Active calls) clip) (hsaved : Remembers calls saved)
      (hbetween : Balanced between) :
      Remembers (calls ++ (Command.save :: between).map .command) (clip :: saved)

variable {c : Canvas} {saved : List (Option (Rect Float32))}

/-- Balanced commands leave open what is open. -/
theorem Remembers.append (h : Remembers calls saved) (hcommands : Balanced commands) :
    Remembers (calls ++ commands.map .command) saved := by
  cases h with
  | nil => exact .nil
  | save hclip hsaved hbetween =>
    rw [List.append_assoc, ← List.map_append, List.cons_append]
    exact .save hclip hsaved (hbetween.append hcommands)

/-- What is kept by every call: the clip is the common part of what is active, and so are the
clips to go back to. -/
structure Clipped (calls : List Call) (c : Canvas) : Prop where
  clip : IsCommonPart (Active calls) c.clip
  saved : Remembers calls c.saved

theorem clipped_blank : Clipped [] blank where
  clip := .none_of_forall_not fun _ ⟨_, hactive⟩ => absurd hactive.lt_length (Nat.not_lt_zero _)
  saved := .nil

/-- A command that paints leaves all as it is. -/
theorem Clipped.paint (h : Clipped calls c) (hsave : command ≠ .save)
    (hrestore : command ≠ .restore) (hclip : ∀ r, command ≠ .clip r) :
    Clipped (calls ++ [.command command]) (c.record command) where
  clip := h.clip.congr fun r => by
    rw [active_concat_iff_of_ne hrestore, or_iff_left (hclip r)]
  saved := h.saved.append (balanced_singleton hsave hrestore)

/-- What one more command does, given that a save still open is one to go back to. -/
theorem Clipped.perform (h : Clipped calls c) (hopen : ∀ i, LatestOpen calls i → c.saved ≠ [])
    (command : Command) : Clipped (calls ++ [.command command]) (c.perform command) := by
  cases command with
  | save =>
    refine ⟨h.clip.congr fun r => ?_, .save h.clip h.saved balanced_nil⟩
    rw [active_concat_iff_of_ne Command.noConfusion]
    exact or_iff_left Command.noConfusion
  | restore =>
    cases hsaved : c.saved with
    | nil =>
      rw [perform_restore_of_nil hsaved]
      refine ⟨h.clip.congr fun r => ?_, hsaved ▸ .nil⟩
      rw [active_concat_iff, or_iff_right Command.noConfusion]
      exact exists_congr fun k => and_iff_left fun _ i _ hlatest => hopen i hlatest hsaved
    | cons clip saved =>
      have hremembers := h.saved
      rw [hsaved] at hremembers
      rw [Canvas.perform, restore, hsaved]
      cases hremembers with
      | save hclip hrest hbetween =>
        refine ⟨hclip.congr fun r => active_restore_iff hbetween, ?_⟩
        have hclosed := hrest.append hbetween.enclosed
        rwa [List.map_append, ← List.append_assoc] at hclosed
  | clip rect =>
    have hbalanced : Balanced [.clip rect] :=
      balanced_singleton Command.noConfusion Command.noConfusion
    refine ⟨h.clip.clipRect rect fun r => ?_, h.saved.append hbalanced⟩
    rw [active_concat_iff_of_ne Command.noConfusion, Command.clip.injEq, eq_comm]
  | rect rect color =>
    exact h.paint Command.noConfusion Command.noConfusion fun _ => Command.noConfusion
  | text anchor text style =>
    exact h.paint Command.noConfusion Command.noConfusion fun _ => Command.noConfusion

/-- A save still open is one to go back to. -/
theorem LatestOpen.saved_ne_nil (h : LatestOpen calls i) :
    (blank.afterCalls calls).saved ≠ [] := by
  obtain ⟨between, hdrop, hbalanced⟩ := h
  rw [← List.take_append_drop i calls, hdrop, afterCalls_append, afterCalls_map_command]
  have hsaved := saved_replay_of_balanced hbalanced (blank.afterCalls (calls.take i)).save
  exact hsaved ▸ List.cons_ne_nil _ _

theorem clipped_afterCalls (calls : List Call) : Clipped calls (blank.afterCalls calls) := by
  induction calls using List.reverseRecOn with
  | nil => exact clipped_blank
  | append_singleton calls call ih =>
    rw [afterCalls_append]
    cases call with
    | command command => exact ih.perform (fun _ hlatest => hlatest.saved_ne_nil) command
    | clear => exact ⟨.none_of_forall_not fun _ => not_active_clear, .nil⟩

/-- **The clip is the common part of the active rectangles.**  After any calls on a blank
canvas, there is no clip exactly if no rectangle is active, and otherwise the clip holds the
points that all active rectangles hold, whatever the edges of these are. -/
theorem clip_of_active (calls : List Call) :
    ((blank.afterCalls calls).clip = none ↔ ∀ rect, ¬ Active calls rect) ∧
      ∀ clip, (blank.afterCalls calls).clip = some clip → ∀ p,
        clip.contains p = true ↔ ∀ rect, Active calls rect → rect.contains p = true :=
  have hclip := (clipped_afterCalls calls).clip
  ⟨hclip.eq_none_iff, hclip.contains_iff⟩

end Canvas
end SpecOverlay
