import Mathlib.Data.List.Infix
import SpecOverlay.Canvas

/-!
# Calls on a canvas, and the replay of a recording

A canvas is called to do what a command stands for, or to begin anew (`Canvas.Call`).  A host
has no more than the recording, and it replays it by giving the commands to a canvas of its
own.  `replay_recording` says that this loses nothing: after any calls on a blank canvas, the
recording replayed on another one gives the very same canvas, with the same recording, the
same clip and the same clips to go back to.

* A `restore` that has nothing to go back to leaves no trace, and every other command is
  recorded (`perform_restore_of_nil`, `commands_perform`).
* So a recording has, up to any place, at most as many restores as saves (`Nested`), and as
  many more saves as there are clips to go back to (`Faithful`).
* Commands that restore what they save, and no more, are `Balanced`.  They leave the clips to
  go back to as they are, on any canvas (`saved_replay_of_balanced`).
-/

namespace SpecOverlay

/-! ## Saves and restores -/

/-- No beginning of the commands restores more often than it saves. -/
def Nested (commands : List Command) : Prop :=
  ∀ first, first <+: commands → first.count .restore ≤ first.count .save

/-- Every restore of the commands belongs to a save before it, and every save to a restore
after it. -/
structure Balanced (commands : List Command) : Prop where
  nested : Nested commands
  count_eq : commands.count .restore = commands.count .save

variable {commands more : List Command} {command : Command}

theorem nested_nil : Nested [] := by
  intro first hfirst
  rw [List.prefix_nil.mp hfirst]
  exact Nat.le_refl _

theorem nested_concat_iff :
    Nested (commands ++ [command]) ↔
      Nested commands ∧
        (commands ++ [command]).count .restore ≤ (commands ++ [command]).count .save := by
  constructor
  · intro h
    exact ⟨fun first hfirst => h first (hfirst.trans (List.prefix_append _ _)),
      h _ List.prefix_rfl⟩
  · rintro ⟨h, hlast⟩ first hfirst
    rcases List.prefix_concat_iff.mp hfirst with rfl | hfirst
    · exact hlast
    · exact h first hfirst

theorem balanced_nil : Balanced [] := ⟨nested_nil, rfl⟩

/-- Balanced commands may follow one another. -/
theorem Balanced.append (h : Balanced commands) (h' : Balanced more) :
    Balanced (commands ++ more) where
  nested := by
    intro first hfirst
    rcases List.prefix_or_prefix_of_prefix hfirst (List.prefix_append commands more) with
      hbegins | ⟨rest, rfl⟩
    · exact h.nested first hbegins
    · have hcount := h'.nested rest ((List.prefix_append_right_inj commands).mp hfirst)
      rw [List.count_append, List.count_append, h.count_eq]
      omega
  count_eq := by
    rw [List.count_append, List.count_append, h.count_eq, h'.count_eq]

/-- A command that neither saves nor restores is balanced. -/
theorem balanced_singleton (hsave : command ≠ .save) (hrestore : command ≠ .restore) :
    Balanced [command] where
  nested := nested_concat_iff.mpr ⟨nested_nil, by simp [hrestore]⟩
  count_eq := by simp [hsave, hrestore]

/-- Balanced commands between a save and a restore are balanced. -/
theorem Balanced.enclosed (h : Balanced commands) :
    Balanced (.save :: commands ++ [.restore]) where
  nested := by
    refine nested_concat_iff.mpr ⟨fun first hfirst => ?_, ?_⟩
    · rcases List.prefix_cons_iff.mp hfirst with rfl | ⟨rest, rfl, hrest⟩
      · exact Nat.le_refl _
      · have hcount := h.nested rest hrest
        rw [List.count_cons_of_ne (by decide), List.count_cons_self]
        omega
    · simp [h.count_eq]
  count_eq := by simp [h.count_eq]

namespace Canvas

/-! ## Calls -/

/-- Does what a command stands for. -/
def perform (c : Canvas) : Command → Canvas
  | .save => c.save
  | .restore => c.restore
  | .clip rect => c.clipRect rect
  | .rect rect color => c.drawRect rect color
  | .text anchor text style => c.drawText anchor text style

/-- What a canvas can be called to do. -/
inductive Call where
  | command (command : Command)
  | clear

/-- Does what a call asks for. -/
def call (c : Canvas) : Call → Canvas
  | .command command => c.perform command
  | .clear => c.clear

/-- The canvas after calls, first to last. -/
def afterCalls (c : Canvas) (calls : List Call) : Canvas :=
  calls.foldl call c

/-- The canvas after the commands of a recording, first to last. -/
def replay (c : Canvas) (commands : List Command) : Canvas :=
  commands.foldl perform c

variable {c : Canvas} {calls : List Call}

theorem afterCalls_append (c : Canvas) (calls calls' : List Call) :
    c.afterCalls (calls ++ calls') = (c.afterCalls calls).afterCalls calls' :=
  List.foldl_append

theorem afterCalls_map_command (c : Canvas) (commands : List Command) :
    c.afterCalls (commands.map .command) = c.replay commands :=
  List.foldl_map

/-! ## What a command records -/

theorem perform_restore_of_nil (h : c.saved = []) : c.perform .restore = c := by
  rw [perform, restore, h]

/-- **A command is recorded**, unless it is to go back where there is nothing to go back
to. -/
theorem commands_perform (h : command = .restore → c.saved ≠ []) :
    (c.perform command).commands = c.commands.push command := by
  cases command with
  | restore =>
    obtain ⟨clip, saved, hsaved⟩ := List.exists_cons_of_ne_nil (h rfl)
    rw [perform, restore, hsaved]
    rfl
  | _ => rfl

/-- What a command does to the clips to go back to, as far as they lie above some that it
does not reach. -/
theorem exists_saved_perform {above below : List (Option (Rect Float32))}
    (hsaved : c.saved = above ++ below) (h : command = .restore → above ≠ []) :
    ∃ above', (c.perform command).saved = above' ++ below ∧
      above'.length + [command].count .restore = above.length + [command].count .save := by
  cases command with
  | save => exact ⟨c.clip :: above, congrArg (c.clip :: ·) hsaved, rfl⟩
  | restore =>
    obtain ⟨clip, rest, rfl⟩ := List.exists_cons_of_ne_nil (h rfl)
    refine ⟨rest, ?_, rfl⟩
    rw [perform, restore, hsaved]
    rfl
  | clip rect => exact ⟨above, hsaved, rfl⟩
  | rect rect color => exact ⟨above, hsaved, rfl⟩
  | text anchor text style => exact ⟨above, hsaved, rfl⟩

/-- Commands that close no more than they open do not reach the clips below. -/
theorem exists_saved_replay {above below : List (Option (Rect Float32))}
    (hsaved : c.saved = above ++ below)
    (h : ∀ first, first <+: commands →
      first.count .restore ≤ first.count .save + above.length) :
    ∃ above', (c.replay commands).saved = above' ++ below ∧
      above'.length + commands.count .restore = above.length + commands.count .save := by
  induction commands using List.reverseRecOn with
  | nil => exact ⟨above, hsaved, rfl⟩
  | append_singleton commands command ih =>
    obtain ⟨above', habove, hlength⟩ :=
      ih fun first hfirst => h first (hfirst.trans (List.prefix_append _ _))
    have hwhole := h _ List.prefix_rfl
    rw [List.count_append, List.count_append] at hwhole
    have hopen : command = .restore → above' ≠ [] := by
      rintro rfl rfl
      have hrestores : [Command.restore].count .restore = 1 := rfl
      have hsaves : [Command.restore].count .save = 0 := rfl
      rw [List.length_nil] at hlength
      omega
    obtain ⟨above'', hsaved'', hlength''⟩ := exists_saved_perform habove hopen
    refine ⟨above'', ?_, ?_⟩
    · rwa [replay, List.foldl_append]
    · rw [List.count_append, List.count_append]
      omega

/-- **Balanced commands leave the clips to go back to as they are.** -/
theorem saved_replay_of_balanced (h : Balanced commands) (c : Canvas) :
    (c.replay commands).saved = c.saved := by
  obtain ⟨above, hsaved, hlength⟩ := exists_saved_replay (List.nil_append c.saved).symm
    fun first hfirst => h.nested first hfirst
  rw [h.count_eq, List.length_nil, Nat.add_right_cancel_iff, List.length_eq_zero_iff] at hlength
  rw [hsaved, hlength, List.nil_append]

/-! ## The recording -/

/-- What is kept by every call: the recording replays to the canvas, restores no more than
it saves, and has a save to close for every clip to go back to. -/
structure Faithful (c : Canvas) : Prop where
  replay_eq : blank.replay c.commands.toList = c
  nested : Nested c.commands.toList
  count_save : c.commands.toList.count .save =
    c.commands.toList.count .restore + c.saved.length

theorem faithful_blank : Faithful blank := ⟨rfl, nested_nil, rfl⟩

theorem Faithful.perform (h : c.Faithful) (command : Command) : (c.perform command).Faithful := by
  by_cases hdropped : command = .restore ∧ c.saved = []
  · obtain ⟨rfl, hsaved⟩ := hdropped
    rwa [perform_restore_of_nil hsaved]
  · have hopen : command = .restore → c.saved ≠ [] := fun hc hs => hdropped ⟨hc, hs⟩
    obtain ⟨saved, hsaved, hlength⟩ := exists_saved_perform (List.append_nil c.saved).symm hopen
    have hcommands : (c.perform command).commands.toList = c.commands.toList ++ [command] := by
      rw [commands_perform hopen, Array.toList_push]
    have hcount : (c.commands.toList ++ [command]).count .save =
        (c.commands.toList ++ [command]).count .restore + saved.length := by
      rw [List.count_append, List.count_append, h.count_save]
      omega
    refine ⟨?_, ?_, ?_⟩
    · rw [hcommands, replay, List.foldl_append]
      exact congrArg (Canvas.perform · command) h.replay_eq
    · rw [hcommands, nested_concat_iff]
      exact ⟨h.nested, by omega⟩
    · rw [hcommands, hsaved, List.append_nil, hcount]

/-- Every canvas that calls lead to is faithful. -/
theorem faithful_afterCalls (h : c.Faithful) (calls : List Call) :
    (c.afterCalls calls).Faithful := by
  induction calls generalizing c with
  | nil => exact h
  | cons call calls ih =>
    cases call with
    | command command => exact ih (h.perform command)
    | clear => exact ih faithful_blank

/-- **A recording can be replayed.**  After any calls on a blank canvas, its recording,
replayed on another blank canvas, gives the same canvas: the same recording, the same clip
and the same clips to go back to.  So the two do the same in all further calls.  And up to
any place, the recording restores at most as often as it saves. -/
theorem replay_recording (calls : List Call) :
    blank.replay (blank.afterCalls calls).commands.toList = blank.afterCalls calls ∧
      ∀ first, first <+: (blank.afterCalls calls).commands.toList →
        first.count .restore ≤ first.count .save :=
  have hfaithful := faithful_afterCalls faithful_blank calls
  ⟨hfaithful.replay_eq, hfaithful.nested⟩

end Canvas
end SpecOverlay
