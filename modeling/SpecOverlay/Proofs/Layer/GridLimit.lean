import SpecOverlay.Proofs.Error.Steps
import SpecOverlay.Proofs.Layer.EdgeSymmetry
import SpecOverlay.Proofs.Layer.GridProgress
import SpecOverlay.Proofs.Number.Integers

/-!
# The limit of grid lines

A limit is read as an integer, and the number -1 stands for an argument without a value.  So that
number, if an author writes it, asks for no limit as well.  Every other value has to be a positive
integer of 32 bits, and no more lines than it says are drawn in any bounds
(`limit_of_accepted`).

A value that is refused is refused for itself, unless an argument that is looked at before is at
fault.  That one is at fault without a limit, too: with the value taken away the error is the same
(`error_of_refused`).  Together these facts say what becomes of each kind of limit
(`limit_decided`).
-/

namespace SpecOverlay

namespace GridLines

open Single (maxInt32)

variable {args : Arguments} {g : GridLines Float32} {n : ℤ} {raw : String} {e : Error}

/-! ## Reading a limit -/

/-- The limit that is read from arguments. -/
def readLimit (args : Arguments) : Except Error (Option Nat) :=
  args.int "limit" (-1) >>= limitOf

theorem limitOf_of_pos (hn : 0 < n) : limitOf n = .ok (some n.toNat) := by
  rw [limitOf, if_neg (by omega), if_pos hn]

theorem limitOf_of_refused (hn : n ≤ 0) (hne : n ≠ -1) :
    limitOf n = .error ⟨.argumentNotPositive token "limit" "4", none⟩ := by
  rw [limitOf, if_neg hne, if_neg (not_lt.mpr hn)]

/-- No limit comes from an argument without a value, or from the number -1. -/
theorem readLimit_eq_none_iff :
    readLimit args = .ok none ↔ args.text? "limit" = none ∨ args.HasInt32 "limit" (-1) := by
  rcases args.int_cases "limit" (-1) with ⟨hraw, hint⟩ | ⟨n, hn, hint⟩ | ⟨raw, hraw, hno, hint⟩
  · rw [readLimit, hint]
    exact iff_of_true rfl (.inl hraw)
  · have hraw : args.text? "limit" ≠ none := fun hnone => by
      obtain ⟨raw, hraw, -⟩ := hn
      rw [hnone] at hraw
      nomatch hraw
    have hsame : args.HasInt32 "limit" (-1) ↔ n = -1 := ⟨hn.unique, fun h => h ▸ hn⟩
    rw [or_iff_right hraw, hsame, readLimit, hint]
    show limitOf n = .ok none ↔ n = -1
    rcases lt_or_ge 0 n with hpos | hle
    · rw [limitOf_of_pos hpos]
      exact iff_of_false (fun h => nomatch h) (by omega)
    · by_cases hne : n = -1
      · rw [hne]
        exact iff_of_true rfl rfl
      · rw [limitOf_of_refused hle hne]
        exact iff_of_false (fun h => nomatch h) hne
  · rw [readLimit, hint]
    refine iff_of_false (fun h => nomatch h) ?_
    rintro (hnone | hn)
    · rw [hraw] at hnone
      nomatch hnone
    · exact hno _ hn

/-- A limit comes from a positive number. -/
theorem readLimit_eq_some {k : Nat} (h : readLimit args = .ok (some k)) :
    1 ≤ k ∧ args.HasInt32 "limit" k := by
  rcases args.int_cases "limit" (-1) with ⟨-, hint⟩ | ⟨n, hn, hint⟩ | ⟨raw, -, -, hint⟩
  · rw [readLimit, hint] at h
    nomatch h
  · rw [readLimit, hint] at h
    replace h : limitOf n = .ok (some k) := h
    rcases lt_or_ge 0 n with hpos | hle
    · rw [limitOf_of_pos hpos] at h
      obtain rfl := Option.some.inj (Except.ok.inj h)
      obtain ⟨k, rfl⟩ := Int.eq_ofNat_of_zero_le hpos.le
      exact ⟨by omega, hn⟩
    · by_cases hne : n = -1
      · rw [hne] at h
        nomatch h
      · rw [limitOf_of_refused hle hne] at h
        nomatch h
  · rw [readLimit, hint] at h
    nomatch h

/-- The complaint about a limit: it is not positive, or no integer of 32 bits at all. -/
def LimitRefused (args : Arguments) (raw : String) (e : Error) : Prop :=
  (∃ n, args.HasInt32 "limit" n) ∧ e = ⟨.argumentNotPositive token "limit" "4", none⟩ ∨
    (¬ ∃ n, args.HasInt32 "limit" n) ∧ e = ⟨.malformedArgument "limit" raw "an integer", none⟩

theorem readLimit_of_refused (hraw : args.text? "limit" = some raw)
    (hrefused : ∀ n, args.HasInt32 "limit" n → n ≤ 0 ∧ n ≠ -1) :
    ∃ e, readLimit args = .error e ∧ LimitRefused args raw e := by
  rcases args.int_cases "limit" (-1) with ⟨hnone, -⟩ | ⟨n, hn, hint⟩ | ⟨raw', hraw', hno, hint⟩
  · rw [hraw] at hnone
    nomatch hnone
  · obtain ⟨hle, hne⟩ := hrefused n hn
    exact ⟨_, by rw [readLimit, hint]; exact limitOf_of_refused hle hne, .inl ⟨⟨n, hn⟩, rfl⟩⟩
  · obtain rfl := Option.some.inj (hraw.symm.trans hraw')
    exact ⟨_, by rw [readLimit, hint]; rfl, .inr ⟨fun ⟨n, hn⟩ => hno n hn, rfl⟩⟩

/-! ## The arguments beside it -/

theorem readLimit_of_ofArguments (h : ofArguments args = .ok g) :
    readLimit args = .ok g.limit := by
  rw [ofArguments] at h
  cases hedge : args.edge? "from" none with
  | none =>
    rw [hedge] at h
    cases h
  | some edge =>
    rw [hedge] at h
    obtain ⟨step, -, h⟩ := exists_of_bind h
    obtain ⟨-, h⟩ := of_unless h
    obtain ⟨thickness, -, h⟩ := exists_of_bind h
    obtain ⟨-, h⟩ := of_unless h
    obtain ⟨n, hn, h⟩ := exists_of_bind h
    obtain ⟨limit, hlimit, h⟩ := exists_of_bind h
    obtain ⟨offset, -, h⟩ := exists_of_bind h
    obtain ⟨color, -, h⟩ := exists_of_bind h
    obtain rfl := Except.ok.inj h
    rw [readLimit, hn]
    exact hlimit

theorem size_set_limit (key : String) (default : ℤ) (hkey : "limit" ≠ key) :
    (args.set "limit" .flag).size key default = args.size key default := by
  have hother : (args.set "limit" .flag).get? key = args.get? key := by
    rw [Arguments.get?_set, if_neg hkey]
  simp only [Arguments.size, Arguments.pixels?, Arguments.text?, hother]
  rfl

theorem edge?_set_limit (key : String) (default : Option Edge) (hkey : "limit" ≠ key) :
    (args.set "limit" .flag).edge? key default = args.edge? key default := by
  simp only [Arguments.edge?, Arguments.text?, Arguments.get?_set, if_neg hkey]

/-- **A limit that is refused makes the arguments fail**, with its own complaint or with that of an
argument that is looked at before. -/
theorem error_of_refused (hlimit : readLimit args = .error e) :
    ofArguments args = .error e ∨
      ∃ e', ofArguments args = .error e' ∧ ofArguments (args.set "limit" .flag) = .error e' := by
  rw [ofArguments, ofArguments, edge?_set_limit "from" none (by decide),
    size_set_limit "step" 0 (by decide), size_set_limit "thickness" 1 (by decide)]
  cases args.edge? "from" none with
  | none => exact .inr ⟨_, rfl, rfl⟩
  | some edge =>
    cases args.size "step" 0 with
    | error e' => exact .inr ⟨e', rfl, rfl⟩
    | ok step =>
      by_cases hstep : step ≤ 0
      · exact .inr ⟨_, if_pos hstep, if_pos hstep⟩
      cases args.size "thickness" 1 with
      | error e' => exact .inr ⟨e', if_neg hstep, if_neg hstep⟩
      | ok thickness =>
        by_cases hthickness : thickness ≤ 0
        · exact .inr ⟨_, (if_neg hstep).trans (if_pos hthickness),
            (if_neg hstep).trans (if_pos hthickness)⟩
        refine .inl ((if_neg hstep).trans ((if_neg hthickness).trans ?_))
        rw [readLimit] at hlimit
        cases hint : args.int "limit" (-1) with
        | error e' =>
          rw [hint] at hlimit
          obtain rfl := Except.error.inj hlimit
          rfl
        | ok n =>
          rw [hint] at hlimit
          replace hlimit : limitOf n = .error e := hlimit
          show (limitOf n >>= _) = _
          rw [hlimit]
          rfl

/-! ## Lines under a limit -/

theorem length_distances_le (extent step : Float32) (n : ℕ) (d : Float32) :
    (distances extent step n d).length ≤ n := by
  induction n generalizing d with
  | zero => exact Nat.le_refl 0
  | succ n ih =>
    by_cases hd : d < extent
    · rw [distances_of_lt hd, List.length_cons]
      exact Nat.succ_le_succ (ih _)
    · rw [distances_of_not_lt hd]
      exact Nat.zero_le _

theorem length_rects_le {k : ℕ} (hlimit : g.limit = some k) (bounds : Rect Float32) :
    ((Leaf.gridLines g).rects bounds).length ≤ k := by
  rw [Leaf.rects_gridLines, rects, List.length_map, distancesIn, hlimit]
  exact length_distances_le _ _ _ _

/-- **What becomes of a limit.**

* Lines are unlimited if and only if the limit has no value or its value is the number -1.
* Otherwise its value is a positive integer of 32 bits, and no more lines than that are drawn in
  any bounds.
* Every other value is refused, for being not positive or no integer of 32 bits, if no argument is
  refused that would be refused without a limit, too. -/
theorem limit_decided (args : Arguments) :
    (∀ g, ofArguments args = .ok g →
      (g.limit = none ↔ args.text? "limit" = none ∨ args.HasInt32 "limit" (-1)) ∧
      ∀ k, g.limit = some k → 1 ≤ k ∧ args.HasInt32 "limit" k ∧
        ∀ bounds, ((Leaf.gridLines g).rects bounds).length ≤ k) ∧
    ∀ raw, args.text? "limit" = some raw →
      (∀ n, args.HasInt32 "limit" n → n ≤ 0 ∧ n ≠ -1) →
      ∃ e, ofArguments args = .error e ∧
        (LimitRefused args raw e ∨ ofArguments (args.set "limit" .flag) = .error e) := by
  refine ⟨fun g h => ?_, fun raw hraw hrefused => ?_⟩
  · have hlimit := readLimit_of_ofArguments h
    refine ⟨?_, fun k hk => ?_⟩
    · rw [← readLimit_eq_none_iff, hlimit, Except.ok.injEq]
    · obtain ⟨hpos, hread⟩ := readLimit_eq_some (hlimit.trans (congrArg Except.ok hk))
      exact ⟨hpos, hread, length_rects_le hk⟩
  · obtain ⟨e, hlimit, he⟩ := readLimit_of_refused hraw hrefused
    rcases error_of_refused hlimit with h | ⟨e', h, h'⟩
    · exact ⟨e, h, .inl he⟩
    · exact ⟨e', h, .inr h'⟩

/-- Grid lines one pixel apart from the top, with a limit. -/
def limitedArguments (limit : String) : Arguments :=
  .ofList (.ofDensity 1) [("from", .value "top"), ("step", .value "1px"), ("limit", .value limit)]

/-- Lines one pixel apart from the top. -/
def pixelGrid (limit : Option Nat) : GridLines Float32 :=
  ⟨.top, 1, 1, .pixels 0, limit, defaultColor⟩

theorem hasInt32_limitedArguments {limit : String}
    (h : Decimal.readInt32? limit.toList = some n) :
    (limitedArguments limit).HasInt32 "limit" n := by
  have hget : (limitedArguments limit).get? "limit" = some (.value limit) :=
    (Arguments.get?_set _ _ _ _).trans (if_pos rfl)
  exact ⟨limit, by rw [Arguments.text?, hget]; rfl, Decimal.readInt32?_eq_some_iff.mp h⟩

/-- A limit of two is kept, and a limit of zero is refused. -/
theorem limit_decided_of_two :
    ofArguments (limitedArguments "2") = .ok (pixelGrid (some 2)) ∧
      (limitedArguments "2").HasInt32 "limit" 2 ∧
      ((Leaf.gridLines (pixelGrid (some 2))).rects ⟨0, 0, 10, 50⟩).length ≤ 2 ∧
      (limitedArguments "0").text? "limit" = some "0" ∧
      ∃ e, ofArguments (limitedArguments "0") = .error e ∧
        (LimitRefused (limitedArguments "0") "0" e ∨
          ofArguments ((limitedArguments "0").set "limit" .flag) = .error e) := by
  have haccepted : ofArguments (limitedArguments "2") = .ok (pixelGrid (some 2)) := rfl
  obtain ⟨-, hread, hlength⟩ := ((limit_decided (limitedArguments "2")).1 _ haccepted).2 2 rfl
  have hzero : (limitedArguments "0").HasInt32 "limit" 0 := hasInt32_limitedArguments rfl
  refine ⟨haccepted, hread, hlength _, rfl, (limit_decided (limitedArguments "0")).2 "0" rfl ?_⟩
  intro n hn
  obtain rfl := hn.unique hzero
  exact ⟨Int.le_refl 0, by decide⟩

/-- The limit -1 is a negative number, and yet it is not refused: the lines are unlimited. -/
theorem not_refused_of_minus_one :
    (limitedArguments "-1").text? "limit" = some "-1" ∧
      (limitedArguments "-1").HasInt32 "limit" (-1) ∧
      ofArguments (limitedArguments "-1") = .ok (pixelGrid none) ∧
      ((Leaf.gridLines (pixelGrid none)).rects ⟨0, 0, 10, 5⟩).length = 4 :=
  ⟨rfl, hasInt32_limitedArguments rfl, rfl, by decide +kernel⟩

end GridLines
end SpecOverlay
