import SpecOverlay.Layer.GridLines
import SpecOverlay.Proofs.Error.Steps
import SpecOverlay.Proofs.Number.Decimals

/-!
# The progress of grid lines

The distance of a grid line is the one before plus the step, rounded.  A step that is small
beside the distance is lost by rounding, and then the distance never changes again.

One step leads farther in or nowhere (`Single.lt_add_or_add_eq`), so along a whole run the
distances increase, or they increase up to one that is repeated (`increasing_or_lost`, by
induction on the number of lines).  Increasing distances are fewer than the numbers of 32 bits,
so the counter is never what ends them (`length_lt_unlimited`).  Hence lines either make
progress, and end at the far side or at the limit that is given (`Progresses`), or they come to
a standstill, and end only at the limit or at the end of the counter (`StandsStill`).  What
decides is whether the step is lost, and it is not lost within `2 ^ 24` steps from the edge
(`progress_of_accepted`).
-/

namespace SpecOverlay

namespace GridLines

/-! ## Sums of steps -/

section Sums

variable {α : Type} [Add α] [LT α] [DecidableLT α] {extent step d x : α}

theorem distances_of_lt (h : d < extent) (n : ℕ) :
    distances extent step (n + 1) d = d :: distances extent step n (d + step) :=
  if_pos h

theorem distances_of_not_lt (h : ¬ d < extent) (n : ℕ) : distances extent step n d = [] := by
  cases n with
  | zero => rfl
  | succ n => exact if_neg h

theorem lt_of_mem_distances {n : ℕ} (h : x ∈ distances extent step n d) : x < extent := by
  induction n generalizing d with
  | zero => exact absurd h List.not_mem_nil
  | succ n ih =>
    by_cases hd : d < extent
    · rw [distances_of_lt hd] at h
      rcases List.mem_cons.mp h with rfl | h
      · exact hd
      · exact ih h
    · rw [distances_of_not_lt hd] at h
      exact absurd h List.not_mem_nil

/-- The lines begin with the given distance, if there are any. -/
theorem eq_of_mem_head?_distances {n : ℕ} (h : x ∈ (distances extent step n d).head?) : x = d := by
  cases n with
  | zero => exact absurd h (Option.not_mem_none _)
  | succ n =>
    by_cases hd : d < extent
    · rw [distances_of_lt hd] at h
      exact (Option.some.inj h).symm
    · rw [distances_of_not_lt hd] at h
      exact absurd h (Option.not_mem_none _)

/-- The lines end with their number, or before a distance that does not lie before the extent. -/
theorem length_distances (extent step : α) (n : ℕ) (d : α) :
    (distances extent step n d).length = n ∨
      ¬ (· + step)^[(distances extent step n d).length] d < extent := by
  induction n generalizing d with
  | zero => exact .inl rfl
  | succ n ih =>
    by_cases hd : d < extent
    · rw [distances_of_lt hd, List.length_cons, Function.iterate_succ_apply]
      exact (ih (d + step)).imp_left (congrArg Nat.succ)
    · rw [distances_of_not_lt hd]
      exact .inr hd

/-- A step that is lost is lost again and again. -/
theorem distances_of_lost (h : d < extent) (hlost : d + step = d) (n : ℕ) :
    distances extent step n d = List.replicate n d := by
  induction n with
  | zero => rfl
  | succ n ih => rw [distances_of_lt h, hlost, ih, List.replicate_succ]

end Sums

/-! ## Single precision -/

open Single (maxInt32 value?)

variable {extent step : Float32}

theorem isChain_iff {l : List Float32} : l.IsChain (· < ·) ↔ l.Pairwise (· < ·) :=
  have : IsTrans Float32 (· < ·) := ⟨fun _ _ _ => Single.lt_trans⟩
  List.isChain_iff_pairwise

/-- **The distances increase, or they increase up to one beside which the step is lost**, and
this one is repeated until there are as many lines as are allowed. -/
theorem increasing_or_lost (hstep : ∀ d, d < extent → d < d + step ∨ d + step = d) (n : ℕ)
    (d : Float32) :
    (distances extent step n d).IsChain (· < ·) ∨
      ∃ before x count, distances extent step n d = before ++ List.replicate (count + 2) x ∧
        (before ++ [x]).IsChain (· < ·) ∧ x + step = x ∧
        (distances extent step n d).length = n := by
  induction n generalizing d with
  | zero => exact .inl .nil
  | succ n ih =>
    by_cases hd : d < extent
    · rcases hstep d hd with hlt | hlost
      · -- the next distance is the head of the others
        have hhead : ∀ y ∈ (distances extent step n (d + step)).head?, d < y :=
          fun y hy => eq_of_mem_head?_distances hy ▸ hlt
        rw [distances_of_lt hd]
        rcases ih (d + step) with h | ⟨before, x, count, heq, hchain, hlost, hlength⟩
        · exact .inl (List.isChain_cons.mpr ⟨hhead, h⟩)
        · refine .inr ⟨d :: before, x, count, by rw [heq, List.cons_append], ?_, hlost,
            by rw [List.length_cons, hlength]⟩
          rw [heq] at hhead
          refine List.isChain_cons.mpr ⟨?_, hchain⟩
          cases before <;> exact hhead
      · rw [distances_of_lost hd hlost]
        cases n with
        | zero => exact .inl (.singleton d)
        | succ n =>
          exact .inr ⟨[], d, n, rfl, .singleton d, hlost, List.length_replicate⟩
    · rw [distances_of_not_lt hd]
      exact .inl .nil

/-- There are as many numbers as 32 bits can tell apart, at most. -/
theorem length_le_of_nodup {l : List Float32} (h : l.Nodup) : l.length ≤ 2 ^ 32 := by
  have hinj : Function.Injective fun x : Float32 => x.toBits.toBitVec.toFin := fun a b hab =>
    Float32.toBits_inj.mp (UInt32.toBitVec_inj.mp (BitVec.toFin_inj.mp hab))
  have hle := (h.map hinj).length_le_card
  rwa [List.length_map, Fintype.card_fin] at hle

/-- **Increasing distances are fewer than 32 bits count**: infinity and what is not a number are
none of them. -/
theorem length_lt_unlimited {l : List Float32} (h : l.Pairwise (· < ·))
    (hextent : ∀ d ∈ l, d < extent) : l.length < unlimited := by
  have hne {a b : Float32} (hlt : a < b) : a ≠ b := fun heq => Single.lt_irrefl b (heq ▸ hlt)
  have hnumber (x : Float32) (hx : Single.decode x = .infinity .positive ∨
      Single.decode x = .notANumber) : x ∉ l := by
    intro hmem
    rcases Single.value_of_lt (hextent x hmem) with ⟨p, hp⟩ | hneg
    · rw [Single.value?] at hp
      rcases hx with hx | hx <;> simp [hx, Single.valueOf] at hp
    · rcases hx with hx | hx <;> simp [hx] at hneg
  have hall : (Single.infinity :: Single.notANumber :: l).Nodup := by
    refine List.nodup_cons.mpr ⟨?_, List.nodup_cons.mpr ⟨hnumber _ (.inr rfl), h.imp hne⟩⟩
    have hdecode : Single.decode Single.infinity ≠ Single.decode Single.notANumber := fun h =>
      Float.Model.UnpackedFloat.noConfusion h
    rw [List.mem_cons, not_or]
    exact ⟨fun h => hdecode (congrArg Single.decode h), hnumber _ (.inl rfl)⟩
  have hle := length_le_of_nodup hall
  rw [List.length_cons, List.length_cons] at hle
  rw [unlimited]
  omega

theorem exists_value_add {o p q : ℚ} {d : Float32} (hd : value? d = some p)
    (hstep : value? step = some q) (hq : 0 < q) (hop : o ≤ p) (h : d + step < extent) :
    ∃ r, value? (d + step) = some r ∧ o ≤ r := by
  rcases Single.add_pos_cases hd hstep hq with ⟨r, hr, hle, -⟩ | hinfinity
  · exact ⟨r, hr, hop.trans hle⟩
  · exact absurd h (Single.not_lt_of_infinity hinfinity)

/-- Sums of positive steps have a value that is not less than the first one. -/
theorem value_of_mem_distances {o q : ℚ} {d x : Float32} {n : ℕ} (hstep : value? step = some q)
    (hq : 0 < q) (hd : d < extent → ∃ p, value? d = some p ∧ o ≤ p)
    (hx : x ∈ distances extent step n d) : ∃ p, value? x = some p ∧ o ≤ p := by
  induction n generalizing d with
  | zero => exact absurd hx List.not_mem_nil
  | succ n ih =>
    by_cases hlt : d < extent
    · rw [distances_of_lt hlt] at hx
      obtain ⟨p, hp, hop⟩ := hd hlt
      rcases List.mem_cons.mp hx with rfl | hx
      · exact ⟨p, hp, hop⟩
      · exact ih (fun hnext => exists_value_add hp hstep hq hop hnext) hx
    · rw [distances_of_not_lt hlt] at hx
      exact absurd hx List.not_mem_nil

/-! ## Accepted arguments -/

theorem toSize_le (px : Float32) : Dimension.toSize px ≤ maxInt32 := by
  have hmem := Single.roundToInt_mem px
  rw [Dimension.toSize]
  split
  · exact hmem.2
  · split <;> decide

theorem size_le {args : Arguments} {key : String} {default n : ℤ} (hdefault : default ≤ maxInt32)
    (h : args.size key default = .ok n) : n ≤ maxInt32 := by
  rw [Arguments.size] at h
  cases hpx : args.pixels? key with
  | error e => simp [hpx, Except.map] at h
  | ok px =>
    rw [hpx] at h
    obtain rfl := Except.ok.inj h
    cases px with
    | none => exact hdefault
    | some px => exact toSize_le px

/-- The step and the thickness of accepted arguments are positive. -/
theorem positive_of_ofArguments {args : Arguments} {g : GridLines Float32}
    (h : ofArguments args = .ok g) : (0 < g.step ∧ g.step ≤ maxInt32) ∧ 0 < g.thickness := by
  rw [ofArguments] at h
  cases hedge : args.edge? "from" none with
  | none =>
    rw [hedge] at h
    cases h
  | some edge =>
    rw [hedge] at h
    obtain ⟨step, hstep, h⟩ := exists_of_bind h
    by_cases hpos : step ≤ 0
    · rw [if_pos hpos] at h
      cases h
    rw [if_neg hpos] at h
    obtain ⟨thickness, hthickness, h⟩ := exists_of_bind h
    by_cases hpos' : thickness ≤ 0
    · rw [if_pos hpos'] at h
      cases h
    rw [if_neg hpos'] at h
    obtain ⟨n, -, h⟩ := exists_of_bind h
    obtain ⟨limit, -, h⟩ := exists_of_bind h
    obtain ⟨offset, -, h⟩ := exists_of_bind h
    obtain ⟨color, -, h⟩ := exists_of_bind h
    obtain rfl := Except.ok.inj h
    exact ⟨⟨not_le.mp hpos, size_le (by decide) hstep⟩, not_le.mp hpos'⟩

/-! ## Progress -/

/-- Where a line after `k` others would begin. -/
def distanceAt (g : GridLines Float32) (bounds : Rect Float32) (k : ℕ) : Float32 :=
  (· + (g.step : Float32))^[k] (g.offset.resolve (bounds.extent g.edge) + (g.step : Float32))

/-- Each line is farther in than the one before, and the lines end because the given limit is
reached, or because the next one would not begin before the far side. -/
structure Progresses (g : GridLines Float32) (bounds : Rect Float32) : Prop where
  increasing : (g.distancesIn bounds).Pairwise (· < ·)
  ends : g.limit = some (g.distancesIn bounds).length ∨
    ¬ g.distanceAt bounds (g.distancesIn bounds).length < bounds.extent g.edge

/-- After some lines the step is lost by rounding.  Then at least two lines are drawn at the same
distance, and the lines end only when as many are drawn as are allowed. -/
structure StandsStill (g : GridLines Float32) (bounds : Rect Float32) (before : List Float32)
    (d : Float32) (count : ℕ) : Prop where
  distances_eq : g.distancesIn bounds = before ++ List.replicate count d
  increasing : (before ++ [d]).Pairwise (· < ·)
  two_le : 2 ≤ count
  lost : d + (g.step : Float32) = d
  length_eq : (g.distancesIn bounds).length = g.limit.getD unlimited

variable {args : Arguments} {g : GridLines Float32}

theorem StandsStill.not_progresses {bounds : Rect Float32} {before : List Float32} {d : Float32}
    {count : ℕ} (h : g.StandsStill bounds before d count) : ¬ g.Progresses bounds := by
  intro hprogress
  have hincreasing := hprogress.increasing
  rw [h.distances_eq] at hincreasing
  have hrepeated := (List.pairwise_append.mp hincreasing).2.1
  obtain ⟨count, rfl⟩ := Nat.exists_eq_add_of_le' h.two_le
  exact Single.lt_irrefl d ((List.pairwise_cons.mp hrepeated).1 d List.mem_cons_self)

theorem progresses_of_increasing {bounds : Rect Float32}
    (h : (g.distancesIn bounds).Pairwise (· < ·)) : g.Progresses bounds where
  increasing := h
  ends := by
    have hlt : (g.distancesIn bounds).length < unlimited :=
      length_lt_unlimited h fun _ hd => lt_of_mem_distances hd
    have hend : (g.distancesIn bounds).length = g.limit.getD unlimited ∨
        ¬ g.distanceAt bounds (g.distancesIn bounds).length < bounds.extent g.edge :=
      length_distances _ _ _ _
    refine hend.imp_left fun hlength => ?_
    rw [hlength] at hlt ⊢
    cases hlimit : g.limit with
    | some n => rfl
    | none =>
      rw [hlimit] at hlt
      exact absurd hlt (Nat.lt_irrefl _)

/-- **Lines make progress or they come to a standstill.** -/
theorem progresses_or_standsStill (h : ofArguments args = .ok g) (bounds : Rect Float32) :
    g.Progresses bounds ∨ ∃ before d count, g.StandsStill bounds before d count := by
  obtain ⟨⟨hpos, hmax⟩, -⟩ := positive_of_ofArguments h
  obtain ⟨q, hstep, hq⟩ := Single.value_intCast hpos hmax
  have hnext (d : Float32) (hd : d < bounds.extent g.edge) :
      d < d + (g.step : Float32) ∨ d + (g.step : Float32) = d :=
    Single.lt_add_or_add_eq hd hstep (by linarith)
  refine (increasing_or_lost hnext (g.limit.getD unlimited) _).imp
    (fun hchain => progresses_of_increasing (isChain_iff.mp hchain)) ?_
  rintro ⟨before, d, count, heq, hchain, hlost, hlength⟩
  exact ⟨before, d, count + 2, heq, isChain_iff.mp hchain, Nat.le_add_left 2 count, hlost, hlength⟩

/-- **Lines make progress unless the step is lost**: then, and only then, they come to a
standstill.  The step is not lost if the offset lies above `-2 ^ 24` steps and the extent is at
most `2 ^ 24` steps. -/
theorem progress_of_accepted (h : ofArguments args = .ok g) (bounds : Rect Float32) :
    (g.Progresses bounds ↔ ¬ ∃ before d count, g.StandsStill bounds before d count) ∧
      ∀ o e q, value? (g.offset.resolve (bounds.extent g.edge)) = some o →
        value? (bounds.extent g.edge) = some e → value? (g.step : Float32) = some q →
        -(2 ^ 24 * q) < o → e ≤ 2 ^ 24 * q → g.Progresses bounds := by
  refine ⟨⟨fun hprogress ⟨_, _, _, hstill⟩ => hstill.not_progresses hprogress,
    (progresses_or_standsStill h bounds).resolve_right⟩, ?_⟩
  intro o e q ho he hstep hlow hhigh
  refine (progresses_or_standsStill h bounds).resolve_right ?_
  rintro ⟨before, d, count, hstill⟩
  obtain ⟨⟨hpos, hmax⟩, -⟩ := positive_of_ofArguments h
  obtain ⟨q', hstep', hq⟩ := Single.value_intCast hpos hmax
  obtain rfl : q' = q := Option.some.inj (hstep'.symm.trans hstep)
  have hmem : d ∈ g.distancesIn bounds := by
    rw [hstill.distances_eq]
    exact List.mem_append_right _ (List.mem_replicate.mpr ⟨by have := hstill.two_le; omega, rfl⟩)
  obtain ⟨p, hp, hop⟩ := value_of_mem_distances hstep (by linarith)
    (fun hlt => exists_value_add ho hstep (by linarith) le_rfl hlt) hmem
  have hpe : p < e := (Single.lt_iff_of_value hp he).mp (lt_of_mem_distances hmem)
  have habs : |p| < 2 ^ 24 * q' := abs_lt.mpr ⟨by linarith, by linarith⟩
  have hlt := Single.lt_add_of_abs_lt hp hstep hq habs
  rw [hstill.lost] at hlt
  exact Single.lt_irrefl d hlt

/-- Grid lines from the top with a step, and possibly an offset, in pixels. -/
def gridArguments (step : String) (offset : Option String) : Arguments :=
  .ofList (.ofDensity 1) ([("from", .value "top"), ("step", .value step)] ++
    offset.toList.map fun px => ("offset", .value px))

/-- Lines a number of pixels apart from the top, behind an offset. -/
def topGrid (step : Int) (offset : Float32) : GridLines Float32 :=
  ⟨.top, step, 1, .pixels offset, none, defaultColor⟩

/-- Four lines one pixel apart from the bottom. -/
def bottomGrid : GridLines Float32 :=
  ⟨.bottom, 1, 1, .pixels 0, some 4, defaultColor⟩

/-- Lines five pixels apart make progress in 16 pixels. -/
theorem progress_of_small_step :
    ofArguments (gridArguments "5px" none) = .ok (topGrid 5 0) ∧
      (topGrid 5 0).Progresses ⟨0, 0, 10, 16⟩ := by
  have haccepted : ofArguments (gridArguments "5px" none) = .ok (topGrid 5 0) := rfl
  have hoffset : value? ((topGrid 5 0).offset.resolve (16 - 0)) = some 0 := by decide +kernel
  have hextent : value? (16 - 0) = some 16 := by decide +kernel
  have hstep : value? ((5 : ℤ) : Float32) = some 5 := by decide +kernel
  exact ⟨haccepted, (progress_of_accepted haccepted ⟨0, 0, 10, 16⟩).2 0 16 5 hoffset hextent hstep
    (by norm_num) (by norm_num)⟩

/-- Behind an offset of `2 ^ 24` pixels a step of one pixel is lost, and as many lines as can be
counted are drawn there.  From a bottom edge as far away, lines at different distances become the
same rectangle, although the step is not lost. -/
theorem not_progresses_of_large_offset :
    ofArguments (gridArguments "1px" (some "16777216px")) = .ok (topGrid 1 16777216) ∧
      (topGrid 1 16777216).distancesIn ⟨0, 0, 10, 16777300⟩ =
        List.replicate unlimited 16777216 ∧
      ¬ (topGrid 1 16777216).Progresses ⟨0, 0, 10, 16777300⟩ ∧
      bottomGrid.distancesIn ⟨0, 0, 10, 33554432⟩ = [1, 2, 3, 4] ∧
      (bottomGrid.rects ⟨0, 0, 10, 33554432⟩)[2]? =
        (bottomGrid.rects ⟨0, 0, 10, 33554432⟩)[3]? := by
  have hlt : (16777216 : Float32) < 16777300 - 0 := by decide +kernel
  have hlost : (16777216 : Float32) + ((1 : ℤ) : Float32) = 16777216 := rfl
  have hdistances : (topGrid 1 16777216).distancesIn ⟨0, 0, 10, 16777300⟩ =
      List.replicate unlimited 16777216 :=
    distances_of_lost hlt hlost unlimited
  have hlength : ((topGrid 1 16777216).distancesIn ⟨0, 0, 10, 16777300⟩).length = unlimited := by
    rw [hdistances, List.length_replicate]
  have hstill : (topGrid 1 16777216).StandsStill ⟨0, 0, 10, 16777300⟩ [] 16777216 unlimited :=
    ⟨hdistances, List.pairwise_singleton _ _, by decide, hlost, hlength⟩
  exact ⟨rfl, hdistances, hstill.not_progresses, by decide +kernel, by decide +kernel⟩

end GridLines
end SpecOverlay
