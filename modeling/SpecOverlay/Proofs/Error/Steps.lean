import SpecOverlay.Error

/-!
# Steps that may fail

Most of what is read or made takes several steps, and the first that fails ends it.  So a
result says that every step before it had one, and these lemmas take it apart, one step at
a time (`exists_of_bind`, `of_unless`).  The others are about results whose error or whose
value is mapped.
-/

namespace SpecOverlay

variable {ε ε' α β : Type}

/-! ## Steps -/

/-- A step had a result, and so had the rest. -/
theorem exists_of_bind {x : Except ε α} {f : α → Except ε β} {b : β}
    (h : (x >>= f) = .ok b) : ∃ a, x = .ok a ∧ f a = .ok b := by
  cases x with
  | error e => cases h
  | ok a => exact ⟨a, rfl, h⟩

/-- A check that has been passed. -/
theorem of_unless {c : Prop} [Decidable c] {e : Error} {f : Unit → Except Error β} {b : β}
    (h : (if c then throw e >>= f else f ()) = .ok b) : ¬ c ∧ f () = .ok b := by
  by_cases hc : c
  · rw [if_pos hc] at h
    cases h
  · rw [if_neg hc] at h
    exact ⟨hc, h⟩

/-! ## Mapped results -/

@[simp] theorem mapError_ok (f : ε → ε') (a : α) :
    (Except.ok a : Except ε α).mapError f = .ok a := rfl

@[simp] theorem mapError_error (f : ε → ε') (e : ε) :
    (Except.error e : Except ε α).mapError f = .error (f e) := rfl

/-- Two results that agree after a map of their values are the same error, or both have
values. -/
theorem error_or_ok_of_map_eq {f : α → β} {x y : Except ε α} (h : x.map f = y.map f) :
    (∃ e, x = .error e ∧ y = .error e) ∨ ∃ a b, x = .ok a ∧ y = .ok b ∧ f a = f b := by
  cases x with
  | error e =>
    cases y with
    | error e' => exact .inl ⟨e, rfl, congrArg Except.error (Except.error.inj h).symm⟩
    | ok b => exact absurd h (by simp [Except.map])
  | ok a =>
    cases y with
    | error e => exact absurd h (by simp [Except.map])
    | ok b => exact .inr ⟨a, b, rfl, rfl, Except.ok.inj h⟩

end SpecOverlay
