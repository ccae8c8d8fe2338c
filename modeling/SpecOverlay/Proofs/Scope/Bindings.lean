import Mathlib.Data.List.Induction
import SpecOverlay.Scope

/-!
# What a scope binds after a history of declarations

Declarations are made one after the other, by name and text or by the text of a whole
line, and some of them are refused.  `bound_early` says what the scope holds afterwards,
in terms of that history alone:

* No stored value refers to a variable (`Resolved`).  A declaration stores what its text
  has been resolved to, and that is a text without an at sign or a value stored before.
  So to resolve a value changes nothing.
* The value of a name is what the last accepted declaration of the name bound, and the text
  of that declaration was evaluated in the variables of its own time (`LastBinds`).  A later
  declaration of another name does not matter, and a text that refers to its own name means
  the value before.
* A declaration is refused for its form, or because it refers to a name without a value
  (`Refused`).  The history is then what it is without that declaration.

`Accepted` and `Refused` say once what a declaration can do; the rest is an induction on
the history, from its last declaration.
-/

namespace SpecOverlay
namespace Scope

/-! ## Histories -/

/-- A declaration that is made on a line with a given number: a name and a text, or the
text of the whole line. -/
inductive Call where
  | declare (line : Nat) (d : Declaration)
  | declareLine (line : Nat) (text : String)

/-- The line that a declaration is made on. -/
def Call.line : Call → Nat
  | declare line _ => line
  | declareLine line _ => line

/-- The name and the text that are declared, unless the form is wrong. -/
def Call.declaration? : Call → Option Declaration
  | declare _ d => some d
  | declareLine _ text => Declaration.read? (Text.trim text.toList)

/-- What a declaration makes of a scope. -/
def apply (s : Scope) : Call → Except Error Scope
  | .declare line d => s.declare line d
  | .declareLine line text => s.declareLine line text

/-- The scope after a declaration, which may have been refused. -/
def after (s : Scope) (call : Call) : Scope :=
  match s.apply call with
  | .ok t => t
  | .error _ => s

/-- The scope after declarations, made in order. -/
def afterAll (s : Scope) (calls : List Call) : Scope :=
  calls.foldl after s

@[simp] theorem afterAll_nil (s : Scope) : s.afterAll [] = s := rfl

theorem afterAll_append (s : Scope) (calls calls' : List Call) :
    s.afterAll (calls ++ calls') = (s.afterAll calls).afterAll calls' :=
  List.foldl_append

theorem afterAll_concat (s : Scope) (calls : List Call) (call : Call) :
    s.afterAll (calls ++ [call]) = (s.afterAll calls).after call :=
  afterAll_append s calls [call]

variable {s t : Scope} {calls : List Call} {call : Call} {name value token : String} {line : Nat}
  {e : Error}

/-! ## References -/

/-- A token refers to a variable if and only if it begins with an at sign. -/
theorem reference?_eq_none_iff : reference? token = none ↔ token.toList.head? ≠ some '@' := by
  rw [reference?]
  cases token.toList with
  | nil => simp
  | cons c cs =>
    by_cases hc : c = '@'
    · subst hc
      simp
    · simp [hc]

/-- A token refers to a name exactly if it is an at sign and the name. -/
theorem reference?_eq_some_iff :
    reference? token = some name ↔ token.toList = '@' :: name.toList := by
  rw [reference?]
  split
  · rename_i cs hcs
    rw [hcs, Option.some_inj, List.cons.injEq, and_iff_right rfl]
    constructor
    · rintro rfl
      rw [String.toList_ofList]
    · rintro rfl
      exact String.ofList_toList
  · rename_i hnot
    exact ⟨fun h => absurd h (by simp), fun h => absurd h (hnot name.toList)⟩

theorem resolve_of_plain (s : Scope) (line : Nat) (h : reference? token = none) :
    s.resolve line token = .ok token := by
  rw [resolve, h]

theorem resolve_of_bound (line : Nat) (h : reference? token = some name)
    (hget : s.get? name = some value) : s.resolve line token = .ok value := by
  simp only [resolve, h, hget]

theorem resolve_of_unbound (line : Nat) (h : reference? token = some name)
    (hget : s.get? name = none) :
    s.resolve line token = .error ⟨.undeclaredVariable name, some line⟩ := by
  simp only [resolve, h, hget]

/-- A resolved token is its own value, or refers to a name that has the value. -/
theorem reference?_of_resolve (h : s.resolve line token = .ok value) :
    (reference? token = none ∧ value = token) ∨
      ∃ name, reference? token = some name ∧ s.get? name = some value := by
  cases href : reference? token with
  | none =>
    rw [resolve_of_plain s line href] at h
    exact .inl ⟨rfl, (Except.ok.inj h).symm⟩
  | some name =>
    cases hget : s.get? name with
    | none =>
      rw [resolve_of_unbound line href hget] at h
      exact absurd h (by simp)
    | some value' =>
      rw [resolve_of_bound line href hget] at h
      exact .inr ⟨name, rfl, by rw [hget, Except.ok.inj h]⟩

/-- A token that is refused refers to a name without a value. -/
theorem unbound_of_resolve (h : s.resolve line token = .error e) :
    ∃ name, reference? token = some name ∧ s.get? name = none ∧
      e = ⟨.undeclaredVariable name, some line⟩ := by
  cases href : reference? token with
  | none =>
    rw [resolve_of_plain s line href] at h
    exact absurd h (by simp)
  | some name =>
    cases hget : s.get? name with
    | none =>
      rw [resolve_of_unbound line href hget] at h
      exact ⟨name, rfl, hget, (Except.error.inj h).symm⟩
    | some value =>
      rw [resolve_of_bound line href hget] at h
      exact absurd h (by simp)

/-! ## One declaration -/

/-- What a declaration binds: the name that is declared, and the value that its text has
in the scope. -/
def Binds (s : Scope) (call : Call) (name value : String) : Prop :=
  ∃ d, call.declaration? = some d ∧ d.name = name ∧ s.resolve call.line d.value = .ok value

/-- The ways in which a declaration is refused: its form is wrong, or it refers to a name
without a value. -/
inductive Refused (s : Scope) : Call → Error → Prop
  | malformed {line : Nat} {text : String}
    (unread : Declaration.read? (Text.trim text.toList) = none) :
    Refused s (.declareLine line text)
      ⟨.malformedVariable (String.ofList (Text.trim text.toList)), some line⟩
  | undeclared {call : Call} {d : Declaration} {name : String}
    (declares : call.declaration? = some d) (refers : reference? d.value = some name)
    (missing : s.get? name = none) :
    Refused s call ⟨.undeclaredVariable name, some call.line⟩

/-- A declaration whose form is right. -/
theorem apply_of_declaration {d : Declaration} (s : Scope) (h : call.declaration? = some d) :
    s.apply call = s.declare call.line d := by
  cases call with
  | declare line d' =>
    obtain rfl : d' = d := Option.some.inj h
    rfl
  | declareLine line text =>
    have hread : Declaration.read? (Text.trim text.toList) = some d := h
    rw [apply, declareLine, Declaration.ofText, hread]
    rfl

/-- **A declaration is refused in one of two ways.** -/
theorem apply_eq_error_iff : s.apply call = .error e ↔ s.Refused call e := by
  constructor
  · intro h
    cases hd : call.declaration? with
    | some d =>
      rw [apply_of_declaration s hd, declare] at h
      cases hvalue : s.resolve call.line d.value with
      | ok value => simp [hvalue, Except.map] at h
      | error e' =>
        obtain ⟨name, href, hmissing, rfl⟩ := unbound_of_resolve hvalue
        rw [hvalue, Except.map, Except.error.injEq] at h
        rw [← h]
        exact .undeclared hd href hmissing
    | none =>
      cases call with
      | declare line d => exact absurd hd (by simp [Call.declaration?])
      | declareLine line text =>
        have hread : Declaration.read? (Text.trim text.toList) = none := hd
        rw [apply, declareLine, Declaration.ofText, hread] at h
        obtain rfl := Except.error.inj h
        exact .malformed hread
  · intro h
    cases h with
    | malformed unread =>
      rw [apply, declareLine, Declaration.ofText, unread]
      rfl
    | undeclared declares refers missing =>
      rw [apply_of_declaration s declares, declare, resolve_of_unbound _ refers missing]
      rfl

/-- **An accepted declaration binds its name to the value of its text, and no other
name.** -/
theorem binds_of_apply (h : s.apply call = .ok t) :
    ∃ name value, s.Binds call name value ∧
      ∀ k, t.get? k = if name = k then some value else s.get? k := by
  cases hd : call.declaration? with
  | none =>
    cases call with
    | declare line d => exact absurd hd (by simp [Call.declaration?])
    | declareLine line text =>
      have hrefused := apply_eq_error_iff.mpr (@Refused.malformed s line text hd)
      exact absurd (h.symm.trans hrefused) (by simp)
  | some d =>
    rw [apply_of_declaration s hd] at h
    obtain ⟨value, hvalue, -⟩ := get?_of_declare h d.name
    refine ⟨d.name, value, ⟨d, hd, rfl, hvalue⟩, fun k => ?_⟩
    obtain ⟨value', hvalue', hget⟩ := get?_of_declare h k
    obtain rfl := Except.ok.inj (hvalue.symm.trans hvalue')
    exact hget

/-- A declaration binds one name to one value. -/
theorem Binds.unique {name' value' : String} (h : s.Binds call name value)
    (h' : s.Binds call name' value') : name = name' ∧ value = value' := by
  obtain ⟨d, hd, rfl, hvalue⟩ := h
  obtain ⟨d', hd', rfl, hvalue'⟩ := h'
  obtain rfl := Option.some.inj (hd.symm.trans hd')
  exact ⟨rfl, Except.ok.inj (hvalue.symm.trans hvalue')⟩

/-- What is refused binds nothing. -/
theorem Refused.not_binds (h : s.Refused call e) (name value : String) :
    ¬ s.Binds call name value := by
  rintro ⟨d, hd, -, hvalue⟩
  cases h with
  | malformed unread => exact absurd (unread.symm.trans hd) (by simp)
  | undeclared declares refers missing =>
    obtain rfl := Option.some.inj (declares.symm.trans hd)
    have hrefused := resolve_of_unbound call.line refers missing
    exact absurd (hrefused.symm.trans hvalue) (by simp)

theorem after_of_refused (h : s.apply call = .error e) : s.after call = s := by
  rw [after, h]

/-- **What a name is bound to after a declaration**: to what the declaration binds it to,
and if it binds the name to nothing, to what it was bound to. -/
theorem get?_after_iff :
    (s.after call).get? name = some value ↔
      s.Binds call name value ∨
        (s.get? name = some value ∧ ∀ v, ¬ s.Binds call name v) := by
  cases h : s.apply call with
  | error e =>
    have hnot := (apply_eq_error_iff.mp h).not_binds name
    rw [after_of_refused h]
    constructor
    · exact fun hget => .inr ⟨hget, hnot⟩
    · rintro (hbinds | ⟨hget, -⟩)
      · exact absurd hbinds (hnot value)
      · exact hget
  | ok t =>
    obtain ⟨name', value', hbinds, hget⟩ := binds_of_apply h
    rw [after, h]
    dsimp only
    rw [hget]
    by_cases hname : name' = name
    · subst hname
      rw [if_pos rfl, Option.some_inj]
      constructor
      · rintro rfl
        exact .inl hbinds
      · rintro (hother | ⟨-, hnot⟩)
        · exact (hbinds.unique hother).2
        · exact absurd hbinds (hnot value')
    · rw [if_neg hname]
      constructor
      · exact fun hold => .inr ⟨hold, fun v hv => hname (hbinds.unique hv).1⟩
      · rintro (hother | ⟨hold, -⟩)
        · exact absurd (hbinds.unique hother).1 hname
        · exact hold

/-! ## Values are resolved -/

/-- No stored value refers to a variable. -/
def Resolved (s : Scope) : Prop :=
  ∀ name value, s.get? name = some value → reference? value = none

theorem resolved_empty : empty.Resolved := by
  intro name value h
  exact absurd h (by simp [empty, get?])

/-- What a token resolves to is no reference. -/
theorem Resolved.eq_none_of_resolve (hs : s.Resolved) (h : s.resolve line token = .ok value) :
    reference? value = none := by
  rcases reference?_of_resolve h with ⟨hplain, rfl⟩ | ⟨name, -, hget⟩
  · exact hplain
  · exact hs name value hget

/-- **A declaration stores no reference.** -/
theorem resolved_after (hs : s.Resolved) (call : Call) : (s.after call).Resolved := by
  intro name value h
  rcases get?_after_iff.mp h with ⟨d, -, -, hvalue⟩ | ⟨hget, -⟩
  · exact hs.eq_none_of_resolve hvalue
  · exact hs name value hget

/-- **No history stores a reference.** -/
theorem resolved_afterAll (hs : s.Resolved) (calls : List Call) : (s.afterAll calls).Resolved := by
  induction calls generalizing s with
  | nil => exact hs
  | cons call calls ih => exact ih (resolved_after hs call)

/-! ## The last accepted declaration -/

/-- The declaration at a place of a history binds a name, in the scope of its time. -/
def BindsAt (calls : List Call) (k : Nat) (name value : String) : Prop :=
  ∃ call, calls[k]? = some call ∧ (empty.afterAll (calls.take k)).Binds call name value

/-- The last declaration of a history that binds the name binds it to the value. -/
def LastBinds (calls : List Call) (name value : String) : Prop :=
  ∃ k, BindsAt calls k name value ∧ ∀ j v, BindsAt calls j name v → j ≤ k

theorem BindsAt.lt_length {k : Nat} (h : BindsAt calls k name value) : k < calls.length := by
  obtain ⟨call, hcall, -⟩ := h
  exact (List.getElem?_eq_some_iff.mp hcall).1

theorem bindsAt_concat_iff {k : Nat} :
    BindsAt (calls ++ [call]) k name value ↔
      BindsAt calls k name value ∨
        (k = calls.length ∧ (empty.afterAll calls).Binds call name value) := by
  constructor
  · rintro ⟨call', hcall', hbinds⟩
    have hk : k < (calls ++ [call]).length := (List.getElem?_eq_some_iff.mp hcall').1
    rw [List.length_append, List.length_singleton, Nat.lt_succ_iff_lt_or_eq] at hk
    rcases hk with hk | rfl
    · rw [List.getElem?_append_left hk] at hcall'
      rw [List.take_append_of_le_length (Nat.le_of_lt hk)] at hbinds
      exact .inl ⟨call', hcall', hbinds⟩
    · rw [List.getElem?_concat_length] at hcall'
      obtain rfl := Option.some.inj hcall'
      rw [List.take_left] at hbinds
      exact .inr ⟨rfl, hbinds⟩
  · rintro (h | ⟨rfl, hbinds⟩)
    · have hk := h.lt_length
      obtain ⟨call', hcall', hbinds⟩ := h
      refine ⟨call', ?_, ?_⟩
      · rwa [List.getElem?_append_left hk]
      · rwa [List.take_append_of_le_length (Nat.le_of_lt hk)]
    · refine ⟨call, List.getElem?_concat_length, ?_⟩
      rwa [List.take_left]

theorem lastBinds_concat_iff :
    LastBinds (calls ++ [call]) name value ↔
      (empty.afterAll calls).Binds call name value ∨
        (LastBinds calls name value ∧ ∀ v, ¬ (empty.afterAll calls).Binds call name v) := by
  constructor
  · rintro ⟨k, hk, hlast⟩
    rcases bindsAt_concat_iff.mp hk with hk | ⟨-, hbinds⟩
    · refine .inr ⟨⟨k, hk, fun j v hj => ?_⟩, fun v hv => ?_⟩
      · exact hlast j v (bindsAt_concat_iff.mpr (.inl hj))
      · have hle := hlast calls.length v (bindsAt_concat_iff.mpr (.inr ⟨rfl, hv⟩))
        exact absurd hk.lt_length (Nat.not_lt.mpr hle)
    · exact .inl hbinds
  · rintro (hbinds | ⟨⟨k, hk, hlast⟩, hnot⟩)
    · refine ⟨calls.length, bindsAt_concat_iff.mpr (.inr ⟨rfl, hbinds⟩), fun j v hj => ?_⟩
      have hj := hj.lt_length
      rw [List.length_append, List.length_singleton] at hj
      exact Nat.le_of_lt_succ hj
    · refine ⟨k, bindsAt_concat_iff.mpr (.inl hk), fun j v hj => ?_⟩
      rcases bindsAt_concat_iff.mp hj with hj | ⟨-, hbinds⟩
      · exact hlast j v hj
      · exact absurd hbinds (hnot v)

/-- **The value of a name is what the last declaration of the name bound.** -/
theorem get?_afterAll_iff (calls : List Call) (name value : String) :
    (empty.afterAll calls).get? name = some value ↔ LastBinds calls name value := by
  induction calls using List.reverseRecOn with
  | nil =>
    constructor
    · intro h
      exact absurd h (by simp [empty, get?])
    · rintro ⟨k, hk, -⟩
      exact absurd hk.lt_length (Nat.not_lt_zero k)
  | append_singleton calls call ih =>
    rw [afterAll_concat, get?_after_iff, lastBinds_concat_iff, ih]

/-- **Variables are bound early and never chain.**  After any declarations, of which some
may have been refused:

* no stored value begins with an at sign;
* what a token resolves to resolves to itself;
* the value of a name is what the last accepted declaration of the name bound, whose text
  was evaluated in the variables of its own time;
* one more declaration that is accepted changes the value of its own name alone, to the
  value that its text has before the declaration;
* one more declaration is refused exactly if its form is wrong or it refers to a name
  without a value, and whatever follows, the scope is then as if it had not been made. -/
theorem bound_early (calls : List Call) :
    (∀ name value, (empty.afterAll calls).get? name = some value →
      value.toList.head? ≠ some '@') ∧
    (∀ line token value, (empty.afterAll calls).resolve line token = .ok value →
      ∀ line', (empty.afterAll calls).resolve line' value = .ok value) ∧
    (∀ name value, (empty.afterAll calls).get? name = some value ↔ LastBinds calls name value) ∧
    (∀ call t, (empty.afterAll calls).apply call = .ok t →
      ∃ name value, (empty.afterAll calls).Binds call name value ∧
        ∀ k, t.get? k = if name = k then some value else (empty.afterAll calls).get? k) ∧
    ∀ call e, ((empty.afterAll calls).apply call = .error e ↔
        (empty.afterAll calls).Refused call e) ∧
      ((empty.afterAll calls).Refused call e →
        ∀ since, empty.afterAll (calls ++ call :: since) = empty.afterAll (calls ++ since)) := by
  have hresolved := resolved_afterAll resolved_empty calls
  refine ⟨fun name value h => ?_, fun line token value h line' => ?_, get?_afterAll_iff calls,
    fun call t h => binds_of_apply h, fun call e => ⟨apply_eq_error_iff, fun h since => ?_⟩⟩
  · exact reference?_eq_none_iff.mp (hresolved name value h)
  · exact resolve_of_plain _ line' (hresolved.eq_none_of_resolve h)
  · have hsame := after_of_refused (apply_eq_error_iff.mpr h)
    rw [afterAll_append, afterAll_append]
    exact congrArg (afterAll · since) hsame

/-- A variable is defined by another one, which is declared again by itself and then anew,
and two declarations are refused. -/
def stepCalls : List Call :=
  [.declareLine 1 "@base=8dp", .declareLine 2 "@step=@base", .declareLine 3 "@base=@base",
    .declareLine 4 "@base = 4dp", .declareLine 5 "@step=@stride", .declare 6 ⟨"base", "@step"⟩,
    .declareLine 7 "@base=16dp"]

theorem bound_early_of_stepCalls :
    LastBinds stepCalls "step" "8dp" ∧ LastBinds stepCalls "base" "16dp" ∧
      (∀ line', (empty.afterAll stepCalls).resolve line' "8dp" = .ok "8dp") ∧
      (empty.afterAll stepCalls).apply (.declareLine 8 "@step=@stride") =
        .error ⟨.undeclaredVariable "stride", some 8⟩ := by
  obtain ⟨-, hself, hlast, -, hrefused⟩ := bound_early stepCalls
  refine ⟨(hlast _ _).mp rfl, (hlast _ _).mp rfl, hself 8 "@step" "8dp" rfl, ?_⟩
  exact (hrefused _ _).1.mpr (.undeclared (d := ⟨"step", "@stride"⟩) rfl rfl rfl)

end Scope
end SpecOverlay
