import Mathlib.Data.List.Forall2
import SpecOverlay.Proofs.LayerSpec.Reading
import SpecOverlay.Proofs.Scope.Bindings

/-!
# Variables on a layer line

A layer line is read in a scope.  What the scope holds enters at one point only: a value
that refers to a variable is replaced by what the variable is bound to, after the line
has been cut into words and the word into a key and a value.  So the text of a value
never takes part in the cutting (`substitution_hygienic`):

* To write values in place of references is to change nothing, as long as the values can
  stand on a line.  `Substitution` says what it means that a line is written so.
* In any two scopes a line has the same type, indent, keys and flags.  If the scopes agree on
  the names that the line refers to (`references`), it reads the same.

Both parts compare two readings of a line word by word (`addArguments_congr`,
`sameShape_addArguments`).
-/

namespace SpecOverlay
namespace LayerSpec

variable {s s' : Scope} {scale : Scale} {line : Nat} {text : String} {w w' : List Char}
  {ws ws' : List (List Char)} {key : String} {a : Argument} {args args' : Arguments}

/-! ## One word -/

/-- The name that a word refers to. -/
def referenceOf? (w : List Char) : Option String :=
  match readArgument? w with
  | some (_, .value text) => Scope.reference? text
  | _ => none

/-- The names that the arguments on a line refer to. -/
def references (text : String) : List String :=
  (Text.words text.toList).tail.filterMap referenceOf?

/-- A word that is read has the key that it is written with, and is a flag if it is written
as one. -/
theorem exists_written_of_readWord (h : readWord s line w = .ok (key, a)) :
    ∃ b, readArgument? w = some (key, b) ∧ (a = .flag ↔ b = .flag) := by
  rw [readWord] at h
  cases hread : readArgument? w with
  | none => simp [hread] at h
  | some entry =>
    obtain ⟨key', b⟩ := entry
    simp only [hread] at h
    cases b with
    | flag =>
      obtain ⟨rfl, rfl⟩ := Prod.mk.inj (Except.ok.inj h)
      exact ⟨.flag, rfl, Iff.rfl⟩
    | value text =>
      rw [resolveArgument] at h
      cases hvalue : s.resolve line text with
      | error e => simp [hvalue, Except.map] at h
      | ok value =>
        rw [hvalue] at h
        obtain ⟨rfl, rfl⟩ := Prod.mk.inj (Except.ok.inj h)
        exact ⟨.value text, rfl, by simp⟩

/-- A word reads the same in scopes that agree on the name it refers to. -/
theorem readWord_eq_of_agree (h : ∀ name ∈ referenceOf? w, s'.get? name = s.get? name) :
    readWord s' line w = readWord s line w := by
  rw [readWord, readWord]
  cases hread : readArgument? w with
  | none => rfl
  | some entry =>
    obtain ⟨key, a⟩ := entry
    cases a with
    | flag => rfl
    | value text =>
      have hsame : s'.resolve line text = s.resolve line text := by
        cases href : Scope.reference? text with
        | none => rw [Scope.resolve_of_plain s' line href, Scope.resolve_of_plain s line href]
        | some name =>
          have hget := h name (by simp only [referenceOf?, hread, href, Option.mem_some_self])
          simp only [Scope.resolve, href, hget]
      simp only [resolveArgument, hsame]

/-! ## A line, word by word -/

/-- Lines whose words read the same give the same arguments. -/
theorem addArguments_congr
    (h : List.Forall₂ (fun w w' => readWord s' line w' = readWord s line w) ws ws')
    (args : Arguments) : addArguments s' line args ws' = addArguments s line args ws := by
  induction h generalizing args with
  | nil => rfl
  | @cons w w' ws ws' hw _ ih =>
    rw [addArguments_cons, addArguments_cons, hw]
    cases readWord s line w with
    | error e => rfl
    | ok entry => exact ih _

/-- **Lines with the same type and the same indent, whose words read the same, read the
same.** -/
theorem ofText_congr {text' : String} {kind : List Char}
    (hwords : Text.words text.toList = kind :: ws) (hwords' : Text.words text'.toList = kind :: ws')
    (hindent : indentOf text'.toList = indentOf text.toList)
    (h : List.Forall₂ (fun w w' => readWord s' line w' = readWord s line w) ws ws') :
    ofText s' scale line text' = ofText s scale line text := by
  simp only [ofText, hwords, hwords', hindent, addArguments_congr h]

/-! ## Values in place of references -/

/-- A word that refers to a variable is written with the value of the variable, which has
characters and no blanks, or a word is written as it is. -/
inductive Substitutes (s : Scope) : List Char → List Char → Prop
  | keep (w : List Char) : Substitutes s w w
  | replace {w : List Char} {key text name value : String}
    (reads : readArgument? w = some (key, .value text))
    (refers : Scope.reference? text = some name) (bound : s.get? name = some value)
    (word : Text.IsWord value.toList) :
    Substitutes s w (key.toList ++ '=' :: value.toList)

/-- A line is written as another one, with values in place of some references. -/
structure Substitution (s : Scope) (l l' : Text.Layout) : Prop where
  lead_eq : l'.lead = l.lead
  first_eq : l'.first = l.first
  rest : List.Forall₂ (fun p p' => p'.gap = p.gap ∧ Substitutes s p.word p'.word) l.rest l'.rest
  tail_eq : l'.tail = l.tail

/-- **A value in place of a reference reads the same**, since it is no reference itself. -/
theorem Substitutes.readWord_eq (hs : s.Resolved) (h : Substitutes s w w') (line : Nat) :
    readWord s line w' = readWord s line w := by
  cases h with
  | keep => rfl
  | @replace key text name value reads refers bound word =>
    have hkey := (writes_of_readArgument? reads).isKey
    have hplain := Scope.resolve_of_plain s line (hs name value bound)
    have hbound := Scope.resolve_of_bound line refers bound
    simp only [readWord, (writes_append hkey word.1).readArgument?_eq, reads, resolveArgument, hplain,
      hbound]

/-- **To write values in place of references changes nothing.** -/
theorem ofText_of_substitution (hs : s.Resolved) {l l' : Text.Layout} (h : Substitution s l l')
    (scale : Scale) (line : Nat) :
    ofText s scale line (String.ofList l'.text) = ofText s scale line (String.ofList l.text) := by
  have hwords : List.Forall₂ (fun w w' => readWord s line w' = readWord s line w)
      (l.rest.map Text.SpacedWord.word) (l'.rest.map Text.SpacedWord.word) := by
    rw [List.forall₂_map_left_iff, List.forall₂_map_right_iff]
    exact h.rest.imp fun _ _ hp => hp.2.readWord_eq hs line
  have htext : Text.words (String.ofList l.text).toList =
      l.first :: l.rest.map Text.SpacedWord.word := by
    rw [String.toList_ofList, l.words_text, Text.Layout.words]
  have htext' : Text.words (String.ofList l'.text).toList =
      l.first :: l'.rest.map Text.SpacedWord.word := by
    rw [String.toList_ofList, l'.words_text, Text.Layout.words, h.first_eq]
  refine ofText_congr htext htext' ?_ hwords
  rw [String.toList_ofList, String.toList_ofList, indentOf_text, indentOf_text, h.lead_eq]

/-! ## Two scopes -/

/-- Two collections of arguments have the same keys and the same flags. -/
def SameShape (args args' : Arguments) : Prop :=
  ∀ key, args'.has key = args.has key ∧ (args'.get? key = some .flag ↔ args.get? key = some .flag)

theorem sameShape_set (h : SameShape args args') {b : Argument} (hab : b = .flag ↔ a = .flag) :
    SameShape (args.set key a) (args'.set key b) := by
  intro k
  rw [Arguments.has, Arguments.has, Arguments.get?_set, Arguments.get?_set]
  by_cases hk : key = k
  · rw [if_pos hk, if_pos hk, Option.some_inj, Option.some_inj]
    exact ⟨rfl, hab⟩
  · rw [if_neg hk, if_neg hk]
    exact h k

/-- **The words of a line add the same keys and the same flags in any scope.** -/
theorem sameShape_addArguments {r r' : Arguments} (h : SameShape args args')
    (hr : addArguments s line args ws = .ok r) (hr' : addArguments s' line args' ws = .ok r') :
    SameShape r r' := by
  induction ws generalizing args args' with
  | nil =>
    obtain rfl := Except.ok.inj hr
    obtain rfl := Except.ok.inj hr'
    exact h
  | cons w ws ih =>
    rw [addArguments_cons] at hr hr'
    cases hread : readWord s line w with
    | error e =>
      rw [hread] at hr
      exact absurd hr (by simp [Except.bind])
    | ok entry =>
      cases hread' : readWord s' line w with
      | error e =>
        rw [hread'] at hr'
        exact absurd hr' (by simp [Except.bind])
      | ok entry' =>
        obtain ⟨key, a⟩ := entry
        obtain ⟨key', a'⟩ := entry'
        obtain ⟨b, hb, hab⟩ := exists_written_of_readWord hread
        obtain ⟨b', hb', hab'⟩ := exists_written_of_readWord hread'
        obtain ⟨rfl, rfl⟩ := Prod.mk.inj (Option.some.inj (hb.symm.trans hb'))
        rw [hread] at hr
        rw [hread'] at hr'
        exact ih (sameShape_set h (hab'.trans hab.symm)) hr hr'

/-- A line reads the same in scopes that agree on the names it refers to. -/
theorem ofText_eq_of_agree (h : ∀ name ∈ references text, s'.get? name = s.get? name) :
    ofText s' scale line text = ofText s scale line text := by
  rw [references] at h
  cases hwords : Text.words text.toList with
  | nil => simp only [ofText, hwords]
  | cons kind ws =>
    rw [hwords, List.tail_cons] at h
    refine ofText_congr hwords hwords rfl (List.forall₂_same.mpr fun w hw => ?_)
    exact readWord_eq_of_agree fun name hname =>
      h name (List.mem_filterMap.mpr ⟨w, hw, hname⟩)

/-- What a line says in two scopes in which it can be read. -/
theorem shape_of_ofText {spec spec' : LayerSpec} (h : ofText s scale line text = .ok spec)
    (h' : ofText s' scale line text = .ok spec') :
    spec'.kind = spec.kind ∧ spec'.indent = spec.indent ∧
      SameShape spec.arguments spec'.arguments := by
  obtain ⟨kind, ws, hwords, hkind, hindent, hargs⟩ := exists_words_of_ofText h
  obtain ⟨kind', ws', hwords', hkind', hindent', hargs'⟩ := exists_words_of_ofText h'
  obtain ⟨rfl, rfl⟩ := List.cons.inj (hwords.symm.trans hwords')
  exact ⟨hkind'.trans hkind.symm, hindent'.trans hindent.symm,
    sameShape_addArguments (fun _ => ⟨rfl, Iff.rfl⟩) hargs hargs'⟩

/-- **The substitution of variables is hygienic.**  Let a line be read in a scope that
declarations have made.

* With values in place of any of its references, as far as these have characters and no
  blanks, it reads the same.
* In any two scopes it has the same type, indent, keys and flags, if it can be read in
  both; and it reads the same if they agree on the names that it refers to. -/
theorem substitution_hygienic {calls : List Scope.Call} {spec : LayerSpec}
    (h : ofText (Scope.empty.afterAll calls) scale line text = .ok spec) :
    (∃ l : Text.Layout, l.text = text.toList) ∧
    (∀ l l' : Text.Layout, l.text = text.toList →
      Substitution (Scope.empty.afterAll calls) l l' →
      ofText (Scope.empty.afterAll calls) scale line (String.ofList l'.text) = .ok spec) ∧
    ∀ (s s' : Scope) (t t' : LayerSpec),
      ofText s scale line text = .ok t → ofText s' scale line text = .ok t' →
      t'.kind = t.kind ∧ t'.indent = t.indent ∧
      (∀ key, t'.arguments.has key = t.arguments.has key ∧
        (t'.arguments.get? key = some .flag ↔ t.arguments.get? key = some .flag)) ∧
      ((∀ name ∈ references text, s'.get? name = s.get? name) → t' = t) := by
  refine ⟨?_, fun l l' hl hsubst => ?_, fun s s' t t' ht ht' => ?_⟩
  · obtain ⟨kind, ws, hwords, -⟩ := exists_words_of_ofText h
    refine Text.exists_layout _ fun hblank => ?_
    rw [Text.words_of_blanks hblank] at hwords
    exact absurd hwords (by simp)
  · have hresolved := Scope.resolved_afterAll Scope.resolved_empty calls
    rw [ofText_of_substitution hresolved hsubst, hl, String.ofList_toList]
    exact h
  · obtain ⟨hkind, hindent, hshape⟩ := shape_of_ofText ht ht'
    refine ⟨hkind, hindent, hshape, fun hagree => ?_⟩
    exact Except.ok.inj (ht'.symm.trans ((ofText_eq_of_agree hagree).trans ht))

/-- Variables of which one is defined by another and one has blanks in its value. -/
def gridCalls : List Scope.Call :=
  [.declareLine 1 "@base=8dp", .declareLine 2 "@step=@base", .declareLine 3 "@note=all  edges"]

/-- A line that refers to all of them. -/
def gridLayout : Text.Layout where
  lead := [' ', ' ']
  first := "grid-lines".toList
  rest :=
    [⟨[' '], "step=@step".toList, by decide, by decide, by decide⟩,
     ⟨[' ', '\t'], "note=@note".toList, by decide, by decide, by decide⟩,
     ⟨[' '], "offset=@base".toList, by decide, by decide, by decide⟩,
     ⟨[' '], "outside".toList, by decide, by decide, by decide⟩]
  tail := []
  blanks_lead := by decide
  isWord_first := by decide
  blanks_tail := by decide

/-- The line with the value of one reference in its place. -/
def writtenLayout : Text.Layout :=
  { gridLayout with
    rest :=
      [⟨[' '], "step=8dp".toList, by decide, by decide, by decide⟩,
       ⟨[' ', '\t'], "note=@note".toList, by decide, by decide, by decide⟩,
       ⟨[' '], "offset=@base".toList, by decide, by decide, by decide⟩,
       ⟨[' '], "outside".toList, by decide, by decide, by decide⟩] }

theorem substitution_writtenLayout :
    Substitution (Scope.empty.afterAll gridCalls) gridLayout writtenLayout := by
  refine ⟨rfl, rfl, ?_, rfl⟩
  refine .cons ⟨rfl, ?_⟩ (.cons ⟨rfl, .keep _⟩ (.cons ⟨rfl, .keep _⟩ (.cons ⟨rfl, .keep _⟩ .nil)))
  have hreads : readArgument? "step=@step".toList = some ("step", .value "@step") := rfl
  have hrefers : Scope.reference? "@step" = some "step" := rfl
  have hbound : (Scope.empty.afterAll gridCalls).get? "step" = some "8dp" := rfl
  exact .replace hreads hrefers hbound (by decide)

/-- Other values of the same variables, of which one looks like an argument. -/
def otherCalls : List Scope.Call :=
  [.declareLine 1 "@base=2dp", .declareLine 2 "@step=a=@b c", .declareLine 3 "@note=x"]

/-- The same values, and one that the line does not refer to. -/
def moreCalls : List Scope.Call :=
  gridCalls ++ [.declareLine 4 "@margin=16dp"]

theorem substitution_hygienic_of_gridLayout :
    ∃ spec other : LayerSpec,
      ofText (Scope.empty.afterAll gridCalls) .standard 5 (String.ofList gridLayout.text) =
        .ok spec ∧
      ofText (Scope.empty.afterAll gridCalls) .standard 5 (String.ofList writtenLayout.text) =
        .ok spec ∧
      ofText (Scope.empty.afterAll otherCalls) .standard 5 (String.ofList gridLayout.text) =
        .ok other ∧
      other.kind = spec.kind ∧ other.indent = spec.indent ∧
      (∀ key, other.arguments.has key = spec.arguments.has key) ∧
      ofText (Scope.empty.afterAll moreCalls) .standard 5 (String.ofList gridLayout.text) =
        .ok spec := by
  obtain ⟨spec, hspec⟩ : ∃ spec, ofText (Scope.empty.afterAll gridCalls) .standard 5
      (String.ofList gridLayout.text) = .ok spec := ⟨_, rfl⟩
  obtain ⟨other, hother⟩ : ∃ other, ofText (Scope.empty.afterAll otherCalls) .standard 5
      (String.ofList gridLayout.text) = .ok other := ⟨_, rfl⟩
  obtain ⟨more, hmore⟩ : ∃ more, ofText (Scope.empty.afterAll moreCalls) .standard 5
      (String.ofList gridLayout.text) = .ok more := ⟨_, rfl⟩
  obtain ⟨-, hwritten, hscopes⟩ := substitution_hygienic hspec
  obtain ⟨hkind, hindent, hkeys, -⟩ := hscopes _ _ spec other hspec hother
  obtain ⟨-, -, -, hsame⟩ := hscopes _ _ spec more hspec hmore
  have hwritten := hwritten gridLayout writtenLayout String.toList_ofList.symm
    substitution_writtenLayout
  refine ⟨spec, other, hspec, hwritten, hother, hkind, hindent, fun key => (hkeys key).1, ?_⟩
  rw [hmore, hsame (by decide)]

end LayerSpec
end SpecOverlay
