import SpecOverlay.LayerSpec
import SpecOverlay.Proofs.Scope.Declarations
import SpecOverlay.Proofs.Text.Words

/-!
# How a layer line is read

A layer line is cut into words.  The first one is the type, and each of the others is a
key, or a key, an equals sign and a value: `Writes` says what a word writes, and this is
what is read (`writes_of_readArgument?`, `Writes.readArgument?_eq`).  The indent is the number
of spaces before anything else (`indentOf_eq_iff`).

`readWord` is the reading of one word in a scope, and the arguments are added word by word
(`addArguments_cons`).  What is proved of lines is proved of words first.
-/

namespace SpecOverlay
namespace LayerSpec

variable {s : Scope} {scale : Scale} {line : Nat} {text : String} {w : List Char}
  {ws : List (List Char)} {key : String} {a : Argument} {args args' : Arguments}
  {spec : LayerSpec}

/-! ## The form of an argument -/

/-- There are characters, and all of them are characters of a name or hyphens. -/
def IsKey (s : List Char) : Prop :=
  s ≠ [] ∧ ∀ c ∈ s, Declaration.NameChar c ∨ c = '-'

/-- The words that write an argument: a key, which is a flag, or a key with a value of one
or more characters behind an equals sign. -/
inductive Writes : List Char → String → Argument → Prop
  | flag {key : List Char} (isKey : IsKey key) : Writes key (String.ofList key) .flag
  | value {key value : List Char} (isKey : IsKey key) (ne_nil : value ≠ []) :
    Writes (key ++ '=' :: value) (String.ofList key) (.value (String.ofList value))

theorem isKeyChar_iff {c : Char} : isKeyChar c = true ↔ Declaration.NameChar c ∨ c = '-' := by
  rw [← Declaration.isNameChar_iff, isKeyChar, Declaration.isNameChar, Bool.or_eq_true, beq_iff_eq]

theorem isKey_iff {s : List Char} : IsKey s ↔ s ≠ [] ∧ ∀ c ∈ s, isKeyChar c = true := by
  simp only [IsKey, isKeyChar_iff]

/-- What is read as an argument writes it. -/
theorem writes_of_readArgument? (h : readArgument? w = some (key, a)) : Writes w key a := by
  have hw : w.takeWhile isKeyChar ++ w.dropWhile isKeyChar = w := List.takeWhile_append_dropWhile
  have hkey (hne : w.takeWhile isKeyChar ≠ []) : IsKey (w.takeWhile isKeyChar) :=
    isKey_iff.mpr ⟨hne, fun c hc => List.all_eq_true.mp List.all_takeWhile c hc⟩
  rw [readArgument?] at h
  -- a key that something else than a value follows is no argument
  split at h
  · exact absurd h (by simp)
  · rename_i hdrop hne
    obtain ⟨rfl, rfl⟩ := Prod.mk.inj (Option.some.inj h)
    rw [hdrop, List.append_nil] at hw
    have hwrites := Writes.flag (hkey hne)
    rwa [hw] at hwrites ⊢
  · rename_i c value hdrop hne
    obtain ⟨rfl, rfl⟩ := Prod.mk.inj (Option.some.inj h)
    have hwrites := Writes.value (hkey hne) (List.cons_ne_nil c value)
    rwa [← hdrop, hw] at hwrites
  · exact absurd h (by simp)

/-- What writes an argument is read as such. -/
theorem Writes.readArgument?_eq (h : Writes w key a) : readArgument? w = some (key, a) := by
  cases h with
  | @flag key isKey =>
    obtain ⟨hne, hchars⟩ := isKey_iff.mp isKey
    rw [readArgument?, List.takeWhile_eq_self_iff.mpr hchars, List.dropWhile_eq_nil_iff.mpr hchars]
    cases w with
    | nil => exact absurd rfl hne
    | cons c cs => rfl
  | @value key value isKey ne_nil =>
    obtain ⟨hne, hchars⟩ := isKey_iff.mp isKey
    rw [readArgument?, Text.takeWhile_append_cons hchars (by decide),
      Text.dropWhile_append_cons hchars (by decide)]
    cases key with
    | nil => exact absurd rfl hne
    | cons k ks =>
      cases value with
      | nil => exact absurd rfl ne_nil
      | cons v vs => rfl

/-- A word writes one argument. -/
theorem Writes.unique {key' : String} {b : Argument} (h : Writes w key a) (h' : Writes w key' b) :
    key = key' ∧ a = b :=
  Prod.mk.inj (Option.some.inj (h.readArgument?_eq.symm.trans h'.readArgument?_eq))

theorem Writes.isKey (h : Writes w key a) : IsKey key.toList := by
  cases h with
  | flag isKey => rwa [String.toList_ofList]
  | value isKey _ => rwa [String.toList_ofList]

theorem writes_append {value : String} (hkey : IsKey key.toList) (hvalue : value.toList ≠ []) :
    Writes (key.toList ++ '=' :: value.toList) key (.value value) := by
  have h := Writes.value hkey hvalue
  rwa [String.ofList_toList, String.ofList_toList] at h

/-! ## Words and lines -/

/-- The key that a word writes and what it carries in a scope. -/
def readWord (s : Scope) (line : Nat) (w : List Char) : Except Error (String × Argument) :=
  match readArgument? w with
  | none => .error ⟨.malformedLayer (String.ofList w), some line⟩
  | some (key, a) => (resolveArgument s line a).map fun a => (key, a)

/-- **A line is read word by word**, up to the first word that cannot be read. -/
theorem addArguments_cons (s : Scope) (line : Nat) (args : Arguments) (w : List Char)
    (ws : List (List Char)) :
    addArguments s line args (w :: ws) =
      (readWord s line w).bind fun entry => addArguments s line (args.set entry.1 entry.2) ws := by
  rw [addArguments, readWord]
  cases readArgument? w with
  | none => rfl
  | some entry =>
    obtain ⟨key, a⟩ := entry
    dsimp only
    cases resolveArgument s line a <;> rfl

theorem scale_of_addArguments (h : addArguments s line args ws = .ok args') :
    args'.scale = args.scale := by
  induction ws generalizing args with
  | nil => rw [Except.ok.inj h]
  | cons w ws ih =>
    rw [addArguments_cons] at h
    cases hread : readWord s line w with
    | error e => simp [hread, Except.bind] at h
    | ok entry =>
      rw [hread] at h
      have hset : args'.scale = (args.set entry.1 entry.2).scale := ih h
      exact hset

/-- What a line that is read says, in its parts. -/
theorem exists_words_of_ofText (h : ofText s scale line text = .ok spec) :
    ∃ kind ws, Text.words text.toList = kind :: ws ∧ spec.kind = String.ofList kind ∧
      spec.indent = indentOf text.toList ∧
      addArguments s line (.empty scale) ws = .ok spec.arguments := by
  rw [ofText] at h
  cases hwords : Text.words text.toList with
  | nil => simp [hwords] at h
  | cons kind ws =>
    simp only [hwords] at h
    cases hargs : addArguments s line (.empty scale) ws with
    | error e => simp [hargs, Except.map] at h
    | ok args =>
      rw [hargs, Except.map, Except.ok.injEq] at h
      rw [← h]
      exact ⟨kind, ws, rfl, rfl, rfl, hargs⟩

theorem scale_of_ofText (h : ofText s scale line text = .ok spec) :
    spec.arguments.scale = scale := by
  obtain ⟨_, _, _, _, _, hargs⟩ := exists_words_of_ofText h
  exact scale_of_addArguments hargs

/-! ## The spaces before a line -/

theorem replicate_indentOf_append (s : List Char) :
    List.replicate (indentOf s) ' ' ++ s.dropWhile (· == ' ') = s := by
  have hspaces : s.takeWhile (· == ' ') = List.replicate (indentOf s) ' ' := by
    refine List.eq_replicate_iff.mpr ⟨rfl, fun c hc => ?_⟩
    exact eq_of_beq (List.all_eq_true.mp List.all_takeWhile c hc)
  rw [← hspaces, List.takeWhile_append_dropWhile]

theorem indentOf_replicate_append (n : Nat) (s : List Char) :
    indentOf (List.replicate n ' ' ++ s) = n + indentOf s := by
  rw [indentOf, List.takeWhile_append_of_pos, List.length_append, List.length_replicate, indentOf]
  intro c hc
  rw [List.eq_of_mem_replicate hc]
  rfl

theorem indentOf_dropWhile (s : List Char) : indentOf (s.dropWhile (· == ' ')) = 0 := by
  have h := indentOf_replicate_append (indentOf s) (s.dropWhile (· == ' '))
  rw [replicate_indentOf_append] at h
  omega

/-- A word ends the spaces that a line begins with. -/
theorem indentOf_append_word {word : List Char} (hword : Text.IsWord word) (lead rest : List Char) :
    indentOf (lead ++ (word ++ rest)) = indentOf lead := by
  have hnone : (word ++ rest).takeWhile (· == ' ') = [] := by
    obtain ⟨hne, hblank⟩ := hword
    cases word with
    | nil => exact absurd rfl hne
    | cons c cs =>
      rw [List.cons_append, List.takeWhile_cons_of_neg]
      intro hc
      have hc' := hblank c List.mem_cons_self
      rw [eq_of_beq hc] at hc'
      exact absurd hc' (by decide)
  rw [indentOf, List.takeWhile_append, hnone, List.append_nil, indentOf]
  split <;> rename_i h
  · rw [h]
  · rfl

/-- The spaces that a layout begins with are those of its lead. -/
theorem indentOf_text (l : Text.Layout) : indentOf l.text = indentOf l.lead :=
  indentOf_append_word l.isWord_first l.lead _

/-- The indent of a line is the number of spaces before anything else. -/
theorem indentOf_eq_iff {s : List Char} {n : Nat} :
    indentOf s = n ↔ ∃ rest, s = List.replicate n ' ' ++ rest ∧ rest.head? ≠ some ' ' := by
  constructor
  · rintro rfl
    refine ⟨s.dropWhile (· == ' '), (replicate_indentOf_append s).symm, fun hhead => ?_⟩
    have hnot := List.head?_dropWhile_not (· == ' ') s
    rw [hhead] at hnot
    exact absurd hnot (by decide)
  · rintro ⟨rest, rfl, hhead⟩
    rw [indentOf_replicate_append]
    cases rest with
    | nil => rfl
    | cons c rest =>
      have hc : c ≠ ' ' := fun hc => hhead (congrArg some hc)
      simp [indentOf, hc]

end LayerSpec
end SpecOverlay
