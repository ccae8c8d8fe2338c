import SpecOverlay.Proofs.LayerSpec.Substitution

/-!
# The grammar of layer lines

The words on a layer line behind the type write arguments (`Writes`).  What a word says
depends on the scope, because a value that begins with an at sign stands for the value of a
variable (`Says`); a word that says nothing is at fault for its form or for the variable
(`Faulty`).

`ofText_accepts_grammar` says what becomes of a line:

* It is read if and only if it has words, and all but the first say something.
* What is read is determined by the words: the last word with a key decides what the key
  carries (`LastSays`), so the order of words with different keys does not matter.
* What is refused is refused for the first word that is at fault.

The arguments are added word by word, so each part is an induction on the words.
-/

namespace SpecOverlay
namespace LayerSpec

variable {s : Scope} {scale : Scale} {line : Nat} {text : String} {w : List Char}
  {ws ws' : List (List Char)} {key : String} {a : Argument} {args args' : Arguments}
  {e : Error} {spec : LayerSpec}

/-! ## What a word says in a scope -/

/-- What a word says: the argument that it writes, with the value of a variable in place
of a reference to it. -/
inductive Says (s : Scope) (w : List Char) : String → Argument → Prop
  | flag {key : String} (writes : Writes w key .flag) : Says s w key .flag
  | plain {key text : String} (writes : Writes w key (.value text))
    (plain : text.toList.head? ≠ some '@') : Says s w key (.value text)
  | bound {key text name value : String} (writes : Writes w key (.value text))
    (refers : text.toList = '@' :: name.toList) (bound : s.get? name = some value) :
    Says s w key (.value value)

/-- The ways in which a word is at fault: it writes no argument, which is the cause
numbered 101, or it refers to a name without a value, which is the cause numbered 120. -/
inductive Faulty (s : Scope) (w : List Char) : Cause → Prop
  | malformed (unwritten : ∀ key a, ¬ Writes w key a) :
    Faulty s w (.malformedLayer (String.ofList w))
  | undeclared {key text name : String} (writes : Writes w key (.value text))
    (refers : text.toList = '@' :: name.toList) (missing : s.get? name = none) :
    Faulty s w (.undeclaredVariable name)

/-- A word writes an argument, and if its value begins with an at sign, a variable of that
name has a value. -/
def Accepted (s : Scope) (w : List Char) : Prop :=
  ∃ key a, Writes w key a ∧ ∀ text name : String, a = .value text →
    text.toList = '@' :: name.toList → ∃ value, s.get? name = some value

theorem Says.exists_writes (h : Says s w key a) : ∃ b, Writes w key b := by
  cases h with
  | flag writes => exact ⟨_, writes⟩
  | plain writes _ => exact ⟨_, writes⟩
  | bound writes _ _ => exact ⟨_, writes⟩

theorem Says.readWord_eq (h : Says s w key a) (line : Nat) : readWord s line w = .ok (key, a) := by
  cases h with
  | flag writes =>
    rw [readWord, writes.readArgument?_eq]
    rfl
  | plain writes plain =>
    have hresolve := Scope.resolve_of_plain s line (Scope.reference?_eq_none_iff.mpr plain)
    simp only [readWord, writes.readArgument?_eq, resolveArgument, hresolve, Except.map]
  | bound writes refers bound =>
    have hresolve := Scope.resolve_of_bound line (Scope.reference?_eq_some_iff.mpr refers) bound
    simp only [readWord, writes.readArgument?_eq, resolveArgument, hresolve, Except.map]

theorem Faulty.readWord_eq {cause : Cause} (h : Faulty s w cause) (line : Nat) :
    readWord s line w = .error ⟨cause, some line⟩ := by
  cases h with
  | malformed unwritten =>
    have hread : readArgument? w = none :=
      Option.eq_none_iff_forall_ne_some.mpr fun entry hentry =>
        unwritten entry.1 entry.2 (writes_of_readArgument? hentry)
    rw [readWord, hread]
  | undeclared writes refers missing =>
    have hresolve := Scope.resolve_of_unbound line (Scope.reference?_eq_some_iff.mpr refers) missing
    simp only [readWord, writes.readArgument?_eq, resolveArgument, hresolve, Except.map]

/-- A word that writes no argument is at fault for that, whatever it would refer to. -/
theorem Faulty.code {cause : Cause} (h : Faulty s w cause) :
    (cause.code = 101 ∧ ∀ key a, ¬ Writes w key a) ∨
      (cause.code = 120 ∧ ∃ key a, Writes w key a) := by
  cases h with
  | malformed unwritten => exact .inl ⟨rfl, unwritten⟩
  | undeclared writes _ _ => exact .inr ⟨rfl, _, _, writes⟩

/-- A word says something or is at fault. -/
theorem says_or_faulty (s : Scope) (w : List Char) :
    (∃ key a, Says s w key a) ∨ ∃ cause, Faulty s w cause := by
  by_cases hwrites : ∃ key a, Writes w key a
  · obtain ⟨key, a, hwrites⟩ := hwrites
    cases a with
    | flag => exact .inl ⟨key, _, .flag hwrites⟩
    | value text =>
      cases href : Scope.reference? text with
      | none => exact .inl ⟨key, _, .plain hwrites (Scope.reference?_eq_none_iff.mp href)⟩
      | some name =>
        have hrefers := Scope.reference?_eq_some_iff.mp href
        cases hget : s.get? name with
        | none => exact .inr ⟨_, .undeclared hwrites hrefers hget⟩
        | some value => exact .inl ⟨key, _, .bound hwrites hrefers hget⟩
  · simp only [not_exists] at hwrites
    exact .inr ⟨_, .malformed hwrites⟩

theorem readWord_eq_ok_iff : readWord s line w = .ok (key, a) ↔ Says s w key a := by
  refine ⟨fun h => ?_, fun h => h.readWord_eq line⟩
  rcases says_or_faulty s w with ⟨key', b, hsay⟩ | ⟨cause, hfaulty⟩
  · obtain ⟨rfl, rfl⟩ := Prod.mk.inj (Except.ok.inj (h.symm.trans (hsay.readWord_eq line)))
    exact hsay
  · exact absurd (h.symm.trans (hfaulty.readWord_eq line)) (by simp)

theorem readWord_eq_error_iff :
    readWord s line w = .error e ↔ ∃ cause, Faulty s w cause ∧ e = ⟨cause, some line⟩ := by
  constructor
  · intro h
    rcases says_or_faulty s w with ⟨key', b, hsay⟩ | ⟨cause, hfaulty⟩
    · exact absurd (h.symm.trans (hsay.readWord_eq line)) (by simp)
    · exact ⟨cause, hfaulty, Except.error.inj (h.symm.trans (hfaulty.readWord_eq line))⟩
  · rintro ⟨cause, hfaulty, rfl⟩
    exact hfaulty.readWord_eq line

/-- A word says one thing. -/
theorem Says.unique {key' : String} {b : Argument} (h : Says s w key a) (h' : Says s w key' b) :
    key = key' ∧ a = b :=
  Prod.mk.inj (Except.ok.inj ((h.readWord_eq 0).symm.trans (h'.readWord_eq 0)))

/-- A word is accepted exactly if it says something. -/
theorem accepted_iff : Accepted s w ↔ ∃ key a, Says s w key a := by
  constructor
  · rintro ⟨key, a, hwrites, hbound⟩
    rcases says_or_faulty s w with hsay | ⟨cause, hfaulty⟩
    · exact hsay
    · cases hfaulty with
      | malformed unwritten => exact absurd hwrites (unwritten key a)
      | @undeclared key' text name writes refers missing =>
        obtain ⟨rfl, rfl⟩ := hwrites.unique writes
        obtain ⟨value, hvalue⟩ := hbound text name rfl refers
        exact absurd (missing.symm.trans hvalue) (by simp)
  · rintro ⟨key, a, hsay⟩
    cases hsay with
    | flag writes => exact ⟨key, _, writes, fun _ _ h => absurd h (by simp)⟩
    | plain writes plain =>
      refine ⟨key, _, writes, fun text name htext hrefers => ?_⟩
      obtain rfl := Argument.value.inj htext
      rw [hrefers] at plain
      exact absurd rfl plain
    | bound writes refers bound =>
      refine ⟨key, _, writes, fun text name htext hrefers => ?_⟩
      obtain rfl := Argument.value.inj htext
      obtain rfl := String.toList_inj.mp (List.cons.inj (refers.symm.trans hrefers)).2
      exact ⟨_, bound⟩

/-! ## What the words of a line say -/

/-- The last of the words with a key says what the key carries. -/
def LastSays (s : Scope) (ws : List (List Char)) (key : String) (a : Argument) : Prop :=
  ∃ before w after, ws = before ++ w :: after ∧ Says s w key a ∧
    ∀ v ∈ after, ∀ b, ¬ Writes v key b

theorem lastSays_cons_iff :
    LastSays s (w :: ws) key a ↔
      LastSays s ws key a ∨ (Says s w key a ∧ ∀ v ∈ ws, ∀ b, ¬ Writes v key b) := by
  constructor
  · rintro ⟨before, v, after, hws, hsay, hlast⟩
    cases before with
    | nil =>
      obtain ⟨rfl, rfl⟩ := List.cons.inj hws
      exact .inr ⟨hsay, hlast⟩
    | cons u before =>
      obtain ⟨rfl, rfl⟩ := List.cons.inj hws
      exact .inl ⟨before, v, after, rfl, hsay, hlast⟩
  · rintro (⟨before, v, after, rfl, hsay, hlast⟩ | ⟨hsay, hlast⟩)
    · exact ⟨w :: before, v, after, rfl, hsay, hlast⟩
    · exact ⟨[], w, ws, rfl, hsay, hlast⟩

/-- **What a key carries once words are added**: what the last word with the key says, and
without such a word what it carried before. -/
theorem get?_of_addArguments (h : addArguments s line args ws = .ok args') (key : String)
    (a : Argument) :
    args'.get? key = some a ↔
      LastSays s ws key a ∨ (args.get? key = some a ∧ ∀ w ∈ ws, ∀ b, ¬ Writes w key b) := by
  induction ws generalizing args with
  | nil =>
    obtain rfl := Except.ok.inj h
    simp [LastSays]
  | cons w ws ih =>
    rw [addArguments_cons] at h
    cases hread : readWord s line w with
    | error e =>
      rw [hread] at h
      exact absurd h (by simp [Except.bind])
    | ok entry =>
      obtain ⟨k, b⟩ := entry
      have hsay := readWord_eq_ok_iff.mp hread
      obtain ⟨c, hwrites⟩ := hsay.exists_writes
      rw [hread] at h
      rw [ih h, lastSays_cons_iff, Arguments.get?_set, List.forall_mem_cons, or_assoc]
      refine or_congr_right ?_
      by_cases hk : k = key
      · subst hk
        rw [if_pos rfl, Option.some_inj]
        constructor
        · rintro ⟨rfl, hlast⟩
          exact .inl ⟨hsay, hlast⟩
        · rintro (⟨hsay', hlast⟩ | ⟨-, hnot, -⟩)
          · exact ⟨(hsay.unique hsay').2, hlast⟩
          · exact absurd hwrites (hnot c)
      · rw [if_neg hk]
        constructor
        · rintro ⟨hget, hlast⟩
          exact .inr ⟨hget, fun d hd => hk (hwrites.unique hd).1, hlast⟩
        · rintro (⟨hsay', -⟩ | ⟨hget, -, hlast⟩)
          · exact absurd (hsay.unique hsay').1 hk
          · exact ⟨hget, hlast⟩

/-- **Adding words fails at the first word that is at fault.** -/
theorem addArguments_eq_error_iff :
    addArguments s line args ws = .error e ↔
      ∃ before w after cause, ws = before ++ w :: after ∧ (∀ v ∈ before, Accepted s v) ∧
        Faulty s w cause ∧ e = ⟨cause, some line⟩ := by
  constructor
  · intro h
    induction ws generalizing args with
    | nil => exact absurd h (by simp [addArguments])
    | cons w ws ih =>
      rw [addArguments_cons] at h
      cases hread : readWord s line w with
      | error e' =>
        rw [hread] at h
        obtain rfl := Except.error.inj h
        obtain ⟨cause, hfaulty, rfl⟩ := readWord_eq_error_iff.mp hread
        exact ⟨[], w, ws, cause, rfl, fun v hv => absurd hv List.not_mem_nil, hfaulty, rfl⟩
      | ok entry =>
        rw [hread] at h
        obtain ⟨before, v, after, cause, rfl, hbefore, hfaulty, rfl⟩ := ih h
        have haccepted := accepted_iff.mpr ⟨_, _, readWord_eq_ok_iff.mp hread⟩
        exact ⟨w :: before, v, after, cause, rfl, List.forall_mem_cons.mpr ⟨haccepted, hbefore⟩,
          hfaulty, rfl⟩
  · rintro ⟨before, w, after, cause, rfl, hbefore, hfaulty, rfl⟩
    induction before generalizing args with
    | nil =>
      rw [List.nil_append, addArguments_cons, hfaulty.readWord_eq line]
      rfl
    | cons v before ih =>
      obtain ⟨hv, hbefore⟩ := List.forall_mem_cons.mp hbefore
      obtain ⟨key, a, hsay⟩ := accepted_iff.mp hv
      rw [List.cons_append, addArguments_cons, hsay.readWord_eq line]
      exact ih hbefore

/-- Words are added exactly if all of them are accepted. -/
theorem exists_addArguments_iff :
    (∃ args', addArguments s line args ws = .ok args') ↔ ∀ w ∈ ws, Accepted s w := by
  induction ws generalizing args with
  | nil => simp [addArguments]
  | cons w ws ih =>
    rw [addArguments_cons, List.forall_mem_cons]
    cases hread : readWord s line w with
    | error e =>
      constructor
      · rintro ⟨args', h⟩
        exact absurd h (by simp [Except.bind])
      · rintro ⟨haccepted, -⟩
        obtain ⟨key, a, hsay⟩ := accepted_iff.mp haccepted
        exact absurd (hread.symm.trans (hsay.readWord_eq line)) (by simp)
    | ok entry =>
      have haccepted := accepted_iff.mpr ⟨_, _, readWord_eq_ok_iff.mp hread⟩
      exact ih.trans (and_iff_right haccepted).symm

/-! ## Lines -/

/-- What it means that a specification is what a line says: it has the first word as its
type, the number of spaces that the line begins with as its indent, and what the other
words say as its arguments. -/
structure Reads (s : Scope) (scale : Scale) (text : String) (spec : LayerSpec) : Prop where
  kind_eq : (Text.words text.toList).head? = some spec.kind.toList
  accepted : ∀ w ∈ (Text.words text.toList).tail, Accepted s w
  indent_eq : ∃ rest, text.toList = List.replicate spec.indent ' ' ++ rest ∧ rest.head? ≠ some ' '
  scale_eq : spec.arguments.scale = scale
  get?_iff : ∀ key a, spec.arguments.get? key = some a ↔
    LastSays s (Text.words text.toList).tail key a

theorem arguments_eq_of_get? (hscale : args.scale = args'.scale)
    (h : ∀ key a, args.get? key = some a ↔ args'.get? key = some a) : args = args' := by
  obtain ⟨values, scale⟩ := args
  obtain ⟨values', scale'⟩ := args'
  obtain rfl : scale = scale' := hscale
  obtain rfl : values = values' := Table.ext_get? fun key => Option.ext (h key)
  rfl

/-- A line says one thing. -/
theorem Reads.unique {spec' : LayerSpec} (h : Reads s scale text spec)
    (h' : Reads s scale text spec') : spec = spec' := by
  have hkind : spec.kind = spec'.kind :=
    String.toList_inj.mp (Option.some.inj (h.kind_eq.symm.trans h'.kind_eq))
  have hindent : spec.indent = spec'.indent :=
    (indentOf_eq_iff.mpr h.indent_eq).symm.trans (indentOf_eq_iff.mpr h'.indent_eq)
  have harguments : spec.arguments = spec'.arguments :=
    arguments_eq_of_get? (h.scale_eq.trans h'.scale_eq.symm) fun key a =>
      (h.get?_iff key a).trans (h'.get?_iff key a).symm
  obtain ⟨kind, indent, arguments⟩ := spec
  obtain ⟨kind', indent', arguments'⟩ := spec'
  simp_all only

theorem reads_of_ofText (h : ofText s scale line text = .ok spec) : Reads s scale text spec := by
  obtain ⟨kind, ws, hwords, hkind, hindent, hargs⟩ := exists_words_of_ofText h
  refine ⟨?_, ?_, indentOf_eq_iff.mp hindent.symm, scale_of_ofText h, fun key a => ?_⟩
  · rw [hwords, hkind, String.toList_ofList]
    rfl
  · rw [hwords]
    exact exists_addArguments_iff.mp ⟨_, hargs⟩
  · rw [hwords, get?_of_addArguments hargs, List.tail_cons]
    refine or_iff_left ?_
    rintro ⟨hget, -⟩
    exact absurd hget (by simp)

/-- **A line is read exactly if it has words, and all but the first are accepted.** -/
theorem exists_ofText_iff :
    (∃ spec, ofText s scale line text = .ok spec) ↔
      ∃ kind ws, Text.words text.toList = kind :: ws ∧ ∀ w ∈ ws, Accepted s w := by
  constructor
  · rintro ⟨spec, h⟩
    obtain ⟨kind, ws, hwords, -, -, hargs⟩ := exists_words_of_ofText h
    exact ⟨kind, ws, hwords, exists_addArguments_iff.mp ⟨_, hargs⟩⟩
  · rintro ⟨kind, ws, hwords, haccepted⟩
    obtain ⟨args, hargs⟩ : ∃ args, addArguments s line (.empty scale) ws = .ok args :=
      exists_addArguments_iff.mpr haccepted
    exact ⟨⟨String.ofList kind, indentOf text.toList, args⟩, by simp only [ofText, hwords, hargs,
      Except.map]⟩

/-- **A line is read as what it says.** -/
theorem ofText_eq_ok_iff : ofText s scale line text = .ok spec ↔ Reads s scale text spec := by
  refine ⟨reads_of_ofText, fun h => ?_⟩
  obtain ⟨spec', hspec'⟩ : ∃ spec', ofText s scale line text = .ok spec' := by
    refine exists_ofText_iff.mpr ?_
    obtain ⟨ws, hwords⟩ := List.head?_eq_some_iff.mp h.kind_eq
    have haccepted := h.accepted
    rw [hwords] at haccepted
    exact ⟨_, ws, hwords, haccepted⟩
  rw [hspec', h.unique (reads_of_ofText hspec')]

/-- **A line is refused for its first word that is at fault**, or because it has no
words. -/
theorem ofText_eq_error_iff :
    ofText s scale line text = .error e ↔
      (Text.words text.toList = [] ∧ e = ⟨.malformedLayer "", some line⟩) ∨
        ∃ kind before w after cause,
          Text.words text.toList = kind :: (before ++ w :: after) ∧
          (∀ v ∈ before, Accepted s v) ∧ Faulty s w cause ∧ e = ⟨cause, some line⟩ := by
  rw [ofText]
  cases hwords : Text.words text.toList with
  | nil =>
    have hblank : Text.trim text.toList = [] :=
      Text.trim_of_blanks (by_contra fun hblank => Text.words_ne_nil hblank hwords)
    rw [hblank]
    simp [eq_comm]
  | cons kind ws =>
    dsimp only
    have hargs : (addArguments s line (.empty scale) ws).map
        (fun args => (⟨String.ofList kind, indentOf text.toList, args⟩ : LayerSpec)) = .error e ↔
          addArguments s line (.empty scale) ws = .error e := by
      cases addArguments s line (.empty scale) ws <;> simp [Except.map]
    rw [hargs, addArguments_eq_error_iff]
    constructor
    · rintro ⟨before, w, after, cause, rfl, hfault⟩
      exact .inr ⟨kind, before, w, after, cause, rfl, hfault⟩
    · rintro (⟨hnil, -⟩ | ⟨kind', before, w, after, cause, hcons, hfault⟩)
      · exact absurd hnil (List.cons_ne_nil kind ws)
      · obtain ⟨rfl, rfl⟩ := List.cons.inj hcons
        exact ⟨before, w, after, cause, rfl, hfault⟩

/-! ## The order of the words -/

/-- No two of the words have the same key. -/
def DistinctKeys (ws : List (List Char)) : Prop :=
  ws.Pairwise fun v w => ∀ key a b, Writes v key a → ¬ Writes w key b

/-- Of words with different keys, each is the last one with its key. -/
theorem DistinctKeys.lastSays_iff (h : DistinctKeys ws) :
    LastSays s ws key a ↔ ∃ w ∈ ws, Says s w key a := by
  constructor
  · rintro ⟨before, w, after, rfl, hsay, -⟩
    exact ⟨w, List.mem_append_right before List.mem_cons_self, hsay⟩
  · rintro ⟨w, hw, hsay⟩
    obtain ⟨before, after, rfl⟩ := List.append_of_mem hw
    obtain ⟨b, hwrites⟩ := hsay.exists_writes
    have hafter := (List.pairwise_cons.mp (List.pairwise_append.mp h).2.1).1
    exact ⟨before, w, after, rfl, hsay, fun v hv c => hafter v hv key b c hwrites⟩

theorem DistinctKeys.perm (h : DistinctKeys ws) (hperm : ws.Perm ws') : DistinctKeys ws' :=
  (hperm.pairwise_iff fun hvw key a b hv hw => hvw key b a hw hv).mp h

/-- **The order of words with different keys does not matter.** -/
theorem reads_of_perm {text' : String} {spec' : LayerSpec} {kind : List Char}
    (hwords : Text.words text.toList = kind :: ws) (hwords' : Text.words text'.toList = kind :: ws')
    (hperm : ws.Perm ws') (hkeys : DistinctKeys ws) (h : Reads s scale text spec)
    (h' : Reads s scale text' spec') :
    spec'.kind = spec.kind ∧ spec'.arguments = spec.arguments := by
  have hkind := h.kind_eq
  have hkind' := h'.kind_eq
  rw [hwords, List.head?_cons] at hkind
  rw [hwords', List.head?_cons, hkind] at hkind'
  refine ⟨String.toList_inj.mp (Option.some.inj hkind').symm, ?_⟩
  refine arguments_eq_of_get? (h'.scale_eq.trans h.scale_eq.symm) fun key a => ?_
  rw [h'.get?_iff, h.get?_iff, hwords, hwords', List.tail_cons, List.tail_cons,
    hkeys.lastSays_iff, (hkeys.perm hperm).lastSays_iff]
  simp only [hperm.mem_iff]

/-- **A layer line is read exactly by its grammar, and refused for its leftmost fault.**

* It is read if and only if it has words, and each but the first is a key, or a key with a
  value that does not refer to a variable without a value.
* What is read has the first word as its type, the number of leading spaces as its indent,
  and carries for each key what the last word with this key says.
* It is refused with the cause of the first word at fault, on the given line.  The number
  of the cause tells whether this word writes no argument or refers to no variable.
* Another line with the same words behind the type, in any order, is read as an equal
  specification, if the keys are different. -/
theorem ofText_accepts_grammar (s : Scope) (scale : Scale) (line : Nat) (text : String) :
    ((∃ spec, ofText s scale line text = .ok spec) ↔
      ∃ kind ws, Text.words text.toList = kind :: ws ∧ ∀ w ∈ ws, Accepted s w) ∧
    (∀ spec, ofText s scale line text = .ok spec ↔ Reads s scale text spec) ∧
    (∀ e, ofText s scale line text = .error e ↔
      (Text.words text.toList = [] ∧ e = ⟨.malformedLayer "", some line⟩) ∨
        ∃ kind before w after cause,
          Text.words text.toList = kind :: (before ++ w :: after) ∧
          (∀ v ∈ before, Accepted s v) ∧ Faulty s w cause ∧ e = ⟨cause, some line⟩) ∧
    (∀ w cause, Faulty s w cause → (cause.code = 101 ∧ ∀ key a, ¬ Writes w key a) ∨
      (cause.code = 120 ∧ ∃ key a, Writes w key a)) ∧
    ∀ (spec : LayerSpec) (text' : String) (kind : List Char) (ws ws' : List (List Char)),
      ofText s scale line text = .ok spec → Text.words text.toList = kind :: ws →
      Text.words text'.toList = kind :: ws' → ws.Perm ws' → DistinctKeys ws →
      ∃ spec', ofText s scale line text' = .ok spec' ∧ (spec' == spec) = true ∧
        spec'.arguments = spec.arguments := by
  refine ⟨exists_ofText_iff, fun spec => ofText_eq_ok_iff, fun e => ofText_eq_error_iff,
    fun w cause h => h.code, fun spec text' kind ws ws' h hwords hwords' hperm hkeys => ?_⟩
  obtain ⟨spec', hspec'⟩ : ∃ spec', ofText s scale line text' = .ok spec' := by
    refine exists_ofText_iff.mpr ⟨kind, ws', hwords', fun w hw => ?_⟩
    have haccepted := (reads_of_ofText h).accepted
    rw [hwords] at haccepted
    exact haccepted w (hperm.mem_iff.mpr hw)
  obtain ⟨hkind, harguments⟩ := reads_of_perm hwords hwords' hperm hkeys (reads_of_ofText h)
    (reads_of_ofText hspec')
  have hkey : spec'.key = spec.key := by rw [key, key, hkind, harguments]
  exact ⟨spec', hspec', decide_eq_true hkey, harguments⟩

theorem distinctKeys_of_readArgument? (h : ws.Pairwise fun v w =>
    (readArgument? v).map Prod.fst ≠ (readArgument? w).map Prod.fst) : DistinctKeys ws := by
  refine h.imp fun hne key a b hv hw => hne ?_
  rw [hv.readArgument?_eq, hw.readArgument?_eq]
  rfl

theorem ofText_accepts_grammar_of_reordered :
    ∃ spec spec' : LayerSpec,
      ofText (Scope.empty.afterAll gridCalls) .standard 5
        "  grid-lines step=@step from=top outside" = .ok spec ∧
      ofText (Scope.empty.afterAll gridCalls) .standard 5
        "grid-lines outside step=@step from=top" = .ok spec' ∧
      (spec' == spec) = true ∧ spec'.arguments = spec.arguments := by
  obtain ⟨-, -, -, -, hreordered⟩ := ofText_accepts_grammar (Scope.empty.afterAll gridCalls)
    .standard 5 "  grid-lines step=@step from=top outside"
  have hkeys : DistinctKeys ["step=@step".toList, "from=top".toList, "outside".toList] :=
    distinctKeys_of_readArgument? (by decide)
  have hperm : List.Perm ["step=@step".toList, "from=top".toList, "outside".toList]
      ["outside".toList, "step=@step".toList, "from=top".toList] := by decide
  obtain ⟨spec', hspec', hsame, harguments⟩ :=
    hreordered _ "grid-lines outside step=@step from=top" "grid-lines".toList _ _ rfl rfl rfl
      hperm hkeys
  exact ⟨_, spec', rfl, hspec', hsame, harguments⟩

end LayerSpec
end SpecOverlay
