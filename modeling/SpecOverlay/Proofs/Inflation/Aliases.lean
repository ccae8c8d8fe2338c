import SpecOverlay.Proofs.Document.Lines
import SpecOverlay.Proofs.Document.Partition
import SpecOverlay.Proofs.Inflation.Sharing
import SpecOverlay.Proofs.LayerSpec.Grammar
import SpecOverlay.Proofs.Registry.History

/-!
# A second name for a layer type

A registry may give the type of a token a second name.  In a document, the first name may
then be replaced by the second one on any layer lines (`Retyped`), and `document_of_alias`
says that nothing is changed by it: the overlays are the same apart from identities, or the
errors are alike.

What the factories are told changes with the name, and so do the keys under which leaves are
kept.  The factories do not read the type, so the shapes are the same (`build_retype`).  The
keys show in identities alone, because the two documents are inflated side by side from
registries that are faithful, each for itself (`Registry.Serves`).

One error does show the name: the generic failure, numbered 140, which wraps the message of
a factory that knows no causes.  `Alike` says that it shows the name on its own line, and
that all other errors are the same.
-/

namespace SpecOverlay

/-! ## Results that match -/

/-- Two results match if both are values that agree under a map, or both are errors that
are related. -/
inductive Matches {ε α β : Type} (R : ε → ε → Prop) (f : α → β) :
    Except ε α → Except ε α → Prop
  | error {e e' : ε} (related : R e e') : Matches R f (.error e) (.error e')
  | ok {a a' : α} (agree : f a = f a') : Matches R f (.ok a) (.ok a')

namespace Matches

variable {ε α β : Type} {R S : ε → ε → Prop} {f : α → β} {x y : Except ε α}

theorem of_map_eq (h : x.map f = y.map f) (hR : ∀ e, x = .error e → R e e) : Matches R f x y := by
  rcases error_or_ok_of_map_eq h with ⟨e, rfl, rfl⟩ | ⟨a, a', rfl, rfl, hagree⟩
  · exact .error (hR e rfl)
  · exact .ok hagree

theorem mono (h : Matches R f x y) (hRS : ∀ e e', R e e' → S e e') : Matches S f x y := by
  cases h with
  | error related => exact .error (hRS _ _ related)
  | ok agree => exact .ok agree

end Matches

variable {t : Table Registration} {scale : Scale} {existing token : String}

/-! ## Tokens for the same type -/

/-- A token can be the type on a layer line: it is a word, and does not begin like a
declaration, a title or a comment. -/
structure IsTypeToken (token : String) : Prop where
  isWord : Text.IsWord token.toList
  at_ne : token.toList.head? ≠ some '@'
  number_ne : token.toList.head? ≠ some '#'
  slashes_ne : ¬ ['/', '/'] <+: token.toList

theorem IsTypeToken.ofTrimmed_eq (h : IsTypeToken token) :
    LineKind.ofTrimmed token.toList = .layer := by
  obtain ⟨⟨hne, -⟩, hat, hnumber, hslashes⟩ := h
  unfold LineKind.ofTrimmed
  split
  · exact absurd ‹token.toList = []› hne
  · rename_i rest heq
    exact absurd ⟨rest, heq.symm⟩ hslashes
  · rename_i heq
    exact absurd (congrArg List.head? heq) hat
  · rename_i heq
    exact absurd (congrArg List.head? heq) hnumber
  · rfl

/-- Two type tokens stand for the same registration, and no factory reads the token that it
is called by. -/
structure Synonyms (t : Table Registration) (existing token : String) : Prop where
  isTypeToken_existing : IsTypeToken existing
  isTypeToken_token : IsTypeToken token
  reads : ∀ kind registration, t.get? kind = some registration →
    registration.factory.ReadsArguments
  found : ∃ registration, t.get? existing = some registration ∧ t.get? token = some registration

/-- A registered factory itself reports a cause. -/
def Reports (t : Table Registration) (c : Cause) : Prop :=
  ∃ spec registration e, t.get? spec.kind = some registration ∧
    registration.factory spec = .error (.error e) ∧ e.cause = c

/-- A specification with another type. -/
def LayerSpec.retype (token : String) (spec : LayerSpec) : LayerSpec :=
  { spec with kind := token }

namespace Registry

variable {r s : Registry} {spec : LayerSpec}

/-- **A second name is a synonym of the first one.** -/
theorem synonyms_addAlias (hr : r.ReadsArguments) (h : r.addAlias existing token = .ok s)
    (hexisting : IsTypeToken existing) (htoken : IsTypeToken token) :
    Synonyms s.registrations existing token := by
  obtain ⟨registration, hget, rfl⟩ := exists_registration_of_addAlias h
  refine ⟨hexisting, htoken, fun kind registration' hget' => ?_, registration, ?_, ?_⟩
  · rw [Table.get?_insert] at hget'
    by_cases htoken : token = kind
    · rw [if_pos htoken] at hget'
      obtain rfl := Option.some.inj hget'
      exact hr existing registration hget
    · rw [if_neg htoken] at hget'
      exact hr kind registration' hget'
  · rw [Table.get?_insert, hget, ite_self]
  · rw [Table.get?_insert, if_pos rfl]

theorem kept_addAlias (h : r.addAlias existing token = .ok s) : s.kept = r.kept := by
  obtain ⟨registration, -, rfl⟩ := exists_registration_of_addAlias h
  rfl

/-- **The same is built under both names.** -/
theorem build_retype (h : Synonyms r.registrations existing token) (hkind : spec.kind = existing) :
    r.build (spec.retype token) = r.build spec := by
  obtain ⟨registration, hexisting, htoken⟩ := h.found
  rw [← hkind] at hexisting
  have hretyped : r.registrations.get? (spec.retype token).kind = some registration := htoken
  rw [build_of_found hretyped, build_of_found hexisting,
    h.reads token registration htoken (spec.retype token) spec rfl]

/-- **The same shape is created under both names.** -/
theorem create_retype_shape_eq (ht : Synonyms t existing token) (hr : r.Serves t scale)
    (hs : s.Serves t scale) (hkind : spec.kind = existing) (hscale : spec.arguments.scale = scale) :
    (r.create spec).1.map Node.shape = (s.create (spec.retype token)).1.map Node.shape := by
  have hscale' : (spec.retype token).arguments.scale = scale := hscale
  rw [create_of_faithful hr.faithful hscale, create_of_faithful hs.faithful hscale',
    build_retype (by rwa [hs.registrations_eq]) hkind,
    build_congr (hr.registrations_eq.trans hs.registrations_eq.symm)]

/-- A creation that is refused finds no type or has a factory that fails. -/
theorem refused_of_create {c : CreateError} (h : (r.create spec).1 = .error c) :
    c = .lookup (r.unknown spec.kind) ∨
      ∃ registration f, r.registrations.get? spec.kind = some registration ∧
        registration.factory spec = .error f ∧ c = .factory f := by
  obtain ⟨result, r', hcreate⟩ : ∃ result r', r.create spec = (result, r') := ⟨_, _, rfl⟩
  rw [hcreate] at h
  subst h
  cases outcome_of_create hcreate with
  | unknown missing => exact .inl rfl
  | failed found _ made => exact .inr ⟨_, _, found, made, rfl⟩

end Registry

/-! ## Lines -/

/-- The type that a line shows: its first word. -/
def typeOf (text : String) : String :=
  String.ofList ((Text.words text.toList).headD [])

/-- A line begins with a token, between blanks, and goes on with given characters. -/
structure Shows (text token : String) (lead rest : List Char) : Prop where
  toList_eq : text.toList = lead ++ (token.toList ++ rest)
  blanks_lead : Text.Blanks lead
  blank_rest : ∀ c ∈ rest.head?, Text.isBlank c = true

/-- The same line, or the same line with another token in place of a type. -/
inductive Retyped (existing token text text' : String) : Prop
  | same (eq : text' = text)
  | retyped (lead rest : List Char) (shows_existing : Shows text existing lead rest)
    (shows_token : Shows text' token lead rest)

section Lines

variable {text text' : String} {lead rest : List Char} {spec : LayerSpec} {scope : Scope}
  {line : Nat}

theorem typeOf_of_ofText (h : LayerSpec.ofText scope scale line text = .ok spec) :
    typeOf text = spec.kind := by
  obtain ⟨kind, ws, hwords, hkind, -⟩ := LayerSpec.exists_words_of_ofText h
  rw [typeOf, hwords, hkind, List.headD_cons]

namespace Shows

theorem words_eq (h : Shows text token lead rest) (htoken : IsTypeToken token) :
    Text.words text.toList = token.toList :: Text.words rest := by
  rw [h.toList_eq, Text.words_blanks_append h.blanks_lead,
    Text.words_word_append htoken.isWord h.blank_rest]

theorem typeOf_eq (h : Shows text token lead rest) (htoken : IsTypeToken token) :
    typeOf text = token := by
  rw [typeOf, h.words_eq htoken, List.headD_cons, String.ofList_toList]

theorem kind_eq (h : Shows text token lead rest) (htoken : IsTypeToken token) :
    LineKind.of text = .layer := by
  rw [LineKind.of_eq_of_word h.blanks_lead htoken.isWord h.blank_rest h.toList_eq,
    htoken.ofTrimmed_eq]

/-- **A line with another type says the same of it.** -/
theorem ofText_eq (h : Shows text existing lead rest) (h' : Shows text' token lead rest)
    (hexisting : IsTypeToken existing) (htoken : IsTypeToken token) :
    LayerSpec.ofText scope scale line text' =
      (LayerSpec.ofText scope scale line text).map (LayerSpec.retype token) := by
  have hindent : LayerSpec.indentOf text'.toList = LayerSpec.indentOf text.toList := by
    rw [h.toList_eq, h'.toList_eq, LayerSpec.indentOf_append_word htoken.isWord,
      LayerSpec.indentOf_append_word hexisting.isWord]
  rw [LayerSpec.ofText, LayerSpec.ofText, h.words_eq hexisting, h'.words_eq htoken, hindent]
  dsimp only
  rw [String.ofList_toList]
  cases LayerSpec.addArguments scope line (.empty scale) (Text.words rest) <;> rfl

end Shows

/-- Replacing types leaves the division of a document as it is. -/
theorem indistinct_retyped (ht : Synonyms t existing token) :
    Document.Indistinct (Retyped existing token) where
  kind_eq := by
    intro text text' h
    cases h with
    | same eq => rw [eq]
    | retyped lead rest shows_existing shows_token =>
      rw [shows_token.kind_eq ht.isTypeToken_token,
        shows_existing.kind_eq ht.isTypeToken_existing]
  declareLine_eq := by
    intro text text' h hkind scope line
    cases h with
    | same eq => rw [eq]
    | retyped lead rest shows_existing _ =>
      rw [shows_existing.kind_eq ht.isTypeToken_existing] at hkind
      exact absurd hkind (by decide)

end Lines

/-! ## Errors that are alike -/

/-- Two errors about two lists of lines, of which the first ones have the same number, are
alike.  They are the same, and then it is no generic failure, unless a factory has reported
that itself.  Or they are generic failures on one line with one message, and each shows the
type on its own line. -/
inductive Alike (t : Table Registration) (start : Nat) (lines lines' : List String) :
    Error → Error → Prop
  | same {e : Error} (reported : e.cause.code = 140 → Reports t e.cause) :
    Alike t start lines lines' e e
  | shown {k : Nat} {text text' message : String} (line : lines[k]? = some text)
    (line' : lines'[k]? = some text') :
    Alike t start lines lines' ⟨.layerFailure (typeOf text) message, some (start + k)⟩
      ⟨.layerFailure (typeOf text') message, some (start + k)⟩

namespace Alike

variable {start : Nat} {lines lines' texts texts' : List String} {e e' : Error}

theorem of_code_ne (h : e.cause.code ≠ 140) : Alike t start lines lines' e e :=
  .same fun hcode => absurd hcode h

/-- Errors that are alike have the same code and line, and are the same if they are no
generic failures. -/
theorem code_eq (h : Alike t start lines lines' e e') :
    e'.cause.code = e.cause.code ∧ e'.line = e.line ∧ (e.cause.code ≠ 140 → e' = e) := by
  cases h with
  | same _ => exact ⟨rfl, rfl, fun _ => rfl⟩
  | shown _ _ => exact ⟨rfl, rfl, fun hcode => absurd rfl hcode⟩

/-- Errors that are alike in a part of the lines are alike in all of them. -/
theorem shift {n : Nat} (h : Alike t (start + n) texts texts' e e')
    (hget : ∀ (k : Nat) (text : String), texts[k]? = some text → lines[n + k]? = some text)
    (hget' : ∀ (k : Nat) (text : String), texts'[k]? = some text → lines'[n + k]? = some text) :
    Alike t start lines lines' e e' := by
  cases h with
  | same reported => exact .same reported
  | @shown k text text' message line line' =>
    rw [Nat.add_assoc]
    exact .shown (hget k text line) (hget' k text' line')

theorem head {text text' : String} (h : Alike t start [text] [text'] e e') :
    Alike t start (text :: texts) (text' :: texts') e e' := by
  have hget : ∀ (text : String) (texts : List String) (k : Nat) (line : String),
      [text][k]? = some line → (text :: texts)[0 + k]? = some line := by
    intro text texts k line hline
    cases k with
    | zero => exact hline
    | succ k => exact absurd hline (by simp)
  exact shift (n := 0) h (hget text texts) (hget text' texts')

theorem tail {text text' : String} (h : Alike t (start + 1) texts texts' e e') :
    Alike t start (text :: texts) (text' :: texts') e e' := by
  refine h.shift (fun k line hline => ?_) fun k line hline => ?_
  · rwa [Nat.add_comm, List.getElem?_cons_succ]
  · rwa [Nat.add_comm, List.getElem?_cons_succ]

end Alike

/-! ## Lines and runs -/

namespace Progress

variable {p q : Progress} {r s : Registry} {line : Nat} {text text' : String} {e : Error}

/-- What is wrong with a declaration is no generic failure. -/
theorem code_of_declareLine {scope : Scope} (h : scope.declareLine line text = .error e) :
    e.cause.code ≠ 140 := by
  rw [Scope.declareLine] at h
  cases hd : Declaration.ofText text with
  | error e' =>
    obtain ⟨-, rfl⟩ := Declaration.ofText_eq_error_iff.mp hd
    simp only [hd] at h
    obtain rfl := Except.error.inj h
    exact (by decide : (100 : Nat) ≠ 140)
  | ok d =>
    simp only [hd, Scope.declare, Scope.resolve] at h
    split at h
    · exact absurd h (by simp [Except.map])
    · split at h
      · exact absurd h (by simp [Except.map])
      · obtain rfl := Except.error.inj h
        exact (by decide : (120 : Nat) ≠ 140)

/-- What is wrong with the words of a layer line is no generic failure. -/
theorem code_of_ofText {scope : Scope} (h : LayerSpec.ofText scope scale line text = .error e) :
    e.cause.code ≠ 140 := by
  rcases LayerSpec.ofText_eq_error_iff.mp h with ⟨-, rfl⟩ | ⟨_, _, _, _, cause, -, -, hfaulty, rfl⟩
  · exact (by decide : (101 : Nat) ≠ 140)
  · rcases hfaulty.code with ⟨hcode, -⟩ | ⟨hcode, -⟩
    · exact hcode ▸ by decide
    · exact hcode ▸ by decide

/-- The errors of a creation on two lines are alike, if it is refused on both for the same
reason. -/
theorem alike_creationError {spec : LayerSpec} {c : CreateError} (hr : r.registrations = t)
    (h : (r.create spec).1 = .error c) :
    Alike t line [text] [text'] (creationError (typeOf text) line c)
      (creationError (typeOf text') line c) := by
  rcases Registry.refused_of_create h with rfl | ⟨registration, f, hget, hmade, rfl⟩
  · exact .of_code_ne (by decide : (130 : Nat) ≠ 140)
  · cases f with
    | error e =>
      rw [hr] at hget
      exact .same fun _ => ⟨spec, registration, e, hget, hmade, rfl⟩
    | foreign message => exact .shown (k := 0) rfl rfl

/-- An error of one line is alike to itself. -/
theorem alike_of_faults (hr : r.registrations = t) (h : Faults scale p r line text e) :
    Alike t line [text] [text] e e := by
  cases h with
  | misplacedTitle _ _ => exact .of_code_ne (by decide : (111 : Nat) ≠ 140)
  | misplacedVariable _ _ => exact .of_code_ne (by decide : (110 : Nat) ≠ 140)
  | declaration _ _ refused => exact .of_code_ne (code_of_declareLine refused)
  | reading _ refused => exact .of_code_ne (code_of_ofText refused)
  | creation _ read refused =>
    rw [← typeOf_of_ofText read]
    exact alike_creationError hr refused

/-- **A line with another name for its type brings the same**, apart from identities. -/
theorem step_retyped (ht : Synonyms t existing token) (hr : r.Serves t scale)
    (hs : s.Serves t scale) (hpq : p.anonymous = q.anonymous) (line : Nat)
    (h : Retyped existing token text text') :
    Matches (Alike t line [text] [text']) anonymous (p.step scale r line text).1
      (q.step scale s line text').1 := by
  cases h with
  | same eq =>
    subst eq
    refine .of_map_eq (step_anonymous hr hs hpq line text') fun e he => ?_
    exact alike_of_faults hr.registrations_eq (faults_of_step (Prod.ext he rfl)).1
  | retyped lead rest shows_existing shows_token =>
    have hread' : LayerSpec.ofText q.scope scale line text' =
        (LayerSpec.ofText p.scope scale line text).map (LayerSpec.retype token) := by
      rw [show q.scope = p.scope from (congrArg Progress.scope hpq).symm]
      exact shows_existing.ofText_eq shows_token ht.isTypeToken_existing ht.isTypeToken_token
    rw [step, step, shows_existing.kind_eq ht.isTypeToken_existing,
      shows_token.kind_eq ht.isTypeToken_token]
    simp only [addLayer, hread']
    cases hread : LayerSpec.ofText p.scope scale line text with
    | error e => exact .error (.of_code_ne (code_of_ofText hread))
    | ok spec =>
      have hkind : typeOf text = spec.kind := typeOf_of_ofText hread
      have hkind' : typeOf text' = token := shows_token.typeOf_eq ht.isTypeToken_token
      have hexistingKind : spec.kind = existing :=
        hkind.symm.trans (shows_existing.typeOf_eq ht.isTypeToken_existing)
      have hshape := Registry.create_retype_shape_eq ht hr hs hexistingKind
        (LayerSpec.scale_of_ofText hread)
      obtain ⟨result, r', hcreate⟩ : ∃ result r', r.create spec = (result, r') := ⟨_, _, rfl⟩
      obtain ⟨result', s', hcreate'⟩ : ∃ result s', s.create (spec.retype token) = (result, s') :=
        ⟨_, _, rfl⟩
      rw [hcreate, hcreate'] at hshape
      simp only [Except.map, hcreate, hcreate']
      rcases error_or_ok_of_map_eq hshape with ⟨c, rfl, rfl⟩ | ⟨node, node', rfl, rfl, hnode⟩
      · have hrefused : (r.create spec).1 = .error c := by rw [hcreate]
        have halike : Alike t line [text] [text'] (creationError (typeOf text) line c)
            (creationError (typeOf text') line c) :=
          alike_creationError hr.registrations_eq hrefused
        rw [hkind, hkind'] at halike
        exact .error halike
      · exact .ok (anonymous_attach hpq hnode spec.indent)

/-- **Lines with another name for their types bring the same**, apart from identities. -/
theorem run_retyped (ht : Synonyms t existing token) (hr : r.Serves t scale)
    (hs : s.Serves t scale) (hpq : p.anonymous = q.anonymous) (line : Nat)
    {texts texts' : List String} (h : List.Forall₂ (Retyped existing token) texts texts') :
    Matches (Alike t line texts texts') anonymous (p.run scale r line texts).1
      (q.run scale s line texts').1 := by
  induction h generalizing p q r s line with
  | nil => exact .ok hpq
  | @cons text text' texts texts' htext _ ih =>
    have hstep := step_retyped ht hr hs hpq line htext
    have hr' := stable_step Registry.stable_serves hr p line text
    have hs' := stable_step Registry.stable_serves hs q line text'
    obtain ⟨result, r', h⟩ : ∃ result r', p.step scale r line text = (result, r') := ⟨_, _, rfl⟩
    obtain ⟨result', s', h'⟩ : ∃ result s', q.step scale s line text' = (result, s') := ⟨_, _, rfl⟩
    rw [h] at hstep hr'
    rw [h'] at hstep hs'
    cases hstep with
    | error related =>
      rw [run_cons_of_error h, run_cons_of_error h']
      exact .error related.head
    | ok agree =>
      rw [run_cons_of_ok h, run_cons_of_ok h']
      exact (ih hr' hs' agree (line + 1)).mono fun _ _ => Alike.tail

/-- What is wrong with the end of a block is no generic failure. -/
theorem code_of_finish {start : Nat} (h : p.finish start = .error e) : e.cause.code ≠ 140 := by
  rw [finish] at h
  split at h
  · obtain rfl := Except.error.inj h
    exact (by decide : (110 : Nat) ≠ 140)
  · exact absurd h (by simp)

end Progress

/-! ## Blocks and documents -/

namespace Inflater

variable {i j : Inflater} {lines lines' : List String}

theorem block_retyped (ht : Synonyms t existing token) (hi : i.Serves t scale)
    (hj : j.Serves t scale) (globals : Scope) {b b' : Block}
    (h : b.Related (Retyped existing token) b') :
    Matches (Alike t b.start b.lines b'.lines) Overlay.anonymous (i.block globals b).1
      (j.block globals b').1 := by
  have hrun := Progress.run_retyped ht hi.registry hj.registry (p := .start globals) rfl b.start
    h.lines
  rw [block, block, hi.scale_eq, hj.scale_eq, h.start_eq]
  obtain ⟨result, r, hrunb⟩ : ∃ result r,
    (Progress.start globals).run scale i.registry b.start b.lines = (result, r) := ⟨_, _, rfl⟩
  obtain ⟨result', s, hrunb'⟩ : ∃ result s,
    (Progress.start globals).run scale j.registry b.start b'.lines = (result, s) := ⟨_, _, rfl⟩
  rw [hrunb, hrunb'] at hrun
  rw [hrunb, hrunb']
  cases hrun with
  | error related => exact .error related
  | @ok p q agree =>
    refine .of_map_eq ?_ fun e he => .of_code_ne (Progress.code_of_finish he)
    rw [Progress.finish_anonymous, Progress.finish_anonymous, agree]

/-- The lines of blocks are those of a document, at their own numbers. -/
def Placed (lines : List String) (bs : List Block) : Prop :=
  ∀ b ∈ bs, 1 ≤ b.start ∧
    ∀ (k : Nat) (text : String), b.lines[k]? = some text → lines[b.start - 1 + k]? = some text

theorem placed_of_split {d : Document} (h : Document.split lines = .ok d) :
    Placed lines d.blocks := by
  obtain ⟨-, hblocks⟩ := Document.split_eq_ok_iff_bodyBlocks.mp h
  rw [hblocks]
  intro b hb
  refine ⟨?_, fun k text htext => (Document.getElem?_of_mem_bodyBlocks hb htext).2.1⟩
  exact Nat.le_trans (Nat.le_add_left 1 _) (Block.le_start_of_mem_runs (List.mem_filter.mp hb).1)

/-- What is wrong with the globals is no generic failure. -/
theorem code_of_split {e : Error} (h : Document.split lines = .error e) : e.cause.code ≠ 140 := by
  obtain ⟨_, _, _, _, _, -, -, hdeclare, -⟩ := Document.split_eq_error_iff.mp h
  exact Progress.code_of_declareLine hdeclare

theorem blocks_retyped (ht : Synonyms t existing token) (hi : i.Serves t scale)
    (hj : j.Serves t scale) (globals : Scope) {bs bs' : List Block}
    (h : List.Forall₂ (Block.Related (Retyped existing token)) bs bs')
    (hplaced : Placed lines bs) (hplaced' : Placed lines' bs') :
    Matches (Alike t 1 lines lines') (List.map Overlay.anonymous) (i.blocks globals bs).1
      (j.blocks globals bs').1 := by
  induction h generalizing i j with
  | nil => exact .ok rfl
  | @cons b b' bs bs' hb _ ih =>
    obtain ⟨⟨hone, hget⟩, hplaced⟩ := List.forall_mem_cons.mp hplaced
    obtain ⟨⟨-, hget'⟩, hplaced'⟩ := List.forall_mem_cons.mp hplaced'
    have hblock := block_retyped ht hi hj globals hb
    have hi' := serves_block hi globals b
    have hj' := serves_block hj globals b'
    obtain ⟨result, i', h⟩ : ∃ result i', i.block globals b = (result, i') := ⟨_, _, rfl⟩
    obtain ⟨result', j', h'⟩ : ∃ result j', j.block globals b' = (result, j') := ⟨_, _, rfl⟩
    rw [h] at hblock hi'
    rw [h'] at hblock hj'
    cases hblock with
    | error related =>
      rw [blocks_cons_of_error h, blocks_cons_of_error h']
      rw [hb.start_eq] at hget'
      rw [← Nat.add_sub_cancel' hone] at related
      exact .error (related.shift hget hget')
    | ok agree =>
      rw [blocks_cons_of_ok h, blocks_cons_of_ok h']
      have hrest := ih hi' hj' hplaced hplaced'
      obtain ⟨os, hos⟩ : ∃ os, (i'.blocks globals bs).1 = os := ⟨_, rfl⟩
      obtain ⟨os', hos'⟩ : ∃ os, (j'.blocks globals bs').1 = os := ⟨_, rfl⟩
      rw [hos, hos'] at hrest
      rw [hos, hos']
      cases hrest with
      | error related => exact .error related
      | ok agree' => exact .ok (by rw [List.map_cons, List.map_cons, agree, agree'])

/-- **Documents with another name for some types give the same**, apart from identities. -/
theorem document_retyped (ht : Synonyms t existing token) (hi : i.Serves t scale)
    (hj : j.Serves t scale) (h : List.Forall₂ (Retyped existing token) lines lines') :
    Matches (Alike t 1 lines lines') (List.map Overlay.anonymous) (i.document lines).1
      (j.document lines').1 := by
  rw [document, document]
  rcases Document.related_split (indistinct_retyped ht) h with
    ⟨e, he, he'⟩ | ⟨globals, blocks, blocks', hok, hok', hblocks⟩
  · rw [he, he']
    exact .error (.of_code_ne (code_of_split he))
  · rw [hok, hok']
    exact blocks_retyped ht hi hj globals hblocks (placed_of_split hok) (placed_of_split hok')

/-- **A second name inflates like the first one.**  Let a registry keep no leaves and have
factories that read the arguments and the scale alone, let the type of a token be given a
second name, whatever that was registered for before, and let a document be written with the
second name in place of the first one on some of its layer lines.

Then both documents give overlays, which are equal apart from identities; or both fail, with
the same code on the same line.  The errors are the same except for a generic failure, which
shows the name that is written on its line. -/
theorem document_of_alias {r s : Registry} (hkept : r.kept = []) (hreads : r.ReadsArguments)
    (halias : r.addAlias existing token = .ok s) (hexisting : IsTypeToken existing)
    (htoken : IsTypeToken token) (h : List.Forall₂ (Retyped existing token) lines lines')
    (scale : Scale) :
    let i : Inflater := ⟨s, scale⟩
    (∃ os os', (i.document lines).1 = .ok os ∧ (i.document lines').1 = .ok os' ∧
      os.map Overlay.anonymous = os'.map Overlay.anonymous) ∨
    ∃ e e', (i.document lines).1 = .error e ∧ (i.document lines').1 = .error e' ∧
      e'.cause.code = e.cause.code ∧ e'.line = e.line ∧ (e.cause.code ≠ 140 → e' = e) ∧
      Alike s.registrations 1 lines lines' e e' := by
  intro i
  have ht := Registry.synonyms_addAlias hreads halias hexisting htoken
  have hi : i.Serves s.registrations scale :=
    ⟨rfl, rfl, fun kind registration hget => (ht.reads kind registration hget).ignoresIndent,
      Registry.faithful_of_kept_eq_nil ((Registry.kept_addAlias halias).trans hkept)⟩
  have hmatches := document_retyped ht hi hi h
  obtain ⟨x, hx⟩ : ∃ x, (i.document lines).1 = x := ⟨_, rfl⟩
  obtain ⟨y, hy⟩ : ∃ y, (i.document lines').1 = y := ⟨_, rfl⟩
  rw [hx, hy] at hmatches ⊢
  cases hmatches with
  | ok agree => exact .inl ⟨_, _, rfl, rfl, agree⟩
  | error related =>
    obtain ⟨hcode, hline, hsame⟩ := related.code_eq
    exact .inr ⟨_, _, rfl, rfl, hcode, hline, hsame, related⟩

/-- The built-in layer types, where a keyline may be called a ruler too. -/
def rulers : Registry :=
  .register .builtIn "ruler" Factory.keyline true

/-- Two keylines, one of which is inside an inset. -/
def keylineLines : List String :=
  ["inset left=4px", "  keyline from=left distance=8px", "keyline from=left distance=8px"]

/-- The same lines, where one of the keylines is called a ruler. -/
def rulerLines : List String :=
  ["inset left=4px", "  ruler from=left distance=8px", "keyline from=left distance=8px"]

theorem retyped_rulerLines :
    List.Forall₂ (Retyped Keyline.token "ruler") keylineLines rulerLines := by
  have hrest : ∀ c ∈ " from=left distance=8px".toList.head?, Text.isBlank c = true := by
    intro c hc
    obtain rfl : ' ' = c := Option.some.inj hc
    rfl
  have hlead : Text.Blanks "  ".toList := by decide
  exact .cons (.same rfl) (.cons (.retyped _ _ ⟨rfl, hlead, hrest⟩ ⟨rfl, hlead, hrest⟩)
    (.cons (.same rfl) .nil))

/-- With the second name for one of two keylines a document gives the same overlay, although
the keylines are no longer kept as one. -/
theorem document_of_alias_of_ruler :
    Registry.builtIn.addAlias Keyline.token "ruler" = .ok rulers ∧
      ∃ os os', ((⟨rulers, .standard⟩ : Inflater).document keylineLines).1 = .ok os ∧
        ((⟨rulers, .standard⟩ : Inflater).document rulerLines).1 = .ok os' ∧
        os.map Overlay.anonymous = os'.map Overlay.anonymous := by
  have halias : Registry.builtIn.addAlias Keyline.token "ruler" = .ok rulers := rfl
  have hkeyline : IsTypeToken Keyline.token := ⟨by decide, by decide, by decide, by decide⟩
  have hruler : IsTypeToken "ruler" := ⟨by decide, by decide, by decide, by decide⟩
  refine ⟨halias, ?_⟩
  rcases document_of_alias rfl Registry.readsArguments_builtIn halias hkeyline hruler
    retyped_rulerLines .standard with hsame | ⟨e, e', he, -⟩
  · exact hsame
  · have hok : ((⟨rulers, .standard⟩ : Inflater).document keylineLines).1 = .ok _ := rfl
    exact absurd (he.symm.trans hok) (by simp)

/-- A generic failure shows the name on its line. -/
example :
    let brush : Registry := .register .empty "pen" (fun _ => .error (.foreign "dry")) false
    ((⟨brush, .standard⟩ : Inflater).document ["", "pen width=2px"]).1 =
      .error ⟨.layerFailure "pen" "dry", some 2⟩ := rfl

end Inflater
end SpecOverlay
