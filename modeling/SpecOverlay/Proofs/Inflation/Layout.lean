import SpecOverlay.Proofs.Inflation.Indents
import SpecOverlay.Proofs.LayerSpec.Reading

/-!
# The layout of a document

A document may be laid out anew: the spaces that its lines begin with may be others, as
long as the order of the indents is the same, blanks may be appended to lines, and the
words of a layer line may have any blanks between them (`Relaid`).  If the factories ignore
the indent, nothing of this can be seen in the overlays or the error: `document_relaid` says
that a registry gives the same for both documents, and keeps the same.

A factory is told the indent, though, and may decide by it.  With one that does, two layouts
of a document need not even agree on whether it can be inflated
(`not_document_relaid_of_outermostOnly`).  All that such a factory can see of the layout is the
moved indent, and that is the other half of `document_relaid`.

A line that is laid out anew reads the same apart from its indent (`Relaid.rereads`).  The
kind of a line shows in its first word already (`LineKind.ofTrimmed_append`), and its
words do not depend on the blanks between them.
-/

namespace SpecOverlay

/-! ## Lines that are laid out anew -/

/-- A line that is laid out anew.  It begins with other spaces than the given line, as many
as a function says, and ends with other blanks; and if it is a layer line, its words have
other blanks between them. -/
inductive Relaid (f : Nat → Nat) (text text' : String) : Prop
  | layer (l l' : Text.Layout) (kind : LineKind.of text = .layer)
    (rest : text.toList.dropWhile (· == ' ') = l.text) (lead_eq : l'.lead = l.lead)
    (words_eq : l'.words = l.words)
    (anew : text'.toList =
      List.replicate (f (LayerSpec.indentOf text.toList)) ' ' ++ l'.text) :
    Relaid f text text'
  | other (s t t' : List Char) (kind : LineKind.of text ≠ .layer)
    (rest : text.toList.dropWhile (· == ' ') = s ++ t) (blanks : Text.Blanks t)
    (blanks' : Text.Blanks t')
    (anew : text'.toList =
      List.replicate (f (LayerSpec.indentOf text.toList)) ' ' ++ (s ++ t')) :
    Relaid f text text'

variable {f : Nat → Nat}

theorem trim_of_spaces {s t : List Char} {n : Nat} (h : s = List.replicate n ' ' ++ t) :
    Text.trim s = Text.trim t := by
  rw [h, Text.trim_blanks_append (Text.Blanks.replicate_space n)]

/-- **A line that is laid out anew reads the same apart from its indent.** -/
theorem Relaid.rereads {text text' : String} (h : Relaid f text text') :
    Rereads f text text' := by
  have hspaces := (LayerSpec.replicate_indentOf_append text.toList).symm
  have hindent := LayerSpec.indentOf_dropWhile text.toList
  cases h with
  | other s t t' kind rest blanks blanks' anew =>
    rw [rest] at hspaces
    have htrim : Text.trim text'.toList = Text.trim text.toList := by
      rw [trim_of_spaces anew, trim_of_spaces hspaces, Text.trim_append_blanks blanks,
        Text.trim_append_blanks blanks']
    have hkind : LineKind.of text' = LineKind.of text := by
      rw [LineKind.of, htrim, LineKind.of]
    exact ⟨hkind, fun _ => htrim, fun hlayer => absurd hlayer kind,
      fun hlayer => absurd hlayer kind⟩
  | layer l l' kind rest lead_eq words_eq anew =>
    rw [rest] at hspaces hindent
    obtain ⟨t, ht, hblank⟩ := l.exists_trim_text
    obtain ⟨t', ht', hblank'⟩ := l'.exists_trim_text
    have hfirst : l'.first = l.first := (List.cons.inj words_eq).1
    refine ⟨?_, fun hother => absurd kind hother, fun _ => ?_, fun _ => ?_⟩
    · rw [LineKind.of, trim_of_spaces anew, ht', LineKind.ofTrimmed_append l'.isWord_first.1 hblank',
        hfirst, LineKind.of, trim_of_spaces hspaces, ht,
        LineKind.ofTrimmed_append l.isWord_first.1 hblank]
    · rw [anew, Text.words_blanks_append (Text.Blanks.replicate_space _), l'.words_text, words_eq,
        hspaces, Text.words_blanks_append (Text.Blanks.replicate_space _), l.words_text]
    · rw [anew, LayerSpec.indentOf_replicate_append, LayerSpec.indentOf_text, lead_eq,
        ← LayerSpec.indentOf_text, hindent, Nat.add_zero]

/-! ## Documents that are laid out anew -/

namespace Inflater

/-- **The layout of a document does not matter beyond the order of its indents.**  Let a
document be laid out anew, with its indents moved by a strictly increasing function.

* For every inflater it gives what the document gives if the factories are told the moved
  indents: the same overlays or the same error, and the same kept leaves.
* If the factories ignore the indent, it gives what the document gives, and leaves the
  same inflater. -/
theorem document_relaid (hf : StrictMono f) {lines lines' : List String}
    (h : List.Forall₂ (Relaid f) lines lines') (i : Inflater) :
    (i.reindent f).document lines =
        ((i.document lines').1, (i.document lines').2.reindent f) ∧
      (i.registry.IgnoresIndent → i.document lines' = i.document lines) := by
  have hmoved := document_reindent hf (h.imp fun _ _ hline => hline.rereads) i
  refine ⟨hmoved, fun hr => ?_⟩
  have hstable : Registry.Stable i.scale Registry.IgnoresIndent := fun r spec hr _ =>
    Registry.ignoresIndent_of_registrations hr (Registry.registrations_create r spec)
  have hafter := (stable_document hstable hr lines').1
  have hself : i.reindent f = i := by
    rw [reindent, Registry.reindent_eq_self f hr]
  have hself' : (i.document lines').2.reindent f = (i.document lines').2 := by
    rw [reindent, Registry.reindent_eq_self f hafter]
  rw [hself, hself'] at hmoved
  exact hmoved.symm

/-- A factory that makes a fill, but only on a line that is not indented. -/
def outermostOnly : Factory := fun spec =>
  if spec.indent = 0 then .ok (.leaf (.fill ⟨Fill.defaultColor⟩)) else .error (.foreign "indented")

/-- An inflater with that factory as its only layer type. -/
def outermostProbe : Inflater :=
  ⟨Registry.empty.register "probe" outermostOnly false, .standard⟩

/-- **A factory that decides by the indent sees the layout.**  A document with one layer line can
be inflated, and if the line is moved by a space it cannot. -/
theorem not_document_relaid_of_outermostOnly :
    (outermostProbe.document ["probe"]).1 =
        .ok [⟨none, [.leaf 0 (.fill ⟨Fill.defaultColor⟩)]⟩] ∧
      (outermostProbe.document [" probe"]).1 =
        .error ⟨.layerFailure "probe" "indented", some 1⟩ ∧
      ¬ ∀ (i : Inflater) (f : Nat → Nat) (lines lines' : List String), StrictMono f →
          List.Forall₂ (Relaid f) lines lines' →
          (i.document lines').1.isOk = (i.document lines).1.isOk := by
  refine ⟨rfl, rfl, fun h => ?_⟩
  have hline : Relaid (· + 1) "probe" " probe" :=
    .layer ⟨[], "probe".toList, [], [], by decide, by decide, by decide⟩
      ⟨[], "probe".toList, [], [], by decide, by decide, by decide⟩ (by decide) rfl rfl rfl rfl
  exact Bool.false_ne_true
    (h outermostProbe (· + 1) ["probe"] [" probe"] (fun _ _ => Nat.succ_lt_succ)
      (.cons hline .nil))

/-- A title, a variable, a group and a layer in it. -/
def insetLines : List String :=
  ["# Margins", "@side=8px", "inset left=@side", "  fill color=red"]

/-- The same lines with wider indents and other blanks. -/
def relaidLines : List String :=
  [" # Margins  ", " @side=8px\t", " inset \t left=@side", "     fill  color=red "]

/-- A layer of a type and one argument. -/
def layerLayout (gap kind argument tail : List Char) (hgap : gap ≠ []) (hblanks : Text.Blanks gap)
    (hkind : Text.IsWord kind) (hargument : Text.IsWord argument) (htail : Text.Blanks tail) :
    Text.Layout :=
  ⟨[], kind, [⟨gap, argument, hgap, hblanks, hargument⟩], tail,
    fun _ hc => absurd hc List.not_mem_nil, hkind, htail⟩

theorem document_relaidLines :
    (⟨.builtIn, .standard⟩ : Inflater).document relaidLines =
        (⟨.builtIn, .standard⟩ : Inflater).document insetLines ∧
      ∃ overlays, ((⟨.builtIn, .standard⟩ : Inflater).document insetLines).1 = .ok overlays := by
  have hf : StrictMono fun n : Nat => 2 * n + 1 := fun a b hab => by
    dsimp only
    omega
  have htitle : Relaid (fun n => 2 * n + 1) "# Margins" " # Margins  " :=
    .other "# Margins".toList [] [' ', ' '] (by decide) rfl (by decide) (by decide) rfl
  have hvariable : Relaid (fun n => 2 * n + 1) "@side=8px" " @side=8px\t" :=
    .other "@side=8px".toList [] ['\t'] (by decide) rfl (by decide) (by decide) rfl
  have hinset : Relaid (fun n => 2 * n + 1) "inset left=@side" " inset \t left=@side" :=
    .layer (layerLayout [' '] "inset".toList "left=@side".toList [] (by decide) (by decide)
        (by decide) (by decide) (by decide))
      (layerLayout [' ', '\t', ' '] "inset".toList "left=@side".toList [] (by decide) (by decide)
        (by decide) (by decide) (by decide))
      (by decide) rfl rfl rfl rfl
  have hfill : Relaid (fun n => 2 * n + 1) "  fill color=red" "     fill  color=red " :=
    .layer (layerLayout [' '] "fill".toList "color=red".toList [] (by decide) (by decide)
        (by decide) (by decide) (by decide))
      (layerLayout [' ', ' '] "fill".toList "color=red".toList [' '] (by decide) (by decide)
        (by decide) (by decide) (by decide))
      (by decide) rfl rfl rfl rfl
  have hlines : List.Forall₂ (Relaid fun n => 2 * n + 1) insetLines relaidLines :=
    .cons htitle (.cons hvariable (.cons hinset (.cons hfill .nil)))
  obtain ⟨-, hsame⟩ := document_relaid hf hlines ⟨.builtIn, .standard⟩
  exact ⟨hsame Registry.ignoresIndent_builtIn, _, rfl⟩

end Inflater
end SpecOverlay
