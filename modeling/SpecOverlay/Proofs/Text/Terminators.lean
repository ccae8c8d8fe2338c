import SpecOverlay.Text.Line

/-!
# Texts that are joined from lines

Lines are joined to a text with terminators behind them, of either kind and in any mixture;
behind the last line there may be none (`Joins`).  If no line holds a line feed or ends in a
carriage return (`IsLine`), the text has these lines, with one exception that both endings of
a text share: an empty last line without a terminator leaves no trace (`Joins.linesOf_eq`).
-/

namespace SpecOverlay
namespace Text

/-- What ends a line. -/
inductive Terminator where
  | feed
  | returnFeed

/-- The characters of a terminator. -/
def Terminator.chars : Terminator → List Char
  | feed => ['\n']
  | returnFeed => ['\r', '\n']

/-- The text has the given lines, each with a terminator behind it.  Behind the last line the
text may end instead. -/
inductive Joins : List String → List Char → Prop
  | nil : Joins [] []
  | last (text : String) : Joins [text] text.toList
  | cons (text : String) (t : Terminator) {texts : List String} {s : List Char}
    (rest : Joins texts s) : Joins (text :: texts) (text.toList ++ (t.chars ++ s))

/-- A line holds no line feed and does not end in a carriage return, which would be taken for a
part of the terminator behind it. -/
def IsLine (text : String) : Prop :=
  '\n' ∉ text.toList ∧ text.toList.getLast? ≠ some '\r'

instance (text : String) : Decidable (IsLine text) :=
  inferInstanceAs (Decidable (_ ∧ _))

variable {l s : List Char} {c : Char} {text : String} {texts : List String}

/-- A character that no terminator begins with belongs to the first line. -/
theorem lines_cons (hfeed : c ≠ '\n') (hreturn : c = '\r' → s.head? ≠ some '\n') :
    lines (c :: s) =
      match lines s with
      | [] => [[c]]
      | l :: ls => (c :: l) :: ls := by
  rw [lines.eq_def]
  split
  · contradiction
  · rename_i heq
    exact absurd (List.cons.inj heq).1 hfeed
  · rename_i heq
    obtain ⟨rfl, rfl⟩ := List.cons.inj heq
    exact absurd rfl (hreturn rfl)
  · rename_i heq
    obtain ⟨rfl, rfl⟩ := List.cons.inj heq
    rfl

theorem lines_terminator (t : Terminator) (s : List Char) :
    lines (t.chars ++ s) = [] :: lines s := by
  cases t with
  | feed => rfl
  | returnFeed => rfl

/-- **A terminator ends a line.** -/
theorem lines_append_terminator (hfeed : '\n' ∉ l) (hreturn : l.getLast? ≠ some '\r')
    (t : Terminator) (s : List Char) : lines (l ++ (t.chars ++ s)) = l :: lines s := by
  induction l with
  | nil => exact lines_terminator t s
  | cons c l ih =>
    obtain ⟨hc, hl⟩ : '\n' ≠ c ∧ '\n' ∉ l := by simpa using hfeed
    cases l with
    | nil =>
      have hc' : c ≠ '\r' := fun h => hreturn (congrArg some h)
      rw [List.singleton_append, lines_cons hc.symm (fun h => absurd h hc'), lines_terminator]
    | cons d l =>
      have hd : (d :: l ++ (t.chars ++ s)).head? ≠ some '\n' :=
        fun h => hl (Option.some.inj h ▸ List.mem_cons_self)
      rw [List.getLast?_cons_cons] at hreturn
      rw [List.cons_append, lines_cons hc.symm (fun _ => hd), ih hl hreturn]

/-- A text without line feeds is one line, if it is not empty. -/
theorem lines_of_newline_notMem (hfeed : '\n' ∉ l) (hne : l ≠ []) : lines l = [l] := by
  induction l with
  | nil => exact absurd rfl hne
  | cons c l ih =>
    obtain ⟨hc, hl⟩ : '\n' ≠ c ∧ '\n' ∉ l := by simpa using hfeed
    have hhead : l.head? ≠ some '\n' := fun h => hl (List.mem_of_mem_head? h)
    rw [lines_cons hc.symm (fun _ => hhead)]
    by_cases hnil : l = []
    · rw [hnil, lines]
    · rw [ih hl hnil]

theorem IsLine.linesOf_append (h : IsLine text) (t : Terminator) {source rest : String}
    (hsource : source.toList = text.toList ++ (t.chars ++ rest.toList)) :
    linesOf source = text :: linesOf rest := by
  rw [linesOf, hsource, lines_append_terminator h.1 h.2, List.map_cons, String.ofList_toList,
    linesOf]

/-- **A text that is joined from lines has these lines**, but for an empty one at the end. -/
theorem Joins.linesOf_eq {source : String} (hlines : ∀ text ∈ texts, IsLine text)
    (h : Joins texts source.toList) :
    texts = linesOf source ∨ texts = linesOf source ++ [""] := by
  generalize hs : source.toList = s at h
  induction h generalizing source with
  | nil => exact .inl (by rw [linesOf, hs, lines, List.map_nil])
  | last text =>
    have htext : source = text := String.toList_injective hs
    by_cases hne : text.toList = []
    · have hempty : text = "" := String.toList_injective hne
      exact .inr (by rw [htext, hempty]; rfl)
    · left
      rw [linesOf, hs, lines_of_newline_notMem (hlines text List.mem_cons_self).1 hne,
        List.map_singleton, String.ofList_toList]
  | @cons text t texts s rest ih =>
    obtain ⟨htext, htexts⟩ := List.forall_mem_cons.mp hlines
    have hrest : (String.ofList s).toList = s := String.toList_ofList
    have hsource : source.toList = text.toList ++ (t.chars ++ (String.ofList s).toList) := by
      rw [hs, hrest]
    rw [htext.linesOf_append t hsource]
    rcases ih htexts hrest with h | h
    · exact .inl (congrArg _ h)
    · exact .inr (congrArg _ h)

end Text
end SpecOverlay
