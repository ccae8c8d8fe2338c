import SpecOverlay.Proofs.Text.Words
import SpecOverlay.Scope

/-!
# The form of a declaration

`Declaration.Form` says which texts declare a name and a value: an at sign, a name, an
equals sign and a text on one line that is not blank.  The name ends before the first
equals sign, because no name has one, and the value is the text behind it without the
blanks around it.

`ofText_accepts_form` says that a line is read as a declaration exactly if it has this
form between blanks, and that what is refused is named as it stands between them.  A
declaration may also be written down: `Layout` is a line with a name and a value in its
parts, and reading it gives the name and the value back, whatever the blanks are.
-/

namespace SpecOverlay
namespace Declaration

variable {s : List Char} {c : Char} {d : Declaration}

/-! ## The form -/

/-- The characters of a name: the letters and digits of ASCII, and the underscore. -/
def NameChar (c : Char) : Prop :=
  ('A' ≤ c ∧ c ≤ 'Z') ∨ ('a' ≤ c ∧ c ≤ 'z') ∨ ('0' ≤ c ∧ c ≤ '9') ∨ c = '_'

theorem isNameChar_iff : isNameChar c = true ↔ NameChar c := by
  unfold isNameChar NameChar Char.isAlphanum Char.isAlpha Char.isUpper Char.isLower Char.isDigit
  simp only [Bool.or_eq_true, Bool.and_eq_true, decide_eq_true_eq, beq_iff_eq, Char.le_def,
    ge_iff_le, or_assoc]

/-- There are characters, and all of them are characters of a name. -/
def IsName (s : List Char) : Prop :=
  s ≠ [] ∧ ∀ c ∈ s, NameChar c

/-- The texts that declare a name and a value. -/
inductive Form : List Char → Declaration → Prop
  | mk {name text : List Char} (isName : IsName name) (oneLine : '\n' ∉ text)
    (notBlank : ¬ Text.Blanks text) :
    Form ('@' :: (name ++ '=' :: text)) ⟨String.ofList name, String.ofList (Text.trim text)⟩

theorem isName_takeWhile (h : s.takeWhile isNameChar ≠ []) : IsName (s.takeWhile isNameChar) :=
  ⟨h, fun c hc => isNameChar_iff.mp (List.all_eq_true.mp List.all_takeWhile c hc)⟩

/-- What is read has the form. -/
theorem form_of_read? (h : read? s = some d) : Form s d := by
  unfold read? at h
  split at h
  · rename_i s
    split at h
    · exact absurd h (by simp)
    · rename_i text hdrop hname
      split at h
      · exact absurd h (by simp)
      · rename_i hvalue
        rw [Bool.or_eq_true, List.isEmpty_iff, List.contains_iff_mem, not_or,
          Text.trim_eq_nil_iff] at hvalue
        obtain rfl := Option.some.inj h
        have hform := Form.mk (isName_takeWhile hname) hvalue.2 hvalue.1
        rwa [← hdrop, List.takeWhile_append_dropWhile] at hform
    · exact absurd h (by simp)
  · exact absurd h (by simp)

/-- What has the form is read. -/
theorem Form.read?_eq (h : Form s d) : read? s = some d := by
  obtain ⟨⟨hne, hname⟩, hline, hblank⟩ := h
  rename_i name text
  have hchars : ∀ c ∈ name, isNameChar c = true := fun c hc => isNameChar_iff.mpr (hname c hc)
  have hvalue : ¬ ((Text.trim text).isEmpty || text.contains '\n') = true := by
    rw [Bool.or_eq_true, List.isEmpty_iff, List.contains_iff_mem, not_or, Text.trim_eq_nil_iff]
    exact ⟨hblank, hline⟩
  rw [read?, Text.takeWhile_append_cons hchars (by decide),
    Text.dropWhile_append_cons hchars (by decide)]
  cases name with
  | nil => exact absurd rfl hne
  | cons c cs => exact if_neg hvalue

/-- **A text is read as a declaration exactly if it has the form of one.** -/
theorem read?_eq_some_iff : read? s = some d ↔ Form s d :=
  ⟨form_of_read?, Form.read?_eq⟩

/-! ## Declarations that are written down -/

/-- A line that declares a value, in its parts: blanks, an at sign, a name, an equals sign,
blanks on the same line, the value, and blanks. -/
structure Layout where
  lead : List Char
  name : List Char
  gap : List Char
  value : List Char
  tail : List Char
  blanks_lead : Text.Blanks lead
  isName_name : IsName name
  blanks_gap : Text.Blanks gap
  newline_notMem_gap : '\n' ∉ gap
  value_ne_nil : value ≠ []
  trimmed_value : Text.Trimmed value
  newline_notMem_value : '\n' ∉ value
  blanks_tail : Text.Blanks tail

namespace Layout

/-- The line in one piece. -/
def text (l : Layout) : List Char :=
  l.lead ++ ('@' :: (l.name ++ '=' :: (l.gap ++ l.value)) ++ l.tail)

/-- The name and the value on the line. -/
def declaration (l : Layout) : Declaration :=
  ⟨String.ofList l.name, String.ofList l.value⟩

theorem trim_text (l : Layout) :
    Text.trim l.text = '@' :: (l.name ++ '=' :: (l.gap ++ l.value)) := by
  have hlast : ('@' :: (l.name ++ '=' :: (l.gap ++ l.value))).getLast? = l.value.getLast? := by
    have hsplit : '@' :: (l.name ++ '=' :: (l.gap ++ l.value)) =
        ('@' :: (l.name ++ '=' :: l.gap)) ++ l.value := by
      simp only [List.cons_append, List.append_assoc]
    rw [hsplit, List.getLast?_append_of_ne_nil _ l.value_ne_nil]
  rw [text, Text.trim_blanks_append l.blanks_lead, Text.trim_append_blanks l.blanks_tail]
  refine Text.trim_of_trimmed ⟨fun c hc => ?_, fun c hc => ?_⟩
  · obtain rfl := Option.some.inj hc
    rfl
  · rw [hlast] at hc
    exact l.trimmed_value.2 c hc

/-- **A line that is written down has the form of its declaration**, between blanks. -/
theorem form (l : Layout) : Form (Text.trim l.text) l.declaration := by
  have hvalue : Text.trim (l.gap ++ l.value) = l.value := by
    rw [Text.trim_blanks_append l.blanks_gap, Text.trim_of_trimmed l.trimmed_value]
  have hline : '\n' ∉ l.gap ++ l.value := by
    rw [List.mem_append, not_or]
    exact ⟨l.newline_notMem_gap, l.newline_notMem_value⟩
  have hblank : ¬ Text.Blanks (l.gap ++ l.value) := by
    rw [← Text.trim_eq_nil_iff, hvalue]
    exact l.value_ne_nil
  have hform := Form.mk l.isName_name hline hblank
  rwa [hvalue, ← l.trim_text] at hform

end Layout

/-! ## Lines -/

theorem ofText_eq_ok_iff {line : String} :
    ofText line = .ok d ↔ Form (Text.trim line.toList) d := by
  rw [← read?_eq_some_iff, ofText]
  cases read? (Text.trim line.toList) <;> simp

theorem ofText_eq_error_iff {line : String} {e : Error} :
    ofText line = .error e ↔ (∀ d, ¬ Form (Text.trim line.toList) d) ∧
      e = ⟨.malformedVariable (String.ofList (Text.trim line.toList)), none⟩ := by
  simp only [← read?_eq_some_iff, ofText]
  cases read? (Text.trim line.toList) <;> simp [eq_comm]

/-- **A line is read as a declaration exactly if it has the form of one between blanks.**

* It declares a name and a value if and only if the line without the blanks around it is
  an at sign, the name, an equals sign and a text that has no line feed and is not blank,
  and the value is this text without the blanks around it.
* It is refused if and only if it declares nothing, with the cause numbered 100 and the
  line without the blanks around it.
* A name and a value that are written down, with any blanks around the line and any but
  line feeds before the value, are read back. -/
theorem ofText_accepts_form (line : String) :
    (∀ d, ofText line = .ok d ↔ Form (Text.trim line.toList) d) ∧
    (∀ e, ofText line = .error e ↔ (∀ d, ¬ Form (Text.trim line.toList) d) ∧
      e = ⟨.malformedVariable (String.ofList (Text.trim line.toList)), none⟩ ∧
      e.cause.code = 100) ∧
    ∀ l : Layout, ofText (String.ofList l.text) = .ok l.declaration := by
  refine ⟨fun d => ofText_eq_ok_iff, fun e => ?_, fun l => ?_⟩
  · rw [ofText_eq_error_iff]
    refine and_congr_right fun _ => (and_iff_left_of_imp ?_).symm
    rintro rfl
    rfl
  · rw [ofText_eq_ok_iff, String.toList_ofList]
    exact l.form

example : ofText " @label=\t= @all edges \n" = .ok ⟨"label", "= @all edges"⟩ := rfl

end Declaration
end SpecOverlay
