import SpecOverlay.Error
import SpecOverlay.Table

/-!
# Variables

A declaration is a line of the form `@name=value`.  A scope binds names to
values, and a value that begins with an at sign is looked up when it is declared,
not when it is used.  So no stored value refers to another variable, and a later
declaration of one name does not reach the variables that were defined by it.

`ofText` reads a declaration, `declare` binds one and `resolve` replaces a
reference by its value.
-/

namespace SpecOverlay

/-! ## Declarations -/

/-- A name and the text that is declared for it. -/
structure Declaration where
  name : String
  value : String
  deriving DecidableEq

namespace Declaration

/-- The characters of a name: ASCII letters and digits, and the underscore. -/
def isNameChar (c : Char) : Bool :=
  c.isAlphanum || c == '_'

/-- A declaration without blanks around it: an at sign, a name, an equals sign and
a text that is not blank and stays on one line. -/
def read? : List Char → Option Declaration
  | '@' :: s =>
    match s.takeWhile isNameChar, s.dropWhile isNameChar with
    | [], _ => none
    | name, '=' :: value =>
      if (Text.trim value).isEmpty || value.contains '\n' then none
      else some ⟨String.ofList name, String.ofList (Text.trim value)⟩
    | _, _ => none
  | _ => none

/-- The declaration on a line. -/
def ofText (line : String) : Except Error Declaration :=
  let trimmed := Text.trim line.toList
  match read? trimmed with
  | some d => .ok d
  | none => .error ⟨.malformedVariable (String.ofList trimmed), none⟩

end Declaration

/-! ## Scopes -/

/-- The variables in force and their values. -/
structure Scope where
  values : Table String
  deriving DecidableEq

namespace Scope

/-- No variables. -/
def empty : Scope :=
  ⟨.empty⟩

/-- The value of a variable. -/
def get? (s : Scope) (name : String) : Option String :=
  s.values.get? name

/-- The number of variables. -/
def size (s : Scope) : Nat :=
  s.values.size

/-- The name that a token refers to: what follows an at sign. -/
def reference? (token : String) : Option String :=
  match token.toList with
  | '@' :: name => some (String.ofList name)
  | _ => none

/-- The value of a token that refers to a variable, and any other token itself. -/
def resolve (s : Scope) (line : Nat) (token : String) : Except Error String :=
  match reference? token with
  | none => .ok token
  | some name =>
    match s.get? name with
    | some value => .ok value
    | none => .error ⟨.undeclaredVariable name, some line⟩

/-- Binds a name to the value that a text has now. -/
def declare (s : Scope) (line : Nat) (d : Declaration) : Except Error Scope :=
  (s.resolve line d.value).map fun value => ⟨s.values.insert d.name value⟩

/-- Reads a declaration from a line and binds it. -/
def declareLine (s : Scope) (line : Nat) (text : String) : Except Error Scope :=
  match Declaration.ofText text with
  | .ok d => s.declare line d
  | .error e => .error (e.atLine line)

theorem get?_of_declare {s t : Scope} {line : Nat} {d : Declaration}
    (h : s.declare line d = .ok t) (name : String) :
    ∃ value, s.resolve line d.value = .ok value ∧
      t.get? name = if d.name = name then some value else s.get? name := by
  rw [declare] at h
  cases hr : s.resolve line d.value with
  | error e => rw [hr] at h; cases h
  | ok value =>
    rw [hr] at h
    cases h
    exact ⟨value, rfl, Table.get?_insert _ _ _ _⟩

end Scope
end SpecOverlay
