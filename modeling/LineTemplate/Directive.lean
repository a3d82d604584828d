import LineTemplate.Directive.Expression
import LineTemplate.Line
import LineTemplate.Text.Blank

/-!
# Directives

What a line of a template asks for.

* **`Assignment.parse?`** — reads the one `#set` expression of a text, wherever it stands;
* **`Line.directive`** — reads the directive of a line, or says of which kind it was to be.

Reading needs the body alone, except for references: these are searched in the whole line,
which makes no difference to what is found.
-/

namespace LineTemplate

/-- **An assignment** of a value to a variable. -/
structure Assignment where
  key : Text
  value : Text
deriving DecidableEq, Repr

/-- **A directive**, or the plain text that a line holds without one. -/
inductive Directive where
  | text
  | config (file : Text)
  | assignment (a : Assignment)
  | inclusion (file : Text)
  | references (names : List Text)
deriving DecidableEq, Repr

def only? {α : Type} : List α → Option α
  | [a] => some a
  | _ => none

theorem only?_eq_some_iff {α : Type} {as : List α} {a : α} : only? as = some a ↔ as = [a] := by
  constructor
  · intro h
    unfold only? at h
    split at h
    · cases h; rfl
    · cases h
  · rintro rfl
    rfl

/-- **Reads an assignment.** The text has to contain one `#set` expression with an `=` in it.
The last `=` parts the key, which is trimmed, from the value, which is unquoted. -/
def Assignment.parse? (text : Text) : Option Assignment :=
  (only? (Kind.assignment.expressions (Text.splitAtLast? '=') text)).map fun (key, value) =>
    ⟨Text.trim key, Text.unquote value⟩

namespace Assignment

/-- The expression that an assignment was read off. -/
theorem exists_expression_of_parse? {text : Text} {a : Assignment} (h : parse? text = some a) :
    ∃ key value, ')' ∉ key ++ '=' :: value ∧ '=' ∉ value ∧
      Kind.assignment.expression (key ++ '=' :: value) <:+: text ∧
      a = ⟨Text.trim key, Text.unquote value⟩ := by
  obtain ⟨⟨key, value⟩, honly, rfl⟩ := Option.map_eq_some_iff.1 h
  obtain ⟨inner, hinner, hread, hfound⟩ := Kind.exists_expression_of_mem
    (show (key, value) ∈ _ by rw [only?_eq_some_iff.1 honly]; exact List.mem_cons_self)
  obtain ⟨hvalue, rfl⟩ := Text.eq_of_splitAtLast? hread
  exact ⟨key, value, hinner, hvalue, hfound, rfl⟩

theorem parse?_expression (key : Text) {value : Text} (h : ')' ∉ key ++ '=' :: value)
    (hvalue : '=' ∉ value) :
    parse? (Kind.assignment.expression (key ++ '=' :: value)) =
      some ⟨Text.trim key, Text.unquote value⟩ := by
  rw [parse?, Kind.assignment.expressions_expression h (Text.splitAtLast?_append key hvalue)]
  rfl

end Assignment

namespace Directive

def kind? : Directive → Option Kind
  | .text => none
  | .config _ => some .config
  | .assignment _ => some .assignment
  | .inclusion _ => some .inclusion
  | .references _ => some .reference

def arguments : Directive → List Text
  | .text => []
  | .config file => [file]
  | .assignment a => [a.key, a.value]
  | .inclusion file => [file]
  | .references names => names

end Directive

/-- An element takes its repetitions out of the rest, so an induction goes by what it leaves. -/
theorem eraseDups_induction {α : Type} [BEq α] {motive : List α → Prop} (nil : motive [])
    (cons : ∀ x rest, motive (rest.filter fun a => !a == x) → motive (x :: rest))
    (xs : List α) : motive xs := by
  induction hn : xs.length using Nat.strongRecOn generalizing xs with
  | ind n ih =>
    cases xs with
    | nil => exact nil
    | cons x rest =>
      have hle := List.length_filter_le (fun a => !a == x) rest
      rw [List.length_cons] at hn
      exact cons x rest (ih _ (by omega) _ rfl)

namespace Line

/-- The variables that the line refers to: each name once, in the order of first appearance. -/
def references (line : Line) : List Text := (Kind.reference.expressions some line.text).eraseDups

def directiveOf? (line : Line) : Kind → Option Directive
  | .config => (only? (Kind.config.expressions some line.body)).map .config
  | .assignment => (Assignment.parse? line.body).map .assignment
  | .inclusion => (only? (Kind.inclusion.expressions some line.body)).map .inclusion
  | .reference => if line.references = [] then none else some (.references line.references)

/-- **The directive of a line.** A malformed one is reported by its kind. -/
def directive (line : Line) : Except Kind Directive :=
  match line.kind? with
  | none => .ok .text
  | some kind =>
    match line.directiveOf? kind with
    | none => .error kind
    | some directive => .ok directive

theorem kind?_of_directiveOf? {line : Line} {kind : Kind} {directive : Directive}
    (h : line.directiveOf? kind = some directive) : directive.kind? = some kind := by
  cases kind <;> simp only [directiveOf?, Option.map_eq_some_iff] at h
  case reference =>
    split at h
    · cases h
    · cases h; rfl
  all_goals obtain ⟨_, -, rfl⟩ := h; rfl

theorem kind?_of_directive {line : Line} {directive : Directive}
    (h : line.directive = .ok directive) : directive.kind? = line.kind? := by
  unfold Line.directive at h
  split at h
  case h_1 hkind => cases h; rw [hkind]; rfl
  case h_2 kind hkind =>
    split at h
    case h_1 => cases h
    case h_2 d hd => cases h; rw [hkind, kind?_of_directiveOf? hd]

theorem kind?_of_malformed {line : Line} {kind : Kind} (h : line.directive = .error kind) :
    line.kind? = some kind := by
  unfold Line.directive at h
  split at h
  case h_1 => cases h
  case h_2 k hkind =>
    split at h
    case h_1 => cases h; exact hkind
    case h_2 => cases h

theorem directive_eq_text_iff {line : Line} : line.directive = .ok .text ↔ line.kind? = none := by
  constructor
  · intro h
    exact (kind?_of_directive h).symm
  · intro h
    simp only [directive, h]

/-- A line of references holds one at least, and its directive names all of them. -/
theorem references_of_directive {line : Line} {names : List Text}
    (h : line.directive = .ok (.references names)) : line.references = names ∧ names ≠ [] := by
  have hkind : line.kind? = some .reference := (kind?_of_directive h).symm
  simp only [directive, hkind, directiveOf?] at h
  by_cases hnone : line.references = []
  · simp [hnone] at h
  · simp only [if_neg hnone] at h
    cases h
    exact ⟨rfl, hnone⟩

/-- The names of a directive are those on the line, each one once. -/
theorem eq_eraseDups_of_directive {text : Text} {names : List Text}
    (h : (ofText text).directive = .ok (.references names)) :
    names = (Kind.reference.expressions some text).eraseDups := by
  rw [← (references_of_directive h).1, references, text_ofText]

end Line

end LineTemplate
