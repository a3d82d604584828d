import LineTemplate.Directive.Kind
import LineTemplate.Text.Search

/-!
# Expressions in a text

An expression is a keyword, an opening parenthesis, an inner text without `)`, and the first
`)` behind it. Expressions are searched from the left without overlaps, so the inner text of
one never starts another.

* **`Kind.expression`** — writes the expression around an inner text;
* **`Kind.recognise`** — reads the expression that a text starts with, `recognise_expression`
  its inverse;
* **`Kind.expressions`** — the inner texts of all expressions of one kind;
* `splice_expression` — the expressions of a text and the characters between them are the text.

A reader of inner texts may refuse one; the search then goes on right behind its first
character.
-/

namespace LineTemplate

namespace Kind

def opening (kind : Kind) : Text := kind.keyword ++ ['(']

/-- **The expression** of the kind around an inner text. -/
def expression (kind : Kind) (inner : Text) : Text := kind.opening ++ (inner ++ [')'])

/-- **Reads the expression** that the text starts with: what `read` makes of its inner text,
and the expression's width. -/
def recognise {α : Type} (kind : Kind) (read : Text → Option α) (text : Text) : Option (α × Nat) :=
  if kind.opening.isPrefixOf text then
    (Text.upTo? ')' (text.drop kind.opening.length)).bind fun inner =>
      (read inner).map (·, (kind.expression inner).length)
  else none

/-- **The expressions of the kind in a text**, from left to right. -/
def expressions {α : Type} (kind : Kind) (read : Text → Option α) (text : Text) : List α :=
  Text.hits (Text.pieces (kind.recognise read) 0 text)

/-! ## Reading what was written -/

theorem length_expression (kind : Kind) (inner : Text) :
    (kind.expression inner).length = kind.opening.length + inner.length + 1 := by
  simp [expression]; omega

theorem expression_ne_nil (kind : Kind) (inner : Text) : kind.expression inner ≠ [] := by
  simp [expression, opening]

theorem expression_eq_cons (kind : Kind) (inner : Text) :
    kind.expression inner = '#' :: (kind.name ++ '(' :: (inner ++ [')'])) := by
  simp [expression, opening, keyword]

/-- An expression has no `#` besides its first character, unless one is in the inner text. -/
theorem not_mem_tail_expression (kind : Kind) {inner : Text} (h : '#' ∉ inner) :
    '#' ∉ kind.name ++ '(' :: (inner ++ [')']) := by
  have hname : '#' ∉ kind.name := by cases kind <;> decide
  simp [hname, h]

theorem head?_expression (kind : Kind) (inner : Text) :
    (kind.expression inner).head? = some '#' := by
  rw [expression_eq_cons]
  rfl

theorem recognise_expression {α : Type} (kind : Kind) (read : Text → Option α) {inner : Text}
    (h : ')' ∉ inner) (rest : Text) :
    kind.recognise read (kind.expression inner ++ rest) =
      (read inner).map (·, (kind.expression inner).length) := by
  have hshape : kind.expression inner ++ rest = kind.opening ++ (inner ++ ')' :: rest) := by
    simp [expression]
  have hopen : kind.opening.isPrefixOf (kind.opening ++ (inner ++ ')' :: rest)) = true :=
    List.isPrefixOf_iff_prefix.2 (List.prefix_append _ _)
  rw [recognise, hshape, if_pos hopen, List.drop_left, Text.upTo?_append h]
  rfl

theorem eq_of_recognise {α : Type} {kind : Kind} {read : Text → Option α} {text : Text} {a : α}
    {width : Nat} (h : kind.recognise read text = some (a, width)) :
    ∃ inner rest, ')' ∉ inner ∧ read inner = some a ∧ text = kind.expression inner ++ rest ∧
      width = (kind.expression inner).length := by
  rw [recognise] at h
  split at h
  case isFalse => cases h
  case isTrue hopen =>
    obtain ⟨tail, rfl⟩ := List.isPrefixOf_iff_prefix.1 hopen
    rw [List.drop_left] at h
    obtain ⟨inner, hinner, hread⟩ := Option.bind_eq_some_iff.1 h
    obtain ⟨b, hb, hpair⟩ := Option.map_eq_some_iff.1 hread
    obtain ⟨hmem, rest, rfl⟩ := Text.eq_of_upTo? hinner
    obtain ⟨rfl, rfl⟩ : b = a ∧ (kind.expression inner).length = width := by simpa using hpair
    exact ⟨inner, rest, hmem, hb, by simp [expression], rfl⟩

/-- What is found in a text was read off an expression that stands there. -/
theorem exists_expression_of_mem {α : Type} {kind : Kind} {read : Text → Option α} {text : Text}
    {a : α} (h : a ∈ kind.expressions read text) :
    ∃ inner, ')' ∉ inner ∧ read inner = some a ∧ kind.expression inner <:+: text := by
  obtain ⟨found, width, hsuffix, hfound⟩ := Text.exists_recognise_of_hit_mem (Text.mem_hits.1 h)
  obtain ⟨inner, rest, hinner, hread, rfl, -⟩ := eq_of_recognise hfound
  exact ⟨inner, hinner, hread, (List.prefix_append _ rest).isInfix.trans hsuffix.isInfix⟩

/-- An expression alone in a text is all that is found there. -/
theorem expressions_expression {α : Type} (kind : Kind) {read : Text → Option α} {inner : Text}
    (h : ')' ∉ inner) {a : α} (hread : read inner = some a) :
    kind.expressions read (kind.expression inner) = [a] := by
  have hrecognise : kind.recognise read (kind.expression inner) =
      some (a, (kind.expression inner).length) := by
    have happend := kind.recognise_expression read h []
    rwa [List.append_nil, hread] at happend
  rw [expressions, Text.pieces_of_some (kind.expression_ne_nil inner)
    (by simp [length_expression]) hrecognise, List.drop_length]
  rfl

/-- The first `)` parts the inner text from what follows the expression. -/
theorem eq_of_expression_isPrefix {kind : Kind} {inner other rest : Text} (h : ')' ∉ inner)
    (hother : ')' ∉ other) (hstart : kind.expression inner <+: kind.expression other ++ rest) :
    inner = other := by
  obtain ⟨tail, htail⟩ := hstart
  have hread := kind.recognise_expression some h tail
  rw [htail, kind.recognise_expression some hother rest] at hread
  cases hread
  rfl

/-- The expressions of a text and the characters between them are the text. -/
theorem splice_expression (kind : Kind) (text : Text) :
    Text.splice kind.expression (Text.pieces (kind.recognise some) 0 text) = text := by
  refine Text.splice_pieces (fun t a width h => ?_) text
  obtain ⟨inner, rest, -, hread, rfl, rfl⟩ := eq_of_recognise h
  obtain rfl : inner = a := by simpa using hread
  exact ⟨by simp [length_expression], by simp⟩

end Kind

end LineTemplate
