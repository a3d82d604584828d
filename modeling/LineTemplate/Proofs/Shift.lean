import LineTemplate.Proofs.Depth

/-!
# Shifting a template

Spaces in front of every line of a template come out as spaces in front of every line that it
expands to, and change nothing else: no directive, no binding and no error.

## The architecture

* **`pieces_spaces_append`** — a search for anything that starts with no space passes the leading
  spaces of a text one by one.
* **`directive_indent`** — so a line keeps its directive, the names it refers to included, which
  are looked for in the whole line.
* **`substitute_spaces_append`** — and values are put in behind the spaces.
* **`expandLine_spaces_append`** — one line, by its directive.
* **`expansion_shift`** — the headline: the lines of a whole file.
-/

namespace LineTemplate

/-! ## Searching behind spaces -/

namespace Text

/-- Spaces are pieces of their own where no occurrence starts with a space. -/
theorem pieces_spaces_append {α : Type} {recognise : Text → Option (α × Nat)}
    (h : ∀ rest, recognise (' ' :: rest) = none) (k : Nat) (text : Text) :
    pieces recognise 0 (spaces k ++ text) =
      (spaces k).map .plain ++ pieces recognise 0 text := by
  refine pieces_append_of_none (fun c hc => ?_) text
  obtain rfl : c = ' ' := List.eq_of_mem_replicate hc
  exact h

theorem replaceAll_spaces_append {pattern : Text} (h : pattern.head? = some '#') (value : Text)
    (k : Nat) (text : Text) :
    replaceAll pattern value (spaces k ++ text) = spaces k ++ replaceAll pattern value text := by
  have hspaces : '#' ∉ spaces k := fun hmem => by cases List.eq_of_mem_replicate hmem
  exact replaceAll_append_of_not_mem value h hspaces text

end Text

namespace Kind

theorem recognise_space {α : Type} (kind : Kind) (read : Text → Option α) (rest : Text) :
    kind.recognise read (' ' :: rest) = none := by
  cases kind <;> rfl

theorem expressions_spaces_append {α : Type} (kind : Kind) (read : Text → Option α) (k : Nat)
    (text : Text) :
    kind.expressions read (Text.spaces k ++ text) = kind.expressions read text := by
  rw [expressions, Text.pieces_spaces_append (kind.recognise_space read),
    Text.hits_map_plain_append]
  rfl

end Kind

/-! ## One line -/

namespace Line

theorem references_indent (k : Nat) (line : Line) :
    (line.indent k).references = line.references := by
  -- references are looked for in the whole text, with the indentation
  have htext : (line.indent k).text = Text.spaces k ++ line.text := by
    rw [text, text, indent, ← List.append_assoc, Text.spaces_append_spaces]
  rw [references, references, htext, Kind.expressions_spaces_append]

/-- **A line keeps its directive** when it is moved to the right. -/
theorem directive_indent (k : Nat) (line : Line) :
    (line.indent k).directive = line.directive := by
  have hof : ∀ kind, (line.indent k).directiveOf? kind = line.directiveOf? kind := by
    intro kind
    -- the other directives are read from the body, which has not changed
    cases kind with
    | reference => simp only [directiveOf?, references_indent]
    | _ => rfl
  have hkind : (line.indent k).kind? = line.kind? := rfl
  simp only [directive, hkind, hof]

end Line

theorem substitute_spaces_append (values : List (Text × Text)) (k : Nat) (text : Text) :
    substitute values (Text.spaces k ++ text) = Text.spaces k ++ substitute values text := by
  induction values generalizing text with
  | nil => rfl
  | cons pair rest ih =>
    obtain ⟨name, value⟩ := pair
    show substitute rest (Text.replaceAll (Kind.reference.expression name) value
      (Text.spaces k ++ text)) = _
    rw [Text.replaceAll_spaces_append (Kind.reference.head?_expression name), ih]
    rfl

/-- What lines amount to, moved to the right. -/
def Expanded.indent (k : Nat) (whole : Expanded) : Expanded :=
  { whole with output := whole.output.map (Text.spaces k ++ ·) }

@[simp] theorem Expanded.own_indent (k : Nat) (whole : Expanded) :
    (whole.indent k).own = whole.own := rfl

namespace Frame

theorem refer_spaces_append (frame : Frame) (own : Bindings) (names : List Text) (k : Nat)
    (text : Text) :
    frame.refer own names (Text.spaces k ++ text) =
      (frame.refer own names text).map (Text.spaces k ++ ·) := by
  unfold refer
  cases (Scope.mk own frame.inherited).values names with
  | error name => rfl
  | ok values =>
    simp only [substitute_spaces_append]
    rfl

/-- **A line that is moved to the right** yields the same bindings and its output moved, or the
same error. -/
theorem expandLine_spaces_append (frame : Frame) (nested : Nested) (n : Nat) (own : Bindings)
    (k : Nat) (text : Text) :
    frame.expandLine nested n own (Text.spaces k ++ text) =
      (frame.expandLine nested n own text).map (Expanded.indent k) := by
  simp only [expandLine, Line.ofText_spaces_append, Line.directive_indent]
  cases (Line.ofText text).directive with
  | error kind => rfl
  | ok directive =>
    cases directive with
    | text => rfl
    | assignment a => rfl
    | config file =>
      dsimp only
      cases frame.load own file <;> rfl
    | references names =>
      simp only [refer_spaces_append]
      cases frame.refer own names text <;> rfl
    | inclusion file =>
      dsimp only
      cases frame.includeFile nested n own file with
      | error e => rfl
      | ok output =>
        -- the included file is moved by the sum of both indentations at once
        simp only [Line.indent, ← Text.map_spaces_map_spaces]
        rfl

/-! ## A whole file -/

theorem expandFrom_map_spaces_append (frame : Frame) (nested : Nested) (n : Nat) (own : Bindings)
    (k : Nat) (lines : List Text) :
    frame.expandFrom nested n own (lines.map (Text.spaces k ++ ·)) =
      (frame.expandFrom nested n own lines).map (Expanded.indent k) := by
  induction lines generalizing n own with
  | nil => rfl
  | cons text rest ih =>
    simp only [List.map_cons, expandFrom, expandLine_spaces_append]
    cases frame.expandLine nested n own text with
    | error e => rfl
    | ok first =>
      -- the lines behind start from the same bindings
      simp only [Except.map, Expanded.own_indent, ih]
      cases frame.expandFrom nested (n + 1) first.own rest with
      | error e => rfl
      | ok others => simp [Expanded.indent]

/-- **Shifting a template shifts its expansion.** With `k` spaces in front of each line, lines
expand to the same output with `k` spaces in front of each of its lines, and to the same
bindings; and where they fail, they fail with the same error. This holds of whole files and from
any line of a file on. -/
theorem expansion_shift (k : Nat) (frame : Frame) :
    (∀ lines, frame.expand (lines.map (Text.spaces k ++ ·)) =
      (frame.expand lines).map (Expanded.indent k)) ∧
    ∀ n own lines, frame.run n own (lines.map (Text.spaces k ++ ·)) =
      (frame.run n own lines).map (Expanded.indent k) := by
  have hrun : ∀ n own lines, frame.run n own (lines.map (Text.spaces k ++ ·)) =
      (frame.run n own lines).map (Expanded.indent k) :=
    fun n own lines => frame.expandFrom_map_spaces_append .full n own k lines
  refine ⟨fun lines => ?_, hrun⟩
  rw [expand_eq_run, expand_eq_run]
  exact hrun 1 .empty lines

end Frame

end LineTemplate
