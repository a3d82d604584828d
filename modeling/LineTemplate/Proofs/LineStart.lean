import LineTemplate.Proofs.Matches

/-!
# Directives at the start of a line

The keyword that a line starts with makes it a directive. Which directive it is, is read off the one
complete expression of the line, and this need not stand where the keyword does: a longer word may
begin with the keyword, and an expression that is not complete is passed. Then the expression
further to the right acts, and what stands in front of it is lost.

## The architecture

* **`Kind.StartsWith`** — a text starts with a complete expression; `StartsWith.candidate` and
  `Candidate.startsWith` compare this with the candidates of a search.
* **`Matches.start_eq_zero_iff`** — the only match of a text stands at its start if and only if a
  complete expression does.
* **`Directive.Takes.unique`** — the text between the parentheses determines the directive.
* **`Line.exists_match_of_directive`** — a directive is taken from the only match of its line.
* **`Line.ofExpression`**, **`expandLine_eq_ofExpression`** — so the line does what the expression
  would do on a line of its own.
* **`Matches.expression_isPrefix_iff`**, **`Matches.exists_startsWith_takes_iff`** — when it acts at
  the start of the line.
* **`acts_at_start_iff`** — the headline.
* **`not_acts_at_start`** — a line that does what stands further to the right on it.
-/

namespace LineTemplate

namespace Kind

variable {kind : Kind} {text inner : Text}

/-! ## Complete expressions at the start -/

/-- **A text starts with an expression** of the kind around the inner text, complete up to the first
`)`, and with an `=` in it if the kind needs one. -/
structure StartsWith (kind : Kind) (text inner : Text) : Prop where
  starts : kind.expression inner <+: text
  closes : ')' ∉ inner
  equals : kind = .assignment → '=' ∈ inner

theorem StartsWith.candidate (h : kind.StartsWith text inner) :
    kind.Candidate text ⟨0, kind.opening.length + inner.length⟩ ∧
      kind.inner text ⟨0, kind.opening.length + inner.length⟩ = inner := by
  obtain ⟨⟨rest, rfl⟩, hcloses, hequals⟩ := h
  have hdrop : (kind.expression inner ++ rest).drop 0 = kind.expression inner ++ rest :=
    List.drop_zero
  have hfound := candidate_of_drop_eq hcloses hequals hdrop
  rwa [Nat.zero_add] at hfound

theorem Candidate.startsWith {m : Match} (h : kind.Candidate text m) (hstart : m.start = 0) :
    kind.StartsWith text (kind.inner text m) where
  starts := by
    have hdrop := h.drop_eq
    rw [hstart, List.drop_zero] at hdrop
    exact ⟨_, hdrop.symm⟩
  closes := h.not_mem_inner
  equals := h.equals_mem_inner

theorem Candidate.ne_nil {m : Match} (h : kind.Candidate text m) : text ≠ [] :=
  List.ne_nil_of_length_pos (Nat.zero_lt_of_lt h.stop_lt_length)

/-- What a text starts with is what its first match holds, if this stands at the start. -/
theorem Matches.startsWith_inner {m : Match} {rest : List Match}
    (h : kind.Matches text 0 (m :: rest)) (hstarts : kind.StartsWith text inner) :
    m.start = 0 ∧ kind.inner text m = inner := by
  obtain ⟨hcandidate, hinner⟩ := hstarts.candidate
  cases h with
  | first _ hfound hfirst _ =>
    have hzero : m.start = 0 := Nat.le_zero.1 (hfirst _ (Nat.le_refl 0) hcandidate)
    obtain rfl := hfound.eq_of_start_eq hcandidate hzero
    exact ⟨rfl, hinner⟩

/-- **The first match stands at the start** if and only if a complete expression does. -/
theorem Matches.start_eq_zero_iff {m : Match} {rest : List Match}
    (h : kind.Matches text 0 (m :: rest)) :
    m.start = 0 ↔ ∃ inner, kind.StartsWith text inner := by
  constructor
  · exact fun hzero => ⟨_, h.candidate.startsWith hzero⟩
  · rintro ⟨inner, hstarts⟩
    exact (h.startsWith_inner hstarts).1

/-- An expression alone is its own only match. -/
theorem matches_expression (hcloses : ')' ∉ inner) (hequals : kind = .assignment → '=' ∈ inner) :
    ∃ m, kind.Matches (kind.expression inner) 0 [m] ∧
      kind.inner (kind.expression inner) m = inner := by
  obtain ⟨hcandidate, hinner⟩ :=
    StartsWith.candidate ⟨List.prefix_refl _, hcloses, hequals⟩
  refine ⟨_, .first (Nat.le_refl 0) hcandidate (fun _ hle _ => hle) (.none ?_), hinner⟩
  intro other hbehind hother
  -- behind the closing parenthesis nothing is left
  have hstop := hother.stop_lt_length
  have hstart := hother.start_le_stop
  rw [length_expression] at hstop
  dsimp only at hbehind
  omega

/-- Where a keyword and its `(` start a text, any `)` further on completes the expression. -/
theorem exists_startsWith_iff_opening (hne : kind ≠ .assignment) {m : Match}
    (h : kind.Candidate text m) :
    (∃ inner, kind.StartsWith text inner) ↔ kind.opening <+: text := by
  constructor
  · rintro ⟨inner, ⟨rest, rfl⟩, -, -⟩
    rw [expression, List.append_assoc]
    exact List.prefix_append _ _
  · rintro ⟨rest, rfl⟩
    have hparen : ')' ∈ rest := by
      have hcloses := h.closes
      have hbehind := h.behind
      rw [List.getElem?_append_right (by omega)] at hcloses
      exact List.mem_of_getElem? hcloses
    cases hup : Text.upTo? ')' rest with
    | none => exact absurd hparen (Text.upTo?_eq_none_iff.1 hup)
    | some inner =>
      obtain ⟨hcloses, after, rfl⟩ := Text.eq_of_upTo? hup
      refine ⟨inner, ⟨after, ?_⟩, hcloses, fun hkind => absurd hkind hne⟩
      rw [expression, List.append_assoc, List.append_assoc]
      rfl

end Kind

/-! ## What is taken from an inner text -/

theorem Text.Unquotes.eq_unquote {text value : Text} (h : Text.Unquotes text value) :
    value = Text.unquote text := by
  unfold Text.unquote
  cases h with
  | short hshort =>
    have hlength : (Text.trim text).tail.length = 0 := by
      rw [List.length_tail]
      omega
    rw [List.length_eq_zero_iff.1 hlength]
    rfl
  | long htrim => rw [htrim, List.tail_cons, List.dropLast_concat]

/-- **An inner text determines its directive.** -/
theorem Directive.Takes.unique {kind : Kind} {inner : Text} {directive directive' : Directive}
    (h : Directive.Takes kind inner directive) (h' : Directive.Takes kind inner directive') :
    directive = directive' := by
  generalize hinner : inner = other at h'
  cases h with
  | config =>
    cases h'
    rw [hinner]
  | inclusion =>
    cases h'
    rw [hinner]
  | assignment hequals hvalue =>
    cases h' with
    | assignment hequals' hvalue' =>
      -- both are parted at the last `=`
      have hsplit := congrArg (Text.splitAtLast? '=') hinner
      rw [Text.splitAtLast?_append _ hequals, Text.splitAtLast?_append _ hequals'] at hsplit
      cases hsplit
      rw [hvalue.eq_unquote, hvalue'.eq_unquote]

theorem Directive.Takes.kind?_eq {kind : Kind} {inner : Text} {directive : Directive}
    (h : Directive.Takes kind inner directive) : directive.kind? = some kind := by
  cases h <;> rfl

/-- A directive that names a file takes the whole inner text for it. -/
theorem Directive.Takes.inner_eq_of_file {kind : Kind} {inner file : Text} {directive : Directive}
    (h : Directive.Takes kind inner directive)
    (hfile : directive = .config file ∨ directive = .inclusion file) : inner = file := by
  rcases hfile with rfl | rfl <;> cases h <;> rfl

namespace Line

variable {line : Line} {kind : Kind} {directive : Directive}

/-- **A directive is taken from the only match** of its line. -/
theorem exists_match_of_directive (h : line.directive = .ok directive)
    (hkind : directive.kind? = some kind) (hne : kind ≠ .reference) :
    ∃ m, kind.Matches line.body 0 [m] ∧
      Directive.Takes kind (kind.inner line.body m) directive := by
  have hline : line.kind? = some kind := (kind?_of_directive h).symm.trans hkind
  by_cases hmatch : ∃ m, kind.Matches line.body 0 [m]
  · obtain ⟨m, hm⟩ := hmatch
    obtain ⟨found, hfound, htakes⟩ := exists_directive_of_match hline hne hm
    obtain rfl : directive = found := Except.ok.inj (h.symm.trans hfound)
    exact ⟨m, hm, htakes⟩
  · rw [directive_of_no_match hline hne (not_exists.1 hmatch)] at h
    cases h

/-- The line that holds one expression and nothing else. -/
def ofExpression (indentation : Nat) (kind : Kind) (inner : Text) : Line where
  indentation := indentation
  body := kind.expression inner
  head?_body := by
    rw [Kind.head?_expression]
    decide

theorem kind?_ofExpression (indentation : Nat) (hne : kind ≠ .reference) (inner : Text) :
    (ofExpression indentation kind inner).kind? = some kind := by
  cases kind with
  | config | assignment | inclusion => rfl
  | reference => exact absurd rfl hne

/-- The expression that a directive is taken from makes the same directive on a line of its own. -/
theorem directive_ofExpression (indentation : Nat) (hne : kind ≠ .reference) {inner : Text}
    (hcloses : ')' ∉ inner) (hequals : kind = .assignment → '=' ∈ inner)
    (htakes : Directive.Takes kind inner directive) :
    (ofExpression indentation kind inner).directive = .ok directive := by
  obtain ⟨m, hm, hinner⟩ := Kind.matches_expression hcloses hequals
  obtain ⟨found, hfound, htakes'⟩ :=
    exists_directive_of_match (kind?_ofExpression indentation hne inner) hne hm
  have hsame : directive = found := by
    rw [show (ofExpression indentation kind inner).body = kind.expression inner from rfl,
      hinner] at htakes'
    exact htakes.unique htakes'
  rw [hfound, hsame]

/-- **A line does what its expression does alone,** moved to the line's own indentation. -/
theorem expandLine_eq_ofExpression (h : line.directive = .ok directive)
    (hkind : directive.kind? = some kind) (hne : kind ≠ .reference) {inner : Text}
    (hcloses : ')' ∉ inner) (hequals : kind = .assignment → '=' ∈ inner)
    (htakes : Directive.Takes kind inner directive) (frame : Frame) (nested : Nested) (n : Nat)
    (own : Bindings) :
    frame.expandLine nested n own line.text =
      frame.expandLine nested n own (Text.spaces line.indentation ++ kind.expression inner) := by
  have halone := directive_ofExpression line.indentation hne hcloses hequals htakes
  show frame.expandLine nested n own line.text =
    frame.expandLine nested n own (ofExpression line.indentation kind inner).text
  refine Frame.expandLine_eq_of_directive_eq ?_ hne ?_ ?_ frame nested n own
  · rw [ofText_text]
    exact (kind?_of_directive h).symm.trans hkind
  · rw [ofText_text, ofText_text, h, halone]
  · rw [ofText_text, ofText_text]
    rfl

end Line

/-! ## At the start of the line -/

namespace Kind

variable {kind : Kind} {text : Text} {m : Match} {directive : Directive}

/-- A file is named at the start of a text if and only if the keyword has a `(` behind it. -/
theorem Matches.expression_isPrefix_iff {file : Text} (h : kind.Matches text 0 [m])
    (htakes : Directive.Takes kind (kind.inner text m) directive)
    (hfile : directive = .config file ∨ directive = .inclusion file) :
    kind.expression file <+: text ↔ kind.opening <+: text := by
  have hinner : kind.inner text m = file := htakes.inner_eq_of_file hfile
  have hassignment : kind ≠ .assignment := by
    rintro rfl
    have hkind := htakes.kind?_eq
    rcases hfile with rfl | rfl <;> cases hkind
  rw [← exists_startsWith_iff_opening hassignment h.candidate]
  constructor
  · intro hstarts
    exact ⟨file, hstarts, hinner ▸ h.candidate.not_mem_inner,
      fun hkind => absurd hkind hassignment⟩
  · rintro ⟨first, hfirst⟩
    rw [← hinner, (h.startsWith_inner hfirst).2]
    exact hfirst.starts

/-- An assignment stands at the start of a text if and only if the first parentheses there hold an
`=`. -/
theorem Matches.exists_startsWith_takes_iff (h : Kind.assignment.Matches text 0 [m])
    (htakes : Directive.Takes .assignment (Kind.assignment.inner text m) directive) :
    (∃ inner, Kind.assignment.StartsWith text inner ∧
        Directive.Takes .assignment inner directive) ↔
      ∃ inner, Kind.assignment.expression inner <+: text ∧ ')' ∉ inner ∧ '=' ∈ inner := by
  constructor
  · rintro ⟨inner, ⟨hstarts, hcloses, hequals⟩, -⟩
    exact ⟨inner, hstarts, hcloses, hequals rfl⟩
  · rintro ⟨inner, hstarts, hcloses, hequals⟩
    have hfirst : Kind.assignment.StartsWith text inner := ⟨hstarts, hcloses, fun _ => hequals⟩
    rw [← (h.startsWith_inner hfirst).2] at hfirst
    exact ⟨_, hfirst, htakes⟩

end Kind

/-! ## The headline -/

/-- **Where a directive acts.** A line that loads or includes a file starts with just that
expression if and only if its keyword has a `(` behind it, and a line that assigns does so with what
its first parentheses hold if and only if these hold an `=`. Else the expression stands further to
the right. In any case the line does what this one expression does alone, moved to the line's own
indentation, so that the text in front of it plays no part. -/
theorem acts_at_start_iff {line : Line} {kind : Kind} {directive : Directive}
    (h : line.directive = .ok directive) (hkind : directive.kind? = some kind)
    (hne : kind ≠ .reference) :
    (∀ file, directive = .config file ∨ directive = .inclusion file →
      (kind.expression file <+: line.body ↔ kind.opening <+: line.body)) ∧
    (∀ a, directive = .assignment a →
      ((∃ inner, Kind.assignment.StartsWith line.body inner ∧
          Directive.Takes .assignment inner (.assignment a)) ↔
        ∃ inner, Kind.assignment.expression inner <+: line.body ∧ ')' ∉ inner ∧ '=' ∈ inner)) ∧
    ∃ front inner back, line.body = front ++ (kind.expression inner ++ back) ∧ ')' ∉ inner ∧
      Directive.Takes kind inner directive ∧
      (front = [] ↔ ∃ first, kind.StartsWith line.body first) ∧
      ∀ (frame : Frame) nested n own, frame.expandLine nested n own line.text =
        frame.expandLine nested n own
          (Text.spaces line.indentation ++ kind.expression inner) := by
  obtain ⟨m, hm, htakes⟩ := Line.exists_match_of_directive h hkind hne
  refine ⟨fun file hfile => hm.expression_isPrefix_iff htakes hfile, ?_, ?_⟩
  · rintro a rfl
    obtain rfl : Kind.assignment = kind := Option.some.inj hkind
    exact hm.exists_startsWith_takes_iff htakes
  · -- the front is what stands before the only match
    have hcandidate := hm.candidate
    refine ⟨line.body.take m.start, kind.inner line.body m, line.body.drop (m.stop + 1), ?_,
      hcandidate.not_mem_inner, htakes, ?_, fun frame nested n own => ?_⟩
    · rw [← hcandidate.drop_eq, List.take_append_drop]
    · rw [← hm.start_eq_zero_iff, List.take_eq_nil_iff, or_iff_left hcandidate.ne_nil]
    · exact Line.expandLine_eq_ofExpression h hkind hne hcandidate.not_mem_inner
        hcandidate.equals_mem_inner htakes frame nested n own

theorem acts_at_start_iff_longerWord :
    -- a longer word in front of the expression is lost
    ((∀ (frame : Frame) nested n own,
        frame.expandLine nested n own "  #includes, see #include(part)".toList =
          frame.expandLine nested n own "  #include(part)".toList) ∧
      ¬ Kind.inclusion.expression "part".toList <+: "#includes, see #include(part)".toList) ∧
    -- an expression that starts the line acts there
    Kind.config.expression "part".toList <+: "#config(part) of it".toList ∧
    -- an expression without `=` is passed, and the one behind it acts
    ∃ front inner back,
      "#set(k) #set(k=\"v\")".toList = front ++ (Kind.assignment.expression inner ++ back) ∧
        front ≠ [] ∧ Directive.Takes .assignment inner (.assignment ⟨['k'], ['v']⟩) := by
  refine ⟨?_, ?_, ?_⟩
  · have hread : (Line.ofText "  #includes, see #include(part)".toList).directive =
        .ok (.inclusion "part".toList) := by decide +kernel
    obtain ⟨hfile, -, front, inner, back, -, -, htakes, -, hline⟩ :=
      acts_at_start_iff hread rfl (by decide)
    obtain rfl := htakes.inner_eq_of_file (Or.inr rfl)
    exact ⟨hline, fun hstarts => absurd ((hfile _ (Or.inr rfl)).1 hstarts) (by decide)⟩
  · have hread : (Line.ofText "#config(part) of it".toList).directive =
        .ok (.config "part".toList) := by decide +kernel
    exact ((acts_at_start_iff hread rfl (by decide)).1 _ (Or.inl rfl)).2 (by decide)
  · have hread : (Line.ofText "#set(k) #set(k=\"v\")".toList).directive =
        .ok (.assignment ⟨['k'], ['v']⟩) := by decide +kernel
    have hmatch : Kind.assignment.Matches "#set(k) #set(k=\"v\")".toList 0 [⟨8, 18⟩] := by
      decide +kernel
    obtain ⟨-, -, front, inner, back, hbody, -, htakes, hfront, -⟩ :=
      acts_at_start_iff hread rfl (by decide)
    refine ⟨front, inner, back, hbody, fun hnil => ?_, htakes⟩
    exact absurd (hmatch.start_eq_zero_iff.2 (hfront.1 hnil)) (by decide)

/-- **Directives act away from the start of their line.** -/
theorem not_acts_at_start :
    ¬ ∀ (text : Text) (kind : Kind) (directive : Directive),
      (Line.ofText text).directive = .ok directive → directive.kind? = some kind →
        kind ≠ .reference → ∃ inner, kind.StartsWith (Line.ofText text).body inner ∧
          Directive.Takes kind inner directive := by
  intro hall
  have hread : (Line.ofText "#includes #include(a)".toList).directive =
      .ok (.inclusion ['a']) := by decide +kernel
  obtain ⟨inner, ⟨hstarts, -, -⟩, -⟩ := hall _ .inclusion _ hread rfl (by decide)
  -- the word goes on where the parenthesis would have to be
  have hopening : Kind.inclusion.opening <+: "#includes #include(a)".toList :=
    (List.prefix_append _ _).trans hstarts
  exact absurd hopening (by decide)

end LineTemplate
