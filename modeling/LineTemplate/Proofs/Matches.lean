import LineTemplate.Proofs.LastAssignment

/-!
# Exactly one match

Whether a directive is well-formed is a matter of how often its expression stands in a text. That is
said here by positions alone: where an expression could start, where it would end, and which of
these places a search from the left comes to. The search goes on behind the end of what it has
found, so a place inside an earlier match does not count, and a place at which the expression is not
complete is passed.

## The architecture

* **`Kind.Candidate`** — a place where an expression is complete; `Candidate.drop_eq` says which one
  stands there, and `candidate_of_drop_eq` that a place where one stands is a candidate.
* **`Kind.Matches`** — the candidates that a search from the left comes to. They are determined
  (`Matches.unique`), and `exists_matches` finds them along the walk that the search makes.
* **`only?_expressions_of_match`**, **`only?_expressions_of_no_match`** — an expression is extracted
  if there is one match.
* **`Directive.Takes`** — what a directive makes of the text between its parentheses.
* **`accepts_exactly_one_match`** — the headline.

Both predicates are decidable, so that the matches of a given text can be checked.
-/

namespace LineTemplate

/-- **A match** in a text: the position where it starts, and that of its closing parenthesis. -/
structure Match where
  start : Nat
  stop : Nat
deriving DecidableEq, Repr

namespace Kind

/-! ## Candidates -/

/-- **A candidate:** the keyword and `(` stand at its start, the first `)` behind them at its stop,
and in front of this there is an `=` if the kind needs one. -/
structure Candidate (kind : Kind) (text : Text) (m : Match) : Prop where
  opens : kind.opening <+: text.drop m.start
  behind : m.start + kind.opening.length ≤ m.stop
  closes : text[m.stop]? = some ')'
  first : ∀ i, m.start + kind.opening.length ≤ i → i < m.stop → text[i]? ≠ some ')'
  equals : kind = .assignment →
    ∃ i, m.start + kind.opening.length ≤ i ∧ i < m.stop ∧ text[i]? = some '='

/-- The text between the parentheses of a match. -/
def inner (kind : Kind) (text : Text) (m : Match) : Text :=
  (text.take m.stop).drop (m.start + kind.opening.length)

/-- **The matches** from a position on: the first candidate, and the matches behind its end. -/
inductive Matches (kind : Kind) (text : Text) : (start : Nat) → List Match → Prop where
  | none {start : Nat} (hnone : ∀ m, start ≤ m.start → ¬ kind.Candidate text m) :
      Matches kind text start []
  | first {start : Nat} {m : Match} {rest : List Match} (hle : start ≤ m.start)
      (hcandidate : kind.Candidate text m)
      (hfirst : ∀ other, start ≤ other.start → kind.Candidate text other →
        m.start ≤ other.start)
      (hrest : Matches kind text (m.stop + 1) rest) : Matches kind text start (m :: rest)

variable {kind : Kind} {text : Text}

theorem getElem?_inner {m : Match} {i : Nat} {c : Char} (h : (kind.inner text m)[i]? = some c) :
    m.start + kind.opening.length + i < m.stop ∧
      text[m.start + kind.opening.length + i]? = some c := by
  rw [inner, List.getElem?_drop, List.getElem?_take] at h
  split at h
  · next hlt => exact ⟨hlt, h⟩
  · cases h

theorem mem_inner_iff {m : Match} {c : Char} :
    c ∈ kind.inner text m ↔
      ∃ i, m.start + kind.opening.length ≤ i ∧ i < m.stop ∧ text[i]? = some c := by
  constructor
  · intro h
    obtain ⟨i, hi⟩ := List.mem_iff_getElem?.1 h
    obtain ⟨hlt, hget⟩ := getElem?_inner hi
    exact ⟨_, Nat.le_add_right _ i, hlt, hget⟩
  · rintro ⟨i, hle, hlt, hget⟩
    obtain ⟨j, rfl⟩ := Nat.exists_eq_add_of_le hle
    refine List.mem_iff_getElem?.2 ⟨j, ?_⟩
    rw [inner, List.getElem?_drop, List.getElem?_take, if_pos hlt, hget]

/-- **What stands at a candidate** is the expression around its inner text. -/
theorem Candidate.drop_eq {m : Match} (h : kind.Candidate text m) :
    text.drop m.start = kind.expression (kind.inner text m) ++ text.drop (m.stop + 1) := by
  obtain ⟨tail, htail⟩ := h.opens
  have hlt : m.stop < text.length := (List.getElem?_eq_some_iff.1 h.closes).1
  have hclose : text.drop m.stop = ')' :: text.drop (m.stop + 1) := by
    rw [List.drop_eq_getElem_cons hlt, (List.getElem?_eq_some_iff.1 h.closes).2]
  have hinner : text.drop (m.start + kind.opening.length) =
      kind.inner text m ++ text.drop m.stop := by
    have hsplit := List.take_append_drop m.stop text
    calc text.drop (m.start + kind.opening.length)
        = (text.take m.stop ++ text.drop m.stop).drop (m.start + kind.opening.length) := by
          rw [hsplit]
      _ = kind.inner text m ++ text.drop m.stop := by
          rw [List.drop_append_of_le_length (by rw [List.length_take]; have := h.behind; omega)]
          rfl
  have htail' : tail = text.drop (m.start + kind.opening.length) := by
    rw [← List.drop_drop, ← htail, List.drop_left]
  rw [← htail, htail', hinner, hclose, expression]
  simp

theorem Candidate.not_mem_inner {m : Match} (h : kind.Candidate text m) :
    ')' ∉ kind.inner text m := by
  intro hmem
  obtain ⟨i, hle, hlt, hget⟩ := mem_inner_iff.1 hmem
  exact h.first i hle hlt hget

theorem Candidate.equals_mem_inner {m : Match} (h : kind.Candidate text m)
    (hkind : kind = .assignment) : '=' ∈ kind.inner text m :=
  mem_inner_iff.2 (h.equals hkind)

/-- An expression that stands in a text is a candidate there. -/
theorem candidate_of_drop_eq {start : Nat} {between rest : Text} (hparen : ')' ∉ between)
    (hequals : kind = .assignment → '=' ∈ between)
    (h : text.drop start = kind.expression between ++ rest) :
    kind.Candidate text ⟨start, start + kind.opening.length + between.length⟩ ∧
      kind.inner text ⟨start, start + kind.opening.length + between.length⟩ = between := by
  have hshape : kind.expression between ++ rest = kind.opening ++ (between ++ ')' :: rest) := by
    simp [expression]
  have hbehind : text.drop (start + kind.opening.length) = between ++ ')' :: rest := by
    rw [← List.drop_drop, h, hshape, List.drop_left]
  have hinner : kind.inner text ⟨start, start + kind.opening.length + between.length⟩ =
      between := by
    rw [inner, List.drop_take, hbehind, Nat.add_sub_cancel_left, List.take_left]
  refine ⟨⟨⟨_, (h.trans hshape).symm⟩, Nat.le_add_right _ _, ?_, fun i hle hlt hget => ?_,
    fun hkind => ?_⟩, hinner⟩
  · have hget : (between ++ ')' :: rest)[between.length]? = some ')' := by simp
    rwa [← hbehind, List.getElem?_drop] at hget
  · refine hparen ?_
    rw [← hinner]
    exact mem_inner_iff.2 ⟨i, hle, hlt, hget⟩
  · have hmem := hequals hkind
    rw [← hinner] at hmem
    exact mem_inner_iff.1 hmem

/-- The first `)` ends a candidate, so its start tells it from all others. -/
theorem Candidate.eq_of_start_eq {m other : Match} (h : kind.Candidate text m)
    (hother : kind.Candidate text other) (hstart : m.start = other.start) : m = other := by
  obtain ⟨start, stop⟩ := m
  obtain ⟨start', stop'⟩ := other
  obtain rfl : start = start' := hstart
  rcases Nat.lt_trichotomy stop stop' with hlt | rfl | hlt
  · exact absurd h.closes (hother.first stop h.behind hlt)
  · rfl
  · exact absurd hother.closes (h.first stop' hother.behind hlt)

theorem Candidate.stop_lt_length {m : Match} (h : kind.Candidate text m) :
    m.stop < text.length :=
  (List.getElem?_eq_some_iff.1 h.closes).1

theorem Candidate.start_le_stop {m : Match} (h : kind.Candidate text m) : m.start ≤ m.stop :=
  Nat.le_trans (Nat.le_add_right _ _) h.behind

theorem candidate_iff {m : Match} :
    kind.Candidate text m ↔
      kind.opening <+: text.drop m.start ∧ m.start + kind.opening.length ≤ m.stop ∧
        text[m.stop]? = some ')' ∧
        (∀ i < m.stop, m.start + kind.opening.length ≤ i → text[i]? ≠ some ')') ∧
        (kind = .assignment →
          ∃ i < m.stop, m.start + kind.opening.length ≤ i ∧ text[i]? = some '=') := by
  constructor
  · rintro ⟨hopens, hbehind, hcloses, hfirst, hequals⟩
    refine ⟨hopens, hbehind, hcloses, fun i hlt hle => hfirst i hle hlt, fun hkind => ?_⟩
    obtain ⟨i, hle, hlt, hget⟩ := hequals hkind
    exact ⟨i, hlt, hle, hget⟩
  · rintro ⟨hopens, hbehind, hcloses, hfirst, hequals⟩
    refine ⟨hopens, hbehind, hcloses, fun i hle hlt => hfirst i hlt hle, fun hkind => ?_⟩
    obtain ⟨i, hlt, hle, hget⟩ := hequals hkind
    exact ⟨i, hle, hlt, hget⟩

instance (m : Match) : Decidable (kind.Candidate text m) := decidable_of_iff _ candidate_iff.symm

/-! ## The matches of a text -/

/-- **There is one list of matches** from each position on. -/
theorem Matches.unique {start : Nat} {ms ms' : List Match} (h : kind.Matches text start ms)
    (h' : kind.Matches text start ms') : ms = ms' := by
  induction h generalizing ms' with
  | none hnone =>
    cases h' with
    | none => rfl
    | first hle hcandidate => exact absurd hcandidate (hnone _ hle)
  | @first start m rest hle hcandidate hfirst _ ih =>
    cases h' with
    | none hnone => exact absurd hcandidate (hnone _ hle)
    | @first _ m' rest' hle' hcandidate' hfirst' hrest' =>
      have hstart : m.start = m'.start :=
        Nat.le_antisymm (hfirst _ hle' hcandidate') (hfirst' _ hle hcandidate)
      obtain rfl := hcandidate.eq_of_start_eq hcandidate' hstart
      rw [ih hrest']

theorem Matches.candidate {start : Nat} {m : Match} {rest : List Match}
    (h : kind.Matches text start (m :: rest)) : kind.Candidate text m := by
  cases h with
  | first _ hcandidate => exact hcandidate

/-- A position at which there is no candidate is passed. -/
theorem Matches.of_succ {start : Nat} {ms : List Match} (h : kind.Matches text (start + 1) ms)
    (hhere : ∀ m, m.start = start → ¬ kind.Candidate text m) : kind.Matches text start ms := by
  have hlater : ∀ m, start ≤ m.start → kind.Candidate text m → start + 1 ≤ m.start :=
    fun m hle hcandidate => Nat.lt_of_le_of_ne hle fun heq => hhere m heq.symm hcandidate
  cases h with
  | none hnone => exact .none fun m hle hcandidate => hnone m (hlater m hle hcandidate) hcandidate
  | first hle hcandidate hfirst hrest =>
    exact .first (by omega) hcandidate
      (fun other hother hcand => hfirst other (hlater other hother hcand) hcand) hrest

theorem matches_nil_iff {start : Nat} :
    kind.Matches text start [] ↔
      ∀ i < text.length, start ≤ i → ∀ j < text.length, ¬ kind.Candidate text ⟨i, j⟩ := by
  constructor
  · rintro ⟨hnone⟩ i - hle j - hcandidate
    exact hnone _ hle hcandidate
  · intro h
    refine .none fun m hle hcandidate => ?_
    have hstop := hcandidate.stop_lt_length
    exact h m.start (Nat.lt_of_le_of_lt hcandidate.start_le_stop hstop) hle m.stop hstop hcandidate

theorem matches_cons_iff {start : Nat} {m : Match} {rest : List Match} :
    kind.Matches text start (m :: rest) ↔
      start ≤ m.start ∧ kind.Candidate text m ∧
        (∀ i < m.start, start ≤ i → ∀ j < text.length, ¬ kind.Candidate text ⟨i, j⟩) ∧
        kind.Matches text (m.stop + 1) rest := by
  constructor
  · rintro (_ | ⟨hle, hcandidate, hfirst, hrest⟩)
    refine ⟨hle, hcandidate, fun i hlt hstart j _ hother => ?_, hrest⟩
    exact Nat.not_le_of_lt hlt (hfirst _ hstart hother)
  · rintro ⟨hle, hcandidate, hbefore, hrest⟩
    refine .first hle hcandidate (fun other hstart hother => Nat.le_of_not_lt fun hlt => ?_) hrest
    exact hbefore other.start hlt hstart other.stop hother.stop_lt_length hother

instance decidableMatches : (start : Nat) → (ms : List Match) →
    Decidable (kind.Matches text start ms)
  | _, [] => decidable_of_iff _ matches_nil_iff.symm
  | _, m :: rest =>
    have := decidableMatches (m.stop + 1) rest
    decidable_of_iff _ matches_cons_iff.symm

section Read

variable {α : Type} {read : Text → Option α}
  (hread : ∀ between, (read between).isSome ↔ (kind = .assignment → '=' ∈ between))

include hread

theorem Candidate.isSome_recognise {m : Match} (h : kind.Candidate text m) :
    (kind.recognise read (text.drop m.start)).isSome := by
  rw [h.drop_eq, kind.recognise_expression read h.not_mem_inner, Option.isSome_map]
  exact (hread _).2 h.equals_mem_inner

theorem exists_candidate_of_recognise {start width : Nat} {a : α}
    (h : kind.recognise read (text.drop start) = some (a, width)) :
    ∃ m : Match, m.start = start ∧ kind.Candidate text m ∧ read (kind.inner text m) = some a ∧
      start + width = m.stop + 1 := by
  obtain ⟨between, rest, hparen, hsome, hdrop, rfl⟩ := eq_of_recognise h
  obtain ⟨hcandidate, hinner⟩ :=
    candidate_of_drop_eq hparen ((hread between).1 (by rw [hsome]; rfl)) hdrop
  refine ⟨_, rfl, hcandidate, by rw [hinner, hsome], ?_⟩
  rw [length_expression]
  simp only [Nat.add_assoc]

/-- **The search comes to the matches,** and reads each one's inner text. -/
theorem exists_matches (text : Text) (start : Nat) :
    ∃ ms, kind.Matches text start ms ∧
      (Text.hits (Text.pieces (kind.recognise read) 0 (text.drop start))).map some =
        ms.map fun m => read (kind.inner text m) := by
  -- the search goes on at a later position, so the induction is on what is left of the text
  induction hn : text.length - start using Nat.strongRecOn generalizing start with
  | ind n ih =>
    by_cases hend : text.length ≤ start
    · refine ⟨[], .none fun m hle hcandidate => ?_, by simp [List.drop_eq_nil_of_le hend]⟩
      have hstop := hcandidate.stop_lt_length
      have hbehind := hcandidate.start_le_stop
      omega
    · have hlt : start < text.length := Nat.lt_of_not_le hend
      have hcons := List.drop_eq_getElem_cons hlt
      cases hhere : kind.recognise read (text.drop start) with
      | none =>
        obtain ⟨ms, hms, hhits⟩ := ih _ (by omega) (start + 1) rfl
        refine ⟨ms, hms.of_succ fun m hstart hcandidate => ?_, ?_⟩
        · have hsome := hcandidate.isSome_recognise hread
          rw [hstart, hhere] at hsome
          cases hsome
        · rw [hcons] at hhere ⊢
          rw [Text.pieces_cons_of_none hhere, Text.hits_plain, hhits]
      | some found =>
        obtain ⟨a, width⟩ := found
        obtain ⟨m, rfl, hcandidate, ha, hwidth⟩ := exists_candidate_of_recognise hread hhere
        have hbehind := hcandidate.start_le_stop
        obtain ⟨ms, hms, hhits⟩ := ih _ (by omega) (m.stop + 1) rfl
        refine ⟨m :: ms, .first (Nat.le_refl _) hcandidate (fun _ hle _ => hle) hms, ?_⟩
        have hne : text.drop m.start ≠ [] := by
          rw [hcons]
          exact List.cons_ne_nil _ _
        rw [Text.pieces_of_some hne (by omega) hhere, Text.hits_hit, List.drop_drop, hwidth,
          List.map_cons, List.map_cons, hhits, ha]

/-- **One match is extracted:** what the reader makes of its inner text. -/
theorem only?_expressions_of_match {m : Match} (h : kind.Matches text 0 [m]) :
    only? (kind.expressions read text) = read (kind.inner text m) := by
  obtain ⟨ms, hms, hhits⟩ := exists_matches hread text 0
  obtain rfl : [m] = ms := h.unique hms
  rw [List.drop_zero, List.map_singleton] at hhits
  obtain ⟨a, hexpressions, ha⟩ := List.map_eq_singleton_iff.1 hhits
  rw [expressions, hexpressions, ← ha]
  rfl

/-- **No extraction** from a text without matches, or with several ones. -/
theorem only?_expressions_of_no_match (h : ∀ m, ¬ kind.Matches text 0 [m]) :
    only? (kind.expressions read text) = none := by
  obtain ⟨ms, hms, hhits⟩ := exists_matches hread text 0
  rw [List.drop_zero] at hhits
  refine Option.eq_none_iff_forall_ne_some.2 fun a honly => ?_
  rw [expressions] at honly
  rw [only?_eq_some_iff.1 honly] at hhits
  obtain ⟨m, rfl, -⟩ := List.map_eq_singleton_iff.1 hhits.symm
  exact h m hms

end Read

theorem isSome_some_iff (hkind : kind ≠ .assignment) (between : Text) :
    (some between).isSome ↔ (kind = .assignment → '=' ∈ between) :=
  ⟨fun _ h => absurd h hkind, fun _ => rfl⟩

theorem isSome_splitAtLast?_iff (between : Text) :
    (Text.splitAtLast? '=' between).isSome ↔
      (Kind.assignment = .assignment → '=' ∈ between) := by
  rw [← Option.ne_none_iff_isSome, ne_eq, Text.splitAtLast?_eq_none_iff, Classical.not_not]
  exact ⟨fun h _ => h, fun h => h rfl⟩

end Kind

/-! ## What is made of an inner text -/

/-- **Unquoting:** of a trimmed text the first and the last character are dropped; one that is
shorter than two characters becomes empty. -/
inductive Text.Unquotes (text : Text) : Text → Prop where
  | short (h : (Text.trim text).length < 2) : Unquotes text []
  | long {value : Text} {first last : Char} (h : Text.trim text = first :: (value ++ [last])) :
      Unquotes text value

/-- **What a directive makes** of the text between its parentheses. The last `=` parts a key from a
value. -/
inductive Directive.Takes : Kind → Text → Directive → Prop where
  | config (file : Text) : Takes .config file (.config file)
  | inclusion (file : Text) : Takes .inclusion file (.inclusion file)
  | assignment {key value unquoted : Text} (hequals : '=' ∉ value)
      (hvalue : Text.Unquotes value unquoted) :
      Takes .assignment (key ++ '=' :: value) (.assignment ⟨Text.trim key, unquoted⟩)

theorem Text.unquotes_unquote (text : Text) : Text.Unquotes text (Text.unquote text) := by
  rw [Text.unquote]
  cases htrim : Text.trim text with
  | nil => exact .short (by rw [htrim]; decide)
  | cons first rest =>
    rcases List.eq_nil_or_concat rest with rfl | ⟨value, last, rfl⟩
    · exact .short (by rw [htrim, List.length_singleton]; decide)
    · rw [List.tail_cons, List.concat_eq_append, List.dropLast_concat]
      exact .long (by rw [htrim, List.concat_eq_append])

theorem Assignment.exists_parse?_of_match {text : Text} {m : Match}
    (h : Kind.assignment.Matches text 0 [m]) :
    ∃ a, parse? text = some a ∧
      Directive.Takes .assignment (Kind.assignment.inner text m) (.assignment a) := by
  have honly := Kind.only?_expressions_of_match Kind.isSome_splitAtLast?_iff h
  have hequals := h.candidate.equals_mem_inner rfl
  obtain ⟨⟨key, value⟩, hsplit⟩ := Option.isSome_iff_exists.1
    ((Kind.isSome_splitAtLast?_iff _).2 fun _ => hequals)
  obtain ⟨hvalue, hinner⟩ := Text.eq_of_splitAtLast? hsplit
  rw [hsplit] at honly
  refine ⟨⟨Text.trim key, Text.unquote value⟩, by rw [parse?, honly]; rfl, ?_⟩
  rw [hinner]
  exact .assignment hvalue (Text.unquotes_unquote value)

theorem Assignment.parse?_of_no_match {text : Text}
    (h : ∀ m, ¬ Kind.assignment.Matches text 0 [m]) : parse? text = none := by
  rw [parse?, Kind.only?_expressions_of_no_match Kind.isSome_splitAtLast?_iff h]
  rfl

namespace Line

variable {line : Line} {kind : Kind}

theorem exists_directive_of_match (hkind : line.kind? = some kind) (hne : kind ≠ .reference)
    {m : Match} (h : kind.Matches line.body 0 [m]) :
    ∃ directive, line.directive = .ok directive ∧
      Directive.Takes kind (kind.inner line.body m) directive := by
  simp only [directive, hkind]
  cases kind with
  | config =>
    have honly := Kind.only?_expressions_of_match (Kind.isSome_some_iff (by decide)) h
    refine ⟨.config (Kind.config.inner line.body m), ?_, .config _⟩
    simp only [directiveOf?, honly, Option.map_some]
  | inclusion =>
    have honly := Kind.only?_expressions_of_match (Kind.isSome_some_iff (by decide)) h
    refine ⟨.inclusion (Kind.inclusion.inner line.body m), ?_, .inclusion _⟩
    simp only [directiveOf?, honly, Option.map_some]
  | assignment =>
    obtain ⟨a, hparse, htakes⟩ := Assignment.exists_parse?_of_match h
    refine ⟨.assignment a, ?_, htakes⟩
    simp only [directiveOf?, hparse, Option.map_some]
  | reference => exact absurd rfl hne

theorem directive_of_no_match (hkind : line.kind? = some kind) (hne : kind ≠ .reference)
    (h : ∀ m, ¬ kind.Matches line.body 0 [m]) : line.directive = .error kind := by
  simp only [directive, hkind]
  cases kind with
  | config | inclusion =>
    simp only [directiveOf?, Option.map_none,
      Kind.only?_expressions_of_no_match (Kind.isSome_some_iff (by decide)) h]
  | assignment => simp only [directiveOf?, Assignment.parse?_of_no_match h, Option.map_none]
  | reference => exact absurd rfl hne

end Line

/-! ## The headline -/

/-- **Exactly one match is accepted.** Every text has its matches, and there is no choice about
them. With one match, a file is what stands between its parentheses, and an assignment is read off
as `Directive.Takes` says, on a line as in any other text. With none, or with several ones, nothing
is extracted, and a line fails under its own number with the kind that it was to have; a line that
loads a file fails as a malformed assignment, for any such line of the file. -/
theorem accepts_exactly_one_match :
    (∀ (kind : Kind) (text : Text), ∃ ms, kind.Matches text 0 ms ∧
      ∀ ms', kind.Matches text 0 ms' → ms' = ms) ∧
    (∀ (kind : Kind) (text : Text), kind ≠ .assignment →
      (∀ m, kind.Matches text 0 [m] →
        only? (kind.expressions some text) = some (kind.inner text m)) ∧
      ((∀ m, ¬ kind.Matches text 0 [m]) → only? (kind.expressions some text) = none)) ∧
    (∀ text : Text,
      (∀ m, Kind.assignment.Matches text 0 [m] → ∃ a, Assignment.parse? text = some a ∧
        Directive.Takes .assignment (Kind.assignment.inner text m) (.assignment a)) ∧
      ((∀ m, ¬ Kind.assignment.Matches text 0 [m]) → Assignment.parse? text = none)) ∧
    (∀ (line : Line) (kind : Kind), line.kind? = some kind → kind ≠ .reference →
      (∀ m, kind.Matches line.body 0 [m] → ∃ directive, line.directive = .ok directive ∧
        Directive.Takes kind (kind.inner line.body m) directive) ∧
      ((∀ m, ¬ kind.Matches line.body 0 [m]) → line.directive = .error kind)) ∧
    ∀ (frame : Frame) (nested : Nested) (n : Nat) (own : Bindings) (text : Text),
      (∀ kind, (Line.ofText text).kind? = some kind → kind ≠ .reference →
        (∀ m, ¬ kind.Matches (Line.ofText text).body 0 [m]) →
          frame.expandLine nested n own text = .error ⟨n, .malformed kind⟩) ∧
      ∀ file lines, (Line.ofText text).directive = .ok (.config file) →
        frame.files.readLines (frame.base.join file) = .ok lines →
        (∃ line ∈ lines, ∀ m, ¬ Kind.assignment.Matches line 0 [m]) →
          frame.expandLine nested n own text = .error ⟨n, .malformed .assignment⟩ := by
  refine ⟨fun kind text => ?_, fun kind text hne => ?_, fun text => ?_,
    fun line kind hkind hne => ?_,
    fun frame nested n own text => ⟨fun kind hkind hne hnone => ?_, ?_⟩⟩
  · obtain ⟨ms, hms⟩ : ∃ ms, kind.Matches text 0 ms := by
      by_cases hkind : kind = .assignment
      · obtain ⟨ms, hms, -⟩ := Kind.exists_matches Kind.isSome_splitAtLast?_iff text 0
        exact ⟨ms, hkind ▸ hms⟩
      · obtain ⟨ms, hms, -⟩ := Kind.exists_matches (Kind.isSome_some_iff hkind) text 0
        exact ⟨ms, hms⟩
    exact ⟨ms, hms, fun ms' hms' => hms'.unique hms⟩
  · exact ⟨fun m => Kind.only?_expressions_of_match (Kind.isSome_some_iff hne),
      Kind.only?_expressions_of_no_match (Kind.isSome_some_iff hne)⟩
  · exact ⟨fun m => Assignment.exists_parse?_of_match, Assignment.parse?_of_no_match⟩
  · exact ⟨fun m => Line.exists_directive_of_match hkind hne, Line.directive_of_no_match hkind hne⟩
  · exact (Frame.Faulty.malformed (Line.directive_of_no_match hkind hne hnone)).expandLine_eq
  · rintro file lines hd hread ⟨line, hmem, hnone⟩
    refine (Frame.Faulty.load hd (Frame.load_eq_error_iff.2 (Or.inr ⟨lines, hread, ?_, rfl⟩)))
      |>.expandLine_eq
    -- if all lines had been read, the bad one would have given an assignment
    refine Option.eq_none_iff_forall_ne_some.2 fun as has => ?_
    have hparse : Assignment.parse? line ∈ as.map some := by
      rw [← map_eq_of_mapM_eq_some has]
      exact List.mem_map_of_mem hmem
    rw [Assignment.parse?_of_no_match hnone] at hparse
    simp at hparse

theorem accepts_exactly_one_match_incomplete :
    -- the first expression has no `=`, and is passed
    (Kind.assignment.Matches "#set(x)#set( k=a=\"v\" )".toList 0 [⟨7, 21⟩] ∧
      ∃ a, Assignment.parse? "#set(x)#set( k=a=\"v\" )".toList = some a ∧
        Directive.Takes .assignment " k=a=\"v\" ".toList (.assignment a)) ∧
    -- the second keyword stands inside the first match
    (Kind.inclusion.Matches "#include(#include(f)".toList 0 [⟨0, 19⟩] ∧
      only? (Kind.inclusion.expressions some "#include(#include(f)".toList) =
        some "#include(f".toList) ∧
    -- one expression too many
    Kind.config.Matches "#config(f)#config(g)".toList 0 [⟨0, 9⟩, ⟨10, 19⟩] ∧
      ∀ frame nested n own,
        Frame.expandLine frame nested n own "  #config(f)#config(g)".toList =
          .error ⟨n, .malformed .config⟩ := by
  obtain ⟨-, hfile, hassignment, -, hline⟩ := accepts_exactly_one_match
  have hpassed : Kind.assignment.Matches "#set(x)#set( k=a=\"v\" )".toList 0 [⟨7, 21⟩] := by
    decide +kernel
  have hinside : Kind.inclusion.Matches "#include(#include(f)".toList 0 [⟨0, 19⟩] := by
    decide +kernel
  have htwo : Kind.config.Matches "#config(f)#config(g)".toList 0 [⟨0, 9⟩, ⟨10, 19⟩] := by
    decide +kernel
  refine ⟨⟨hpassed, (hassignment _).1 _ hpassed⟩, ⟨hinside, ?_⟩, htwo, fun frame nested n own => ?_⟩
  · exact (hfile .inclusion _ (by decide)).1 _ hinside
  · refine (hline frame nested n own _).1 .config (by decide) (by decide) fun m hone => ?_
    cases Kind.Matches.unique hone htwo

end LineTemplate
