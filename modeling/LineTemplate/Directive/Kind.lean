import LineTemplate.Text

/-!
# Kinds of directives

Four keywords make a line of a template a directive: `#config`, `#set` and `#include` where a
line starts with them, `#var` wherever on a line it stands. `Kind.classify` decides which, by
the keyword alone; whether the rest of the line is well-formed is for `Line.directive` to say.
-/

namespace LineTemplate

/-- **The kinds of directives:** loading assignments from a file, assigning one variable,
including a file, and referring to variables. -/
inductive Kind where
  | config
  | assignment
  | inclusion
  | reference
deriving DecidableEq, Repr

namespace Kind

/-- All kinds, in the order in which `classify` tries them. -/
def all : List Kind := [.config, .assignment, .inclusion, .reference]

def name : Kind → Text
  | .config => "config".toList
  | .assignment => "set".toList
  | .inclusion => "include".toList
  | .reference => "var".toList

def keyword (kind : Kind) : Text := '#' :: kind.name

/-- What a line of the kind has to contain. -/
def expected : Kind → Text
  | .config => "one #config(<file>) expression".toList
  | .assignment => "one #set(<key>=<value>) expression".toList
  | .inclusion => "one #include(<file>) expression".toList
  | .reference => "#var(<name>) expressions".toList

/-- **The kind of a line**, from its text behind the indentation: the first keyword of
`#config`, `#set` and `#include` that the text starts with, else `#var` if it is in there. -/
def classify (body : Text) : Option Kind :=
  ([.config, .assignment, .inclusion].find? fun kind => kind.keyword.isPrefixOf body).or
    (if reference.keyword.occursIn body then some .reference else none)

/-- A text without `#` holds no directive. -/
theorem classify_eq_none {body : Text} (h : '#' ∉ body) : classify body = none := by
  have hmem : ∀ kind : Kind, '#' ∈ kind.keyword := fun kind => List.mem_cons_self
  have hstart : ∀ kind : Kind, kind.keyword.isPrefixOf body = false := by
    intro kind
    refine Bool.eq_false_iff.2 fun hkeyword => h ?_
    exact (List.isPrefixOf_iff_prefix.1 hkeyword).subset (hmem kind)
  have hoccurs : reference.keyword.occursIn body = false := by
    refine Bool.eq_false_iff.2 fun hkeyword => h ?_
    exact Text.subset_of_occursIn hkeyword (hmem reference)
  simp [classify, hstart, hoccurs]

/-- No keyword is the start of another one. -/
theorem eq_of_keyword_isPrefix {a b : Kind} {body : Text} (ha : a.keyword <+: body)
    (hb : b.keyword <+: body) : a = b := by
  rcases List.prefix_or_prefix_of_prefix ha hb with h | h <;>
    cases a <;> cases b <;> first | rfl | exact absurd h (by decide)

/-- **The kinds that count at the start of a line** are told by the keyword there. -/
theorem classify_eq_some_iff {kind : Kind} (hne : kind ≠ .reference) {body : Text} :
    classify body = some kind ↔ kind.keyword <+: body := by
  unfold classify
  constructor
  · intro h
    rcases Option.or_eq_some_iff.1 h with hfind | ⟨-, hlast⟩
    · have hfound : kind.keyword.isPrefixOf body = true := by simpa using List.find?_some hfind
      exact List.isPrefixOf_iff_prefix.1 hfound
    · split at hlast
      · cases hlast
        exact absurd rfl hne
      · cases hlast
  · intro h
    refine Option.or_eq_some_iff.2 (Or.inl ?_)
    cases hfind : [Kind.config, .assignment, .inclusion].find? fun other =>
        other.keyword.isPrefixOf body with
    | some found =>
      have hfound : found.keyword.isPrefixOf body = true := by simpa using List.find?_some hfind
      rw [eq_of_keyword_isPrefix h (List.isPrefixOf_iff_prefix.1 hfound)]
    | none =>
      have hmem : kind ∈ [Kind.config, .assignment, .inclusion] := by
        cases kind with
        | config | assignment | inclusion => decide
        | reference => exact absurd rfl hne
      have hnot := List.find?_eq_none.1 hfind kind hmem
      exact absurd (List.isPrefixOf_iff_prefix.2 h) hnot

theorem mem_all (kind : Kind) : kind ∈ all := by cases kind <;> decide

theorem name_inj {a b : Kind} : a.name = b.name ↔ a = b := by
  cases a <;> cases b <;> decide

end Kind

end LineTemplate
