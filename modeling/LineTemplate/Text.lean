/-!
# Texts

A text is the list of its characters, so every length and every cut is in characters and
never in bytes.

* `Text.occursIn` — does one text stand somewhere inside another?
* `Text.upTo?` — what stands before the first occurrence of a character;
* `Text.splitAtLast?` — what stands before and after its last occurrence;
* `Text.decimal` — the digits of a number.

The two cutting functions lose nothing: `eq_of_upTo?` and `eq_of_splitAtLast?` put the cut
text together again, and say which part is free of the character.
-/

namespace LineTemplate

/-- **A text** is the list of its characters. -/
abbrev Text := List Char

namespace Text

def decimal (n : Nat) : Text := Nat.toDigits 10 n

def utf8Length : Text → Nat
  | [] => 0
  | c :: rest => c.utf8Size + utf8Length rest

def occursIn (needle : Text) : Text → Bool
  | [] => needle.isEmpty
  | c :: rest => needle.isPrefixOf (c :: rest) || occursIn needle rest

/-- What stands before the first `stop`; `none` if the text has no `stop`. -/
def upTo? (stop : Char) : Text → Option Text
  | [] => none
  | c :: rest => if c = stop then some [] else (upTo? stop rest).map (c :: ·)

/-- What stands before and after the last `sep`; `none` if the text has no `sep`. -/
def splitAtLast? (sep : Char) : Text → Option (Text × Text)
  | [] => none
  | c :: rest =>
    match splitAtLast? sep rest with
    | some (before, after) => some (c :: before, after)
    | none => if c = sep then some ([], rest) else none

theorem subset_of_occursIn {needle text : Text} (h : occursIn needle text = true) :
    needle ⊆ text := by
  induction text with
  | nil =>
    obtain rfl : needle = [] := List.isEmpty_iff.1 h
    exact List.Subset.refl _
  | cons c rest ih =>
    rcases Bool.or_eq_true_iff.1 h with hstart | hrest
    · exact (List.isPrefixOf_iff_prefix.1 hstart).subset
    · exact fun d hd => List.mem_cons_of_mem c (ih hrest hd)

/-! ## The cuts lose nothing -/

theorem upTo?_eq_none_iff {stop : Char} {text : Text} :
    upTo? stop text = none ↔ stop ∉ text := by
  induction text with
  | nil => simp [upTo?]
  | cons c rest ih =>
    by_cases h : c = stop
    · simp [upTo?, h]
    · simp [upTo?, h, ih, Ne.symm h]

theorem eq_of_upTo? {stop : Char} {text before : Text} (h : upTo? stop text = some before) :
    stop ∉ before ∧ ∃ after, text = before ++ stop :: after := by
  induction text generalizing before with
  | nil => simp [upTo?] at h
  | cons c rest ih =>
    by_cases hc : c = stop
    · obtain rfl : before = [] := by simpa [upTo?, hc, eq_comm] using h
      exact ⟨by simp, rest, by simp [hc]⟩
    · have hrest : ∃ front, upTo? stop rest = some front ∧ c :: front = before := by
        simpa [upTo?, hc] using h
      obtain ⟨front, hfront, rfl⟩ := hrest
      obtain ⟨hmem, after, rfl⟩ := ih hfront
      exact ⟨by simp [hmem, Ne.symm hc], after, rfl⟩

theorem upTo?_append {stop : Char} {before : Text} (h : stop ∉ before) (after : Text) :
    upTo? stop (before ++ stop :: after) = some before := by
  induction before with
  | nil => simp [upTo?]
  | cons c rest ih =>
    simp only [List.mem_cons, not_or] at h
    simp [upTo?, Ne.symm h.1, ih h.2]

theorem splitAtLast?_eq_none_iff {sep : Char} {text : Text} :
    splitAtLast? sep text = none ↔ sep ∉ text := by
  induction text with
  | nil => simp [splitAtLast?]
  | cons c rest ih =>
    cases hrest : splitAtLast? sep rest with
    | some cut =>
      have : sep ∈ rest := by
        refine Classical.not_not.1 fun hmem => ?_
        simp [ih.2 hmem] at hrest
      simp [splitAtLast?, hrest, this]
    | none =>
      by_cases hc : c = sep
      · simp [splitAtLast?, hrest, hc]
      · simp [splitAtLast?, hrest, hc, ih.1 hrest, Ne.symm hc]

theorem eq_of_splitAtLast? {sep : Char} {text before after : Text}
    (h : splitAtLast? sep text = some (before, after)) :
    sep ∉ after ∧ text = before ++ sep :: after := by
  induction text generalizing before with
  | nil => simp [splitAtLast?] at h
  | cons c rest ih =>
    cases hrest : splitAtLast? sep rest with
    | some cut =>
      obtain ⟨front, tail⟩ := cut
      obtain ⟨rfl, rfl⟩ : c :: front = before ∧ tail = after := by
        simpa [splitAtLast?, hrest] using h
      obtain ⟨hmem, rfl⟩ := ih hrest
      exact ⟨hmem, rfl⟩
    | none =>
      obtain ⟨hc, hb, ha⟩ : c = sep ∧ before = [] ∧ rest = after := by
        simpa [splitAtLast?, hrest, eq_comm] using h
      subst hc hb ha
      exact ⟨splitAtLast?_eq_none_iff.1 hrest, rfl⟩

theorem splitAtLast?_append {sep : Char} (before : Text) {after : Text} (h : sep ∉ after) :
    splitAtLast? sep (before ++ sep :: after) = some (before, after) := by
  induction before with
  | nil => simp [splitAtLast?, splitAtLast?_eq_none_iff.2 h]
  | cons c rest ih => simp [splitAtLast?, ih]

end Text

end LineTemplate
