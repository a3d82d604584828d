import LineTemplate.Text

/-!
# Lines of a text

A line ends at LF, at CR LF or at a CR that no LF follows. A terminator at the very end of a
text starts no further line, so the empty text has no lines at all.

* **`Text.lines`** — reads the lines of a text from the left;
* **`Text.unlines`** — writes lines, each with one LF behind it;
* `lines_unlines` — lines without terminators inside are read as they were written;
* `unbroken_of_mem_lines` — and no other lines are ever read.
-/

namespace LineTemplate

namespace Text

/-- Puts a character in front of the first line, which begins with it if there is none yet. -/
def consToFirst (c : Char) : List Text → List Text
  | [] => [[c]]
  | line :: rest => (c :: line) :: rest

/-- **The lines of a text**, without their terminators. -/
def lines : Text → List Text
  | [] => []
  | '\r' :: '\n' :: rest => [] :: lines rest
  | '\r' :: rest => [] :: lines rest
  | '\n' :: rest => [] :: lines rest
  | c :: rest => consToFirst c (lines rest)

/-- The lines, each followed by one LF. -/
def unlines (ls : List Text) : Text := ls.flatMap (· ++ ['\n'])

@[simp] theorem unlines_cons (line : Text) (ls : List Text) :
    unlines (line :: ls) = line ++ '\n' :: unlines ls := by
  simp [unlines]

/-! ## Reading what was written -/

def isTerminator (c : Char) : Bool := c = '\n' || c = '\r'

theorem isTerminator_eq_false_iff {c : Char} :
    isTerminator c = false ↔ c ≠ '\n' ∧ c ≠ '\r' := by
  simp [isTerminator]

/-- **An unbroken text** has no terminator inside. -/
def Unbroken (text : Text) : Prop := ∀ c ∈ text, isTerminator c = false

theorem unbroken_nil : Unbroken [] := fun _ hc => (List.not_mem_nil hc).elim

theorem Unbroken.cons {c : Char} {text : Text} (hc : isTerminator c = false) (h : text.Unbroken) :
    Unbroken (c :: text) :=
  List.forall_mem_cons.2 ⟨hc, h⟩

theorem lines_cons {c : Char} (h : isTerminator c = false) (rest : Text) :
    lines (c :: rest) = consToFirst c (lines rest) := by
  obtain ⟨hlf, hcr⟩ := isTerminator_eq_false_iff.1 h
  -- the arms in front of the last one need a terminator
  rw [lines]
  · intro tail heq; exact absurd heq hcr
  · intro heq; exact absurd heq hcr
  · intro heq; exact absurd heq hlf

/-- A line that a terminator ends takes up the empty line in front of the terminator. -/
theorem lines_append_of_lines {line : Text} (h : line.Unbroken) {tail : Text}
    {others : List Text} (htail : lines tail = [] :: others) :
    lines (line ++ tail) = line :: others := by
  induction line with
  | nil => exact htail
  | cons c rest ih =>
    rw [List.cons_append, lines_cons (h c List.mem_cons_self),
      ih fun d hd => h d (List.mem_cons_of_mem c hd)]
    rfl

theorem lines_line_append {line : Text} (h : line.Unbroken) (rest : Text) :
    lines (line ++ '\n' :: rest) = line :: lines rest :=
  lines_append_of_lines h (by rw [lines])

/-- A text without terminators is one line, if it is not empty. -/
theorem lines_of_unbroken {text : Text} (h : text.Unbroken) :
    lines text = if text = [] then [] else [text] := by
  induction text with
  | nil => rfl
  | cons c rest ih =>
    rw [lines_cons (h c List.mem_cons_self), ih fun d hd => h d (List.mem_cons_of_mem c hd)]
    cases rest <;> rfl

/-- Lines without terminators inside are read as they were written. -/
theorem lines_unlines {ls : List Text} (h : ∀ line ∈ ls, line.Unbroken) :
    lines (unlines ls) = ls := by
  induction ls with
  | nil => rfl
  | cons line rest ih =>
    rw [unlines_cons, lines_line_append (h line List.mem_cons_self),
      ih fun l hl => h l (List.mem_cons_of_mem line hl)]

/-! ## Lines have no terminators inside -/

theorem unbroken_iff {text : Text} : text.Unbroken ↔ '\n' ∉ text ∧ '\r' ∉ text := by
  constructor
  · intro h
    exact ⟨fun hmem => absurd (h _ hmem) (by decide), fun hmem => absurd (h _ hmem) (by decide)⟩
  · rintro ⟨hlf, hcr⟩ c hc
    exact isTerminator_eq_false_iff.2 ⟨fun h => hlf (h ▸ hc), fun h => hcr (h ▸ hc)⟩

theorem Unbroken.append {text text' : Text} (h : text.Unbroken) (h' : text'.Unbroken) :
    (text ++ text').Unbroken := fun c hc =>
  (List.mem_append.1 hc).elim (h c) (h' c)

theorem unbroken_of_mem_consToFirst {c : Char} (hc : isTerminator c = false) {ls : List Text}
    (h : ∀ line ∈ ls, line.Unbroken) : ∀ line ∈ consToFirst c ls, line.Unbroken := by
  intro line hline
  cases ls with
  | nil =>
    obtain rfl := List.mem_singleton.1 hline
    intro d hd
    rw [List.mem_singleton.1 hd]
    exact hc
  | cons first rest =>
    rcases List.mem_cons.1 hline with rfl | hrest
    · exact Unbroken.cons hc (h first List.mem_cons_self)
    · exact h line (List.mem_cons_of_mem first hrest)

/-- **No line that is read has a terminator inside.** -/
theorem unbroken_of_mem_lines {text : Text} : ∀ line ∈ text.lines, line.Unbroken := by
  -- each kind of terminator leaves an empty first line in front of the others
  have hempty : ∀ {ls : List Text}, (∀ line ∈ ls, line.Unbroken) →
      ∀ line ∈ [] :: ls, Unbroken line :=
    fun h => List.forall_mem_cons.2 ⟨unbroken_nil, h⟩
  induction text using lines.induct with
  | case1 => exact fun _ hline => (List.not_mem_nil hline).elim
  | case2 rest ih => exact hempty ih
  | case3 rest hlf ih =>
    rw [lines]
    · exact hempty ih
    · exact hlf
  | case4 rest ih => exact hempty ih
  | case5 c rest hcrlf hcr hlf ih =>
    have hc := isTerminator_eq_false_iff.2 ⟨hlf, hcr⟩
    rw [lines_cons hc]
    exact unbroken_of_mem_consToFirst hc ih

/-- Lines without terminators inside are written with one LF for each of them. -/
theorem count_unlines {ls : List Text} (h : ∀ line ∈ ls, line.Unbroken) :
    (unlines ls).count '\n' = ls.length := by
  induction ls with
  | nil => rfl
  | cons line rest ih =>
    have hline : line.count '\n' = 0 :=
      List.count_eq_zero.2 (unbroken_iff.1 (h line List.mem_cons_self)).1
    have hrest := ih fun other hmem => h other (List.mem_cons_of_mem line hmem)
    rw [unlines_cons, List.count_append, List.count_cons_self, hline, hrest, List.length_cons]
    omega

end Text

end LineTemplate
