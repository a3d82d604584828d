import LineTemplate.Text.Lines
import LineTemplate.Text.Search
import Mathlib.Data.List.Chain

/-!
# Every mix of terminators

A text is made of lines, each with the terminator that ends it, and of what is left behind the last
one of them. Reading the lines of a text undoes this, whatever terminators are mixed. Only one thing
has to be kept apart: an empty line that an LF ends, right behind a line that a CR ends, would make
one terminator of the two.

## The architecture

* **`Layout`** — lines with their terminators, and a rest without one; `Layout.text` writes it.
* **`lines_text`** — the lines of a text that was written so.
* **`Layout.text_injective`**, **`exists_layout`** — each text has one layout.
* **`Text.splitLines`** — the lines in another way: all terminators are made the same, the text is
  split at each of them, and an empty piece at the end is dropped. `splitLines_text` shows that this
  comes to the same.
* **`lines_inverts_layouts`** — the headline.
-/

namespace LineTemplate

/-- What ends a line: LF, CR LF, or a lone CR. -/
inductive Terminator where
  | lf
  | crlf
  | cr
deriving DecidableEq, Repr

def Terminator.text : Terminator → Text
  | .lf => ['\n']
  | .crlf => ['\r', '\n']
  | .cr => ['\r']

/-- **A line and what ends it.** -/
structure EndedLine where
  line : Text
  ending : Terminator
  unbroken : line.Unbroken
deriving DecidableEq

def EndedLine.text (ended : EndedLine) : Text := ended.line ++ ended.ending.text

/-- Two lines are told apart: the CR of the first and the LF of the second are not next to each
other. -/
def EndedLine.Apart (ended next : EndedLine) : Prop :=
  ¬ (ended.ending = .cr ∧ next.line = [] ∧ next.ending = .lf)

/-- **A layout:** lines with their terminators, and the rest behind them, which has none. -/
@[ext] structure Layout where
  ended : List EndedLine
  rest : Text
  apart : ended.IsChain EndedLine.Apart
  unbroken : rest.Unbroken

/-- The text that is written so. -/
def Layout.text (layout : Layout) : Text := layout.ended.flatMap EndedLine.text ++ layout.rest

/-- The lines that are written. The rest is one if it is not empty. -/
def Layout.lines (layout : Layout) : List Text :=
  layout.ended.map EndedLine.line ++ if layout.rest = [] then [] else [layout.rest]

namespace Text

/-- All terminators as LF. -/
def unified (text : Text) : Text :=
  replaceAll ['\r'] ['\n'] (replaceAll ['\r', '\n'] ['\n'] text)

/-- **The lines of a text,** split at terminators that were made the same. An empty text and a final
terminator leave an empty piece at the end, which is no line. -/
def splitLines (text : Text) : List Text :=
  let pieces := text.unified.splitOn '\n'
  if text.unified = [] ∨ text.unified.getLast? = some '\n' then pieces.dropLast else pieces

end Text

/-! ## Without terminators -/

namespace Text

theorem unified_of_unbroken {text : Text} (h : text.Unbroken) : text.unified = text := by
  have hcr := (unbroken_iff.1 h).2
  -- a search that meets no CR comes to the end of the text
  have hpass : ∀ {pattern : Text}, pattern.head? = some '\r' →
      replaceAll pattern ['\n'] text = text := by
    intro pattern hhead
    have hend := replaceAll_append_of_not_mem ['\n'] hhead hcr []
    rwa [List.append_nil, replaceAll.eq_1 pattern ['\n'] [], pieces_nil, splice_nil,
      List.append_nil] at hend
  rw [unified, hpass rfl, hpass rfl]

theorem splitLines_of_unbroken {text : Text} (h : text.Unbroken) :
    text.splitLines = if text = [] then [] else [text] := by
  have hlf := (unbroken_iff.1 h).1
  have hlast : text.getLast? ≠ some '\n' := fun heq => hlf (List.mem_of_getLast? heq)
  simp only [splitLines, unified_of_unbroken h, List.splitOn_eq_singleton hlf, hlast, or_false]
  rfl

end Text

/-! ## One line in front of a text -/

namespace EndedLine

variable {ended : EndedLine} {text : Text}

/-- What may stand behind a line: no LF if the line ends at a CR. -/
def Before (ended : EndedLine) (text : Text) : Prop :=
  ended.ending = .cr → text.head? ≠ some '\n'

theorem before_of_ne_cr (h : ended.ending ≠ .cr) (text : Text) : ended.Before text :=
  fun hcr => absurd hcr h

theorem lf_not_mem (ended : EndedLine) : '\n' ∉ ended.line :=
  (Text.unbroken_iff.1 ended.unbroken).1

theorem cr_not_mem (ended : EndedLine) : '\r' ∉ ended.line :=
  (Text.unbroken_iff.1 ended.unbroken).2

/-- Whether the lines behind a line may stand there is a matter of the first one of them. -/
theorem isChain_cons_iff {more : List EndedLine} {rest : Text} (hrest : rest.Unbroken) :
    (ended :: more).IsChain Apart ↔
      ended.Before (more.flatMap EndedLine.text ++ rest) ∧ more.IsChain Apart := by
  cases more with
  | nil =>
    have hhead : rest.head? ≠ some '\n' := fun h =>
      (Text.unbroken_iff.1 hrest).1 (List.mem_of_mem_head? h)
    simp [Before, hhead]
  | cons next more =>
    have hfirst : (next.text ++ (more.flatMap EndedLine.text ++ rest)).head? = some '\n' ↔
        next.line = [] ∧ next.ending = .lf := by
      have hlf := next.lf_not_mem
      unfold EndedLine.text
      cases hline : next.line with
      | nil => cases next.ending <;> simp [Terminator.text]
      | cons c line =>
        have hc : c ≠ '\n' := by
          rintro rfl
          exact hlf (hline ▸ List.mem_cons_self)
        simp [hc]
    rw [List.isChain_cons_cons, List.flatMap_cons, List.append_assoc, Before, Ne, hfirst, Apart,
      not_and]

/-- A line is read back in front of what may stand behind it. -/
theorem lines_append (h : ended.Before text) :
    (ended.text ++ text).lines = ended.line :: text.lines := by
  rw [EndedLine.text, List.append_assoc]
  refine Text.lines_append_of_lines ended.unbroken ?_
  cases hending : ended.ending with
  | lf => exact Text.lines.eq_4 text
  | crlf => exact Text.lines.eq_2 text
  | cr =>
    refine Text.lines.eq_3 text ?_
    rintro tail rfl
    exact h hending rfl

/-- Any terminator becomes one LF. -/
theorem unified_append (h : ended.Before text) :
    (ended.text ++ text).unified = ended.line ++ '\n' :: text.unified := by
  -- an LF that stands there, or comes from a CR LF, is passed by the second replacement
  have hpass : ∀ tail : Text, Text.replaceAll ['\r'] ['\n'] (ended.line ++ '\n' :: tail) =
      ended.line ++ '\n' :: Text.replaceAll ['\r'] ['\n'] tail := by
    intro tail
    rw [Text.replaceAll_append_of_not_mem _ rfl ended.cr_not_mem,
      Text.replaceAll_cons_of_not_isPrefix _ (by simp)]
  have hreplace : ∀ tail : Text, Text.replaceAll ['\r'] ['\n'] (ended.line ++ '\r' :: tail) =
      ended.line ++ '\n' :: Text.replaceAll ['\r'] ['\n'] tail := by
    intro tail
    rw [Text.replaceAll_append_of_not_mem _ rfl ended.cr_not_mem]
    exact congrArg _ (Text.replaceAll_append_self ['\n'] (by simp) tail)
  rw [EndedLine.text, List.append_assoc, Text.unified,
    Text.replaceAll_append_of_not_mem _ rfl ended.cr_not_mem]
  cases hending : ended.ending with
  | lf =>
    rw [Terminator.text, List.singleton_append, Text.replaceAll_cons_of_not_isPrefix _ (by simp),
      hpass, Text.unified]
  | crlf =>
    rw [Terminator.text, Text.replaceAll_append_self _ (by simp), List.singleton_append, hpass,
      Text.unified]
  | cr =>
    have hlone : ¬ ['\r', '\n'] <+: '\r' :: text := by
      rintro ⟨tail, htail⟩
      obtain rfl : '\n' :: tail = text := (List.cons.inj htail).2
      exact h hending rfl
    rw [Terminator.text, List.singleton_append, Text.replaceAll_cons_of_not_isPrefix _ hlone,
      hreplace, Text.unified]

theorem splitLines_append (h : ended.Before text) :
    (ended.text ++ text).splitLines = ended.line :: text.splitLines := by
  have hlast : (ended.line ++ '\n' :: text.unified).getLast? = some '\n' ↔
      text.unified = [] ∨ text.unified.getLast? = some '\n' := by
    cases text.unified <;> simp
  simp only [Text.splitLines, unified_append h, hlast,
    List.splitOn_append_cons_self_of_not_mem ended.lf_not_mem]
  split_ifs <;> simp_all [List.dropLast_cons_of_ne_nil, List.splitOn_ne_nil]

/-- An unbroken text has no line with its terminator at the front. -/
theorem not_unbroken_append (ended : EndedLine) (text : Text) :
    ¬ (ended.text ++ text).Unbroken := by
  intro h
  obtain ⟨hlf, hcr⟩ := Text.unbroken_iff.1 h
  cases hending : ended.ending <;> simp [EndedLine.text, Terminator.text, hending] at hlf hcr

/-- The front of a text is a line in at most one way. -/
theorem text_append_inj {other : EndedLine} {text' : Text} (h : ended.Before text)
    (h' : other.Before text') (heq : ended.text ++ text = other.text ++ text') :
    ended = other ∧ text = text' := by
  -- the first line that is read is the line of both, so the terminators come next to be compared
  have hlines := congrArg Text.lines heq
  rw [lines_append h, lines_append h'] at hlines
  have hline := (List.cons.inj hlines).1
  obtain ⟨line, ending, unbroken⟩ := ended
  obtain ⟨line', ending', unbroken'⟩ := other
  obtain rfl : line = line' := hline
  simp only [EndedLine.text, List.append_assoc, List.append_cancel_left_eq] at heq
  cases ending <;> cases ending'
  case cr.crlf =>
    obtain rfl : text = '\n' :: text' := (List.cons.inj heq).2
    exact absurd rfl (h rfl)
  case crlf.cr =>
    obtain rfl : '\n' :: text = text' := (List.cons.inj heq).2
    exact absurd rfl (h' rfl)
  all_goals simp_all [Terminator.text]

end EndedLine

/-! ## Layouts -/

namespace Layout

/-- Nothing but a rest. -/
def ofUnbroken (rest : Text) (unbroken : rest.Unbroken) : Layout where
  ended := []
  rest := rest
  apart := .nil
  unbroken := unbroken

/-- One line more at the front. -/
def cons (ended : EndedLine) (layout : Layout) (h : ended.Before layout.text) : Layout where
  ended := ended :: layout.ended
  rest := layout.rest
  apart := (EndedLine.isChain_cons_iff layout.unbroken).2 ⟨h, layout.apart⟩
  unbroken := layout.unbroken

@[simp] theorem text_ofUnbroken {rest : Text} (h : rest.Unbroken) :
    (ofUnbroken rest h).text = rest :=
  rfl

@[simp] theorem text_cons {ended : EndedLine} {layout : Layout} (h : ended.Before layout.text) :
    (layout.cons ended h).text = ended.text ++ layout.text := by
  simp [cons, Layout.text]

@[simp] theorem lines_ofUnbroken {rest : Text} (h : rest.Unbroken) :
    (ofUnbroken rest h).lines = if rest = [] then [] else [rest] :=
  rfl

@[simp] theorem lines_cons {ended : EndedLine} {layout : Layout} (h : ended.Before layout.text) :
    (layout.cons ended h).lines = ended.line :: layout.lines :=
  rfl

/-- Layouts are built from the rest, line by line. -/
@[elab_as_elim] theorem induction {motive : Layout → Prop}
    (hrest : ∀ rest h, motive (ofUnbroken rest h))
    (hcons : ∀ ended layout h, motive layout → motive (layout.cons ended h))
    (layout : Layout) : motive layout := by
  obtain ⟨ended, rest, apart, unbroken⟩ := layout
  induction ended with
  | nil => exact hrest rest unbroken
  | cons ended more ih =>
    obtain ⟨hbefore, hmore⟩ := (EndedLine.isChain_cons_iff unbroken).1 apart
    exact hcons ended ⟨more, rest, hmore, unbroken⟩ hbefore (ih hmore)

/-- **A text has at most one layout.** -/
theorem text_injective {layout other : Layout} (h : layout.text = other.text) :
    layout = other := by
  induction layout using Layout.induction generalizing other with
  | hrest rest hunbroken =>
    induction other using Layout.induction with
    | hrest rest' _ =>
      obtain rfl : rest = rest' := h
      rfl
    | hcons ended layout hbefore _ =>
      rw [text_ofUnbroken, text_cons] at h
      exact absurd (h ▸ hunbroken) (ended.not_unbroken_append layout.text)
  | hcons ended layout hbefore ih =>
    induction other using Layout.induction with
    | hrest rest hunbroken =>
      rw [text_ofUnbroken, text_cons] at h
      exact absurd (h ▸ hunbroken) (ended.not_unbroken_append layout.text)
    | hcons ended' layout' hbefore' _ =>
      rw [text_cons, text_cons] at h
      obtain ⟨rfl, htext⟩ := EndedLine.text_append_inj hbefore hbefore' h
      obtain rfl := ih htext
      rfl

end Layout

/-- **Every text has a layout.** -/
theorem exists_layout (text : Text) : ∃ layout : Layout, layout.text = text := by
  induction text using Text.lines.induct with
  | case1 => exact ⟨.ofUnbroken [] Text.unbroken_nil, rfl⟩
  | case2 rest ih =>
    obtain ⟨layout, rfl⟩ := ih
    exact ⟨layout.cons ⟨[], .crlf, Text.unbroken_nil⟩ (EndedLine.before_of_ne_cr (by simp) _),
      Layout.text_cons _⟩
  | case3 rest hlf ih =>
    obtain ⟨layout, rfl⟩ := ih
    have hbefore : EndedLine.Before ⟨[], .cr, Text.unbroken_nil⟩ layout.text := by
      intro _ hhead
      obtain ⟨tail, htail⟩ := List.head?_eq_some_iff.1 hhead
      exact hlf tail htail
    exact ⟨layout.cons _ hbefore, Layout.text_cons _⟩
  | case4 rest ih =>
    obtain ⟨layout, rfl⟩ := ih
    exact ⟨layout.cons ⟨[], .lf, Text.unbroken_nil⟩ (EndedLine.before_of_ne_cr (by simp) _),
      Layout.text_cons _⟩
  | case5 c rest hcrlf hcr hlf ih =>
    have hc := Text.isTerminator_eq_false_iff.2 ⟨hlf, hcr⟩
    obtain ⟨layout, rfl⟩ := ih
    -- the character is the first one of the first line, or of the rest if there is no line
    induction layout using Layout.induction with
    | hrest rest hunbroken =>
      exact ⟨.ofUnbroken (c :: rest) (hunbroken.cons hc), rfl⟩
    | hcons ended layout hbefore _ =>
      have hbefore' :
          EndedLine.Before ⟨c :: ended.line, ended.ending, ended.unbroken.cons hc⟩ layout.text :=
        hbefore
      refine ⟨layout.cons _ hbefore', ?_⟩
      rw [Layout.text_cons, Layout.text_cons]
      rfl

/-! ## The headline -/

/-- **The lines of a text that was written by a layout.** -/
theorem lines_text (layout : Layout) : layout.text.lines = layout.lines := by
  induction layout using Layout.induction with
  | hrest rest h => rw [Layout.text_ofUnbroken, Layout.lines_ofUnbroken, Text.lines_of_unbroken h]
  | hcons ended layout h ih =>
    rw [Layout.text_cons, EndedLine.lines_append h, Layout.lines_cons, ih]

theorem splitLines_text (layout : Layout) : layout.text.splitLines = layout.lines := by
  induction layout using Layout.induction with
  | hrest rest h =>
    rw [Layout.text_ofUnbroken, Layout.lines_ofUnbroken, Text.splitLines_of_unbroken h]
  | hcons ended layout h ih =>
    rw [Layout.text_cons, EndedLine.splitLines_append h, Layout.lines_cons, ih]

/-- **Reading the lines of a text undoes writing them,** with any mix of terminators. Every text was
written by one layout and no other, so this says what the lines of any text are: those that a split
at unified terminators gives, none of them with a terminator inside. -/
theorem lines_inverts_layouts :
    (∀ layout : Layout, layout.text.lines = layout.lines) ∧
      (∀ text : Text, ∃! layout : Layout, layout.text = text) ∧
        ∀ text : Text, text.lines = text.splitLines ∧
          ∀ line ∈ text.lines, '\n' ∉ line ∧ '\r' ∉ line := by
  refine ⟨lines_text, fun text => ?_, fun text => ⟨?_, fun line hline => ?_⟩⟩
  · obtain ⟨layout, htext⟩ := exists_layout text
    exact ⟨layout, htext, fun other hother => Layout.text_injective (hother.trans htext.symm)⟩
  · obtain ⟨layout, rfl⟩ := exists_layout text
    rw [lines_text, splitLines_text]
  · exact Text.unbroken_iff.1 (Text.unbroken_of_mem_lines line hline)

end LineTemplate
