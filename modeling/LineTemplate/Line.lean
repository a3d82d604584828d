import LineTemplate.Directive.Kind

/-!
# Lines of a template

A line is its indentation, a number of ASCII spaces, and the body behind them. `Line.ofText`
and `Line.text` go between the two forms of a line and lose nothing (`text_ofText`,
`ofText_text`); tabs and other blanks belong to the body.
-/

namespace LineTemplate

def Text.spaces (n : Nat) : Text := List.replicate n ' '

theorem Text.spaces_append_spaces (m n : Nat) :
    Text.spaces m ++ Text.spaces n = Text.spaces (m + n) :=
  List.replicate_append_replicate

/-- Lines that are moved to the right twice are moved by the sum. -/
theorem Text.map_spaces_map_spaces (m n : Nat) (lines : List Text) :
    (lines.map (Text.spaces n ++ ·)).map (Text.spaces m ++ ·) =
      lines.map (Text.spaces (m + n) ++ ·) := by
  rw [List.map_map]
  apply List.map_congr_left
  intro line _
  show Text.spaces m ++ (Text.spaces n ++ line) = Text.spaces (m + n) ++ line
  rw [← List.append_assoc, Text.spaces_append_spaces]

/-- **A line:** how many spaces it starts with, and what follows them. -/
structure Line where
  indentation : Nat
  body : Text
  /-- All leading spaces are indentation. -/
  head?_body : body.head? ≠ some ' '
deriving DecidableEq

namespace Line

def countIndentation (text : Text) : Nat := (text.takeWhile (· = ' ')).length

def ofText (text : Text) : Line where
  indentation := countIndentation text
  body := text.dropWhile (· = ' ')
  head?_body := by
    have h := List.head?_dropWhile_not (· = ' ') text
    intro hspace
    simp [hspace] at h

def text (line : Line) : Text := Text.spaces line.indentation ++ line.body

def indent (n : Nat) (line : Line) : Line := { line with indentation := n + line.indentation }

def kind? (line : Line) : Option Kind := Kind.classify line.body

/-! ## The two forms of a line -/

@[simp] theorem text_ofText (t : Text) : (ofText t).text = t := by
  have hspaces : Text.spaces (countIndentation t) = t.takeWhile (· = ' ') :=
    (List.eq_replicate_iff.2 ⟨rfl, fun c hc => by
      simpa using List.all_eq_true.1 (List.all_takeWhile (l := t) (p := (· = ' '))) c hc⟩).symm
  simp [text, ofText, hspaces, List.takeWhile_append_dropWhile]

@[simp] theorem ofText_text (line : Line) : ofText line.text = line := by
  obtain ⟨n, body, hbody⟩ := line
  have hspaces : ∀ c ∈ Text.spaces n, (decide (c = ' ')) = true := by
    simp [Text.spaces]
  -- the body starts with no space, so both scans stop in front of it
  have htake : body.takeWhile (· = ' ') = [] := by
    cases body with
    | nil => rfl
    | cons c rest => simp_all
  have hdrop : body.dropWhile (· = ' ') = body := by
    cases body with
    | nil => rfl
    | cons c rest => simp_all
  simp only [ofText, text, countIndentation, mk.injEq]
  rw [List.takeWhile_append_of_pos hspaces, List.dropWhile_append_of_pos hspaces, htake, hdrop]
  simp [Text.spaces]

/-- Spaces in front of a text only move its line to the right. -/
theorem ofText_spaces_append (n : Nat) (t : Text) :
    ofText (Text.spaces n ++ t) = (ofText t).indent n := by
  have h : Text.spaces n ++ t = ((ofText t).indent n).text := by
    calc Text.spaces n ++ t
        = Text.spaces n ++ (ofText t).text := by rw [text_ofText]
      _ = ((ofText t).indent n).text := by
          rw [text, text, indent, ← List.append_assoc, Text.spaces_append_spaces]
  rw [h, ofText_text]

end Line

end LineTemplate
