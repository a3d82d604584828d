import LineTemplate.Proofs.BoundPairs
import Mathlib.Data.List.TakeWhile

/-!
# Values in quotation marks

Quotation marks do not keep a value together. The line `#set(k="v")` is parted at the last `=` in
front of its `)`, wherever the marks stand; so a value without `=` comes back as it was written,
and is put out by a reference to its key, while of any other one only the end is left, bound to a
key that takes up all the rest.

## The architecture

* **`unquote_append_mark`** — what is left of a text that has lost its first mark.
* **`Assignment.parse?_line_of_equals`** — how a line is read whose value holds an `=`.
* **`quoted_value_survives_iff`** — the headline.
* **`not_quoted_value_survives`** — a value that does not come back.
-/

namespace LineTemplate

/-! ## A value behind its last `=` -/

/-- Of a text with a mark behind it, unquoting drops the mark and the first character that is not
blank. -/
theorem Text.unquote_append_mark (text : Text) :
    Text.unquote (text ++ ['"']) = (Text.trimStart text).tail := by
  have hstart : Text.trimStart (text ++ ['"']) = Text.trimStart text ++ ['"'] := by
    rw [trimStart, List.dropWhile_append]
    split
    · next hblank =>
      rw [trimStart, List.isEmpty_iff.1 hblank]
      rfl
    · rfl
  have hend : Text.trimEnd (Text.trimStart text ++ ['"']) = Text.trimStart text ++ ['"'] := by
    rw [trimEnd, List.reverse_append, List.reverse_singleton, List.singleton_append,
      List.dropWhile_cons_of_neg (by decide), List.reverse_cons, List.reverse_reverse]
  rw [unquote, trim, hstart, hend]
  cases Text.trimStart text with
  | nil => rfl
  | cons c rest => rw [List.cons_append, List.tail_cons, List.tail_cons, List.dropLast_concat]

theorem Text.mem_dropWhile_of_mem {text : Text} {c : Char} (h : c ∈ text)
    (hblank : isBlank c = false) : c ∈ text.dropWhile isBlank := by
  rw [← List.takeWhile_append_dropWhile (p := isBlank) (l := text), List.mem_append] at h
  rcases h with hfront | hback
  · rw [List.mem_takeWhile_imp hfront] at hblank
    cases hblank
  · exact hback

/-- Trimming takes nothing but blanks away. -/
theorem Text.mem_trim_of_mem {text : Text} {c : Char} (h : c ∈ text)
    (hblank : isBlank c = false) : c ∈ trim text := by
  have hstart : c ∈ trimStart text := mem_dropWhile_of_mem h hblank
  exact List.mem_reverse.2 (mem_dropWhile_of_mem (List.mem_reverse.2 hstart) hblank)

namespace Assignment

variable {key value front back : Text}

/-- **The last `=` parts a line,** also one that stands between the marks. -/
theorem parse?_line_of_equals (hkey : ')' ∉ key) (hparen : ')' ∉ front ++ '=' :: back)
    (hback : '=' ∉ back) :
    parse? (line ⟨key, front ++ '=' :: back⟩) =
      some ⟨Text.trim (key ++ '=' :: '"' :: front), (Text.trimStart back).tail⟩ := by
  have hline : line ⟨key, front ++ '=' :: back⟩ =
      Kind.assignment.expression ((key ++ '=' :: '"' :: front) ++ '=' :: (back ++ ['"'])) := by
    rw [line_eq_expression]
    simp only [List.append_assoc, List.cons_append]
  have hinner : ')' ∉ (key ++ '=' :: '"' :: front) ++ '=' :: (back ++ ['"']) := by
    simp only [List.mem_append, List.mem_cons, not_or] at hparen
    simp [hkey, hparen]
  rw [hline, parse?_expression _ hinner (by simp [hback]), Text.unquote_append_mark]

end Assignment

/-! ## The headline -/

namespace Frame

/-- **A value in quotation marks comes back** if and only if it has no `=`. Then the line binds it
to its key, and a reference behind the line puts it out, whatever files there are and whatever was
bound before. Else the line binds what stands behind the last `=`, less a character, to a longer
key; and nothing is assigned to the key that was meant. -/
theorem quoted_value_survives_iff {key value : Text} (htrimmed : key.Trimmed) (hkey : ')' ∉ key)
    (hequals : '=' ∉ key) (hvalue : ')' ∉ value) :
    (Assignment.parse? (Assignment.line ⟨key, value⟩) = some ⟨key, value⟩ ↔ '=' ∉ value) ∧
    ('=' ∉ value → ∀ (frame : Frame) nested n own,
      frame.expandFrom nested n own
          [Assignment.line ⟨key, value⟩, Kind.reference.expression key] =
        .ok ⟨own.assign ⟨key, value⟩, [value]⟩) ∧
    ∀ front back, value = front ++ '=' :: back → '=' ∉ back →
      ∃ a, Assignment.parse? (Assignment.line ⟨key, value⟩) = some a ∧
        a.key = Text.trim (key ++ '=' :: '"' :: front) ∧
        a.value = (Text.trimStart back).tail ∧
        ∀ (frame : Frame) nested n own,
          frame.expandLine nested n own (Assignment.line ⟨key, value⟩) = .ok ⟨own.assign a, []⟩ ∧
            (own.assign a).find? key = own.find? key := by
  have hread : '=' ∉ value →
      Assignment.parse? (Assignment.line ⟨key, value⟩) = some ⟨key, value⟩ :=
    fun hfree => Assignment.parse?_line ⟨htrimmed, hkey, hvalue, hfree⟩
  refine ⟨⟨fun hparse => ?_, hread⟩, fun hfree frame nested n own => ?_, ?_⟩
  · exact (Assignment.assignable_of_parse? hparse).equals_not_mem_value
  · have hline : frame.expandFrom nested n own [Assignment.line ⟨key, value⟩] =
        .ok ⟨own.assign ⟨key, value⟩, []⟩ :=
      expandFrom_cons_eq_ok_iff.2
        ⟨_, _, .assignment (Assignment.directive_line_of_parse? (hread hfree)), rfl, rfl⟩
    have hlookup : (Scope.mk (own.assign ⟨key, value⟩) frame.inherited).lookup key =
        some value := by
      rw [Scope.lookup, Bindings.find?_assign, if_pos rfl, Option.some_or]
    exact expandFrom_append_expression_eq_ok hline hkey hlookup
  · rintro front back rfl hback
    have hparse := Assignment.parse?_line_of_equals hkey hvalue hback
    refine ⟨_, hparse, rfl, rfl, fun frame nested n own => ⟨?_, ?_⟩⟩
    · exact Yields.expandLine_eq (.assignment (Assignment.directive_line_of_parse? hparse))
    · have hlonger : key ≠ Text.trim (key ++ '=' :: '"' :: front) := by
        intro hsame
        refine hequals ?_
        rw [hsame]
        exact Text.mem_trim_of_mem (by simp) (by decide)
      rw [Bindings.find?_assign, if_neg hlonger]

theorem quoted_value_survives_iff_marks :
    (∀ (frame : Frame) nested n own,
      frame.expandFrom nested n own ["#set(k=\"\" #set( \")".toList, "#var(k)".toList] =
        .ok ⟨own.assign ⟨['k'], "\" #set( ".toList⟩, ["\" #set( ".toList]⟩) ∧
    ∃ a, Assignment.parse? "#set(k=\"x= yz\")".toList = some a ∧ a.key = "k=\"x".toList ∧
      a.value = ['z'] := by
  have hkey : Text.Trimmed ['k'] := Text.trimmed_trim ['k']
  constructor
  · have hmarks := @quoted_value_survives_iff ['k'] "\" #set( ".toList hkey (by decide) (by decide)
      (by decide)
    exact hmarks.2.1 (by decide)
  · have hparted := @quoted_value_survives_iff ['k'] "x= yz".toList hkey (by decide) (by decide)
      (by decide)
    obtain ⟨a, hparse, hlonger, hrest, -⟩ := hparted.2.2 ['x'] " yz".toList rfl (by decide)
    exact ⟨a, hparse, hlonger.trans (by decide), hrest.trans (by decide)⟩

/-- **Not every value comes back,** even if its key and its parentheses are in order. -/
theorem not_quoted_value_survives :
    ¬ ∀ key value : Text, key.Trimmed → ')' ∉ key → '=' ∉ key → ')' ∉ value →
      Assignment.parse? (Assignment.line ⟨key, value⟩) = some ⟨key, value⟩ := by
  intro hall
  have hkey : Text.Trimmed ['a'] := Text.trimmed_trim ['a']
  have hback := hall ['a'] "b=c".toList hkey (by decide) (by decide) (by decide)
  have hparted : Assignment.parse? (Assignment.line ⟨['a'], "b=c".toList⟩) =
      some ⟨"a=\"b".toList, []⟩ := by decide +kernel
  rw [hparted] at hback
  exact absurd hback (by decide)

end Frame

end LineTemplate
