import LineTemplate.FileSystem.Build
import LineTemplate.Proofs.Provenance

/-!
# Which bindings exist

A line assigns a value to a key by writing both between the parentheses of one expression. The first
`)` ends the expression, the last `=` in front of it parts the two, the key is trimmed, and the
value loses a character at each end. What can come out of this is what can be written in: a
trimmed key without `)`, and a value with neither `)` nor `=`. Nothing else is ever bound.

## The architecture

* **`Assignment.Assignable`** — what a line can assign, and `assignable_of_parse?`, that it assigns
  nothing else.
* **`Assignment.line`** — the line that assigns a value to a key, with the value in quotation marks;
  `directive_line` reads it back.
* **`supplies_assignable`** — so assignable pairs are all that any lines of any files supply.
* **`bindings_assignable`** — the headline.
-/

namespace LineTemplate

open Relation (ReflTransGen)

namespace Assignment

/-- **An assignable pair:** the key is trimmed and free of `)`, the value free of `)` and of `=`. -/
structure Assignable (a : Assignment) : Prop where
  trimmed_key : a.key.Trimmed
  not_mem_key : ')' ∉ a.key
  not_mem_value : ')' ∉ a.value
  equals_not_mem_value : '=' ∉ a.value

/-- **The line that makes an assignment,** with the value in quotation marks. -/
def line (a : Assignment) : Text :=
  "#set(".toList ++ (a.key ++ ("=\"".toList ++ (a.value ++ "\")".toList)))

/-! ## What can be read off a line -/

theorem assignable_of_parse? {text : Text} {a : Assignment} (h : parse? text = some a) :
    a.Assignable := by
  obtain ⟨key, value, hinner, hvalue, -, rfl⟩ := exists_expression_of_parse? h
  rw [List.mem_append, List.mem_cons, not_or, not_or] at hinner
  obtain ⟨hkey, -, hparen⟩ := hinner
  exact {
    trimmed_key := Text.trimmed_trim key
    not_mem_key := fun hmem => hkey (Text.trim_subset key hmem)
    not_mem_value := fun hmem => hparen (Text.unquote_subset value hmem)
    equals_not_mem_value := fun hmem => hvalue (Text.unquote_subset value hmem) }

/-! ## What can be written on a line -/

theorem line_eq_expression (a : Assignment) :
    a.line = Kind.assignment.expression (a.key ++ '=' :: '"' :: (a.value ++ ['"'])) := by
  calc a.line
      = Kind.assignment.opening ++ (a.key ++ '=' :: '"' :: (a.value ++ ['"', ')'])) := rfl
    _ = Kind.assignment.expression (a.key ++ '=' :: '"' :: (a.value ++ ['"'])) := by
      simp only [Kind.expression, List.append_assoc, List.cons_append, List.nil_append]

/-- **An assignable pair is read back** from its line. -/
theorem parse?_line {a : Assignment} (h : a.Assignable) : parse? a.line = some a := by
  have hinner : ')' ∉ a.key ++ '=' :: '"' :: (a.value ++ ['"']) := by
    simp [h.not_mem_key, h.not_mem_value]
  have hvalue : '=' ∉ '"' :: (a.value ++ ['"']) := by
    simp [h.equals_not_mem_value]
  rw [line_eq_expression, parse?_expression a.key hinner hvalue, Text.trim_eq_self h.trimmed_key,
    Text.unquote_quoted]

/-- What is read off such a line is what the line assigns. -/
theorem directive_line_of_parse? {a b : Assignment} (h : parse? a.line = some b) :
    (Line.ofText a.line).directive = .ok (.assignment b) := by
  have hkeyword : Kind.assignment.keyword <+: (Line.ofText a.line).body :=
    ⟨'(' :: (a.key ++ ("=\"".toList ++ (a.value ++ "\")".toList))), rfl⟩
  rw [Line.directive_of_keyword hkeyword, h]

theorem directive_line {a : Assignment} (h : a.Assignable) :
    (Line.ofText a.line).directive = .ok (.assignment a) :=
  directive_line_of_parse? (parse?_line h)

end Assignment

/-! ## What is bound in a run -/

/-- All lines of all files assign assignable pairs. -/
theorem supplies_assignable (files : FileSystem) (base : Path) :
    Supplies files base (fun _ => True) Assignment.Assignable where
  opened _ _ _ _ _ _ _ _ := trivial
  assigned lines _ a ha := by
    obtain ⟨line, hparse, -⟩ := exists_parse?_of_mem_assignments ha
    exact Assignment.assignable_of_parse? hparse

namespace Activation

theorem Root.supplied {files : FileSystem} {base : Path} {root : Activation}
    (h : Root files base .empty root) :
    Supplied files base (fun _ => True) Assignment.Assignable root := by
  cases h with
  | lines lines => exact ⟨rfl, rfl, trivial, Bindings.all_empty _⟩
  | file hread => exact ⟨rfl, rfl, trivial, Bindings.all_empty _⟩

/-- **Exactly the assignable pairs are bound.** In a run that starts with no inherited bindings, all
bindings that there are at any point of any activation, its own ones and those that it has
inherited, are of an assignable value to an assignable key. And for each such pair there is a line
that assigns it, wherever it stands, and binds nothing else. -/
theorem bindings_assignable :
    (∀ files base root a own, Root files base .empty root → ReflTransGen Calls root a →
      a.Binds own → ∀ name value,
        own.find? name = some value ∨ a.frame.inherited.find? name = some value →
          (Assignment.mk name value).Assignable) ∧
    ∀ a : Assignment, a.Assignable →
      (∀ (frame : Frame) nested n own,
        frame.expandLine nested n own a.line = .ok ⟨own.assign a, []⟩) ∧
      (∀ frame : Frame, frame.expand [a.line] = .ok ⟨Bindings.empty.assign a, []⟩) ∧
      ∀ name value, (Bindings.empty.assign a).find? name = some value ↔
        name = a.key ∧ value = a.value := by
  refine ⟨?_, fun a ha => ?_⟩
  · intro files base root a own hroot hreach hbinds name value hfind
    have hsupplied := hroot.supplied.reaches (supplies_assignable files base) hreach
    rcases hfind with hown | hinherited
    · exact hsupplied.all_of_binds (supplies_assignable files base) hbinds name value hown
    · exact hsupplied.all_inherited name value hinherited
  · have hline : ∀ (frame : Frame) nested n own,
        frame.expandLine nested n own a.line = .ok ⟨own.assign a, []⟩ :=
      fun frame nested n own => Frame.Yields.expandLine_eq (.assignment (a.directive_line ha))
    refine ⟨hline, fun frame => ?_, fun name value => ?_⟩
    · rw [Frame.expand_eq_run, Frame.run, Frame.expandFrom_cons, hline, Expanded.inOrder_nil]
      rfl
    · rw [Bindings.find?_assign, Bindings.find?_empty]
      by_cases hname : name = a.key
      · simp [hname, eq_comm]
      · simp [hname]

/-- A file of assignments, with blanks around a key and a value in other marks, and a file to
include. -/
def boundFiles : FileSystem :=
  FileSystem.ofTexts [
    ("settings".toList, "#set( a =\"1\" )\n  #set(b=x2y)".toList),
    ("inner".toList, "#set(c=\"3\")\n#var(a)".toList)]

def boundRoot : Activation :=
  ofLines boundFiles ⟨['.']⟩ .empty ["#config(settings)".toList, "#include(inner)".toList]

theorem bindings_assignable_boundFiles :
    (∃ a own, Root boundFiles ⟨['.']⟩ .empty boundRoot ∧ ReflTransGen Calls boundRoot a ∧
      a.Binds own ∧
      own.find? ['c'] = some ['3'] ∧ (Assignment.mk ['c'] ['3']).Assignable ∧
      a.frame.inherited.find? ['a'] = some ['1'] ∧ (Assignment.mk ['a'] ['1']).Assignable) ∧
    ((Assignment.mk "#set(x=y".toList []).Assignable ∧
      boundRoot.frame.expand ["#set(#set(x=y=\"\")".toList] =
        .ok ⟨Bindings.empty.assign ⟨"#set(x=y".toList, []⟩, []⟩) ∧
    (Assignment.mk [] []).Assignable ∧
      boundRoot.frame.expand ["#set(=\"\")".toList] =
        .ok ⟨Bindings.empty.assign ⟨[], []⟩, []⟩ := by
  have hroot : Root boundFiles ⟨['.']⟩ .empty boundRoot := .lines _
  obtain ⟨hbound, hline⟩ := bindings_assignable
  refine ⟨?_, ?_, ?_⟩
  · -- the included file is reached behind the line that loads the other one
    obtain ⟨first, hfront, -⟩ : ∃ first,
        boundRoot.frame.run 1 .empty ["#config(settings)".toList] = .ok first ∧
          first.output = [] := Expanded.map_output_eq_ok_iff.1 (by decide +kernel)
    have hcall : boundRoot.Calls
        ⟨boundRoot.frame.child first.own (Path.join ⟨['.']⟩ "inner".toList),
          ["#set(c=\"3\")".toList, "#var(a)".toList]⟩ := by
      refine @Calls.inclusion _ ["#config(settings)".toList] [] _ _ _ first hfront ?_ ⟨?_, ?_⟩
      all_goals decide +kernel
    have hbinds : Binds ⟨boundRoot.frame.child first.own (Path.join ⟨['.']⟩ "inner".toList),
        ["#set(c=\"3\")".toList, "#var(a)".toList]⟩ (Bindings.empty.assign ⟨['c'], ['3']⟩) :=
      @Binds.between _ ["#set(c=\"3\")".toList] ["#var(a)".toList]
        ⟨Bindings.empty.assign ⟨['c'], ['3']⟩, []⟩ rfl rfl
    have hinherited : first.own.find? ['a'] = some ['1'] := by
      rw [Frame.own_eq_of_expandFrom hfront]
      decide +kernel
    have hall := hbound _ _ _ _ _ hroot (.single hcall) hbinds
    exact ⟨_, _, hroot, .single hcall, hbinds, rfl, hall _ _ (Or.inl rfl), hinherited,
      hall _ _ (Or.inr hinherited)⟩
  · have hpair : (Assignment.mk "#set(x=y".toList []).Assignable :=
      @Assignment.assignable_of_parse? "#set(#set(x=y=\"\")".toList _ (by decide +kernel)
    exact ⟨hpair, (hline _ hpair).2.1 boundRoot.frame⟩
  · have hpair : (Assignment.mk [] []).Assignable :=
      @Assignment.assignable_of_parse? "#set(=\"\")".toList _ (by decide +kernel)
    exact ⟨hpair, (hline _ hpair).2.1 boundRoot.frame⟩

end Activation

end LineTemplate
