import LineTemplate.FileSystem.Build
import LineTemplate.Proofs.Numbering
import LineTemplate.Proofs.Shift

/-!
# Loading is writing inline

A line that loads assignments from a file stands for the lines of the file. The two are read in
different ways: a loaded line is searched for an assignment as a whole and is never classified,
a line of a template is classified by its body, and only the body is searched. For lines whose
bodies start with `#set` this comes to the same.

## The architecture

* **`Line.directive_of_keyword`** — the directive of a line whose body starts with `#set` is the
  assignment that loading would find on it, and the line is malformed where loading finds none.
* **`unnumbered_expandLine_eq_run`** — so lines of this kind, expanded in order, amount to what the
  line that loads them amounts to, the numbers of lines apart.
* **`expandLine_eq_error_of_run`**, **`run_eq_error_of_malformed`** — which line is reported: the
  line that loads, or the malformed line itself.
* **`load_eq_inline`** — the headline.
-/

namespace LineTemplate

/-! ## The two ways of reading -/

theorem Assignment.parse?_spaces_append (k : Nat) (text : Text) :
    Assignment.parse? (Text.spaces k ++ text) = Assignment.parse? text := by
  rw [Assignment.parse?, Assignment.parse?, Kind.expressions_spaces_append]

/-- Loading searches the whole line, which makes no difference to what is found. -/
theorem Assignment.parse?_body (text : Text) :
    Assignment.parse? (Line.ofText text).body = Assignment.parse? text := by
  have htext : Text.spaces (Line.ofText text).indentation ++ (Line.ofText text).body = text :=
    Line.text_ofText text
  rw [← Assignment.parse?_spaces_append (Line.ofText text).indentation, htext]

/-- **A line whose body starts with `#set`** holds the assignment that loading finds on it. -/
theorem Line.directive_of_keyword {text : Text}
    (h : Kind.assignment.keyword <+: (Line.ofText text).body) :
    (Line.ofText text).directive =
      match Assignment.parse? text with
      | none => .error .assignment
      | some a => .ok (.assignment a) := by
  have hkind : (Line.ofText text).kind? = some .assignment :=
    (Kind.classify_eq_some_iff (by decide)).2 h
  have hof : (Line.ofText text).directiveOf? .assignment =
      (Assignment.parse? text).map .assignment := by
    rw [Line.directiveOf?, Assignment.parse?_body]
  simp only [Line.directive, hkind, hof]
  cases Assignment.parse? text <;> rfl

namespace Frame

/-! ## The two results -/

section Lines

variable {frame : Frame} {lines : List Text}

/-- **Lines whose bodies start with `#set`** make the bindings that loading them makes. -/
theorem unnumbered_run_of_keyword
    (hset : ∀ line ∈ lines, Kind.assignment.keyword <+: (Line.ofText line).body) (n : Nat)
    (own : Bindings) :
    unnumbered (frame.run n own lines) =
      match lines.mapM Assignment.parse? with
      | none => .error (.malformed .assignment)
      | some as => .ok ⟨own.assignAll as, []⟩ := by
  induction lines generalizing n own with
  | nil => rfl
  | cons line rest ih =>
    have hd := Line.directive_of_keyword (hset line List.mem_cons_self)
    have hrest := ih fun other hmem => hset other (List.mem_cons_of_mem line hmem)
    rw [run, expandFrom_cons, List.mapM_cons]
    cases hparse : Assignment.parse? line with
    | none =>
      rw [hparse] at hd
      rw [Faulty.expandLine_eq (.malformed hd)]
      rfl
    | some a =>
      rw [hparse] at hd
      rw [Yields.expandLine_eq (.assignment hd), Expanded.inOrder_nil]
      refine (hrest (n + 1) (own.assign a)).trans ?_
      cases rest.mapM Assignment.parse? <;> rfl

theorem exists_run_eq_ok_of_assignments
    (h : ∀ line ∈ lines, ∃ a, (Line.ofText line).directive = .ok (.assignment a)) (n : Nat)
    (own : Bindings) : ∃ whole, frame.run n own lines = .ok whole := by
  induction lines generalizing n own with
  | nil => exact ⟨_, rfl⟩
  | cons line rest ih =>
    obtain ⟨a, hd⟩ := h line List.mem_cons_self
    obtain ⟨others, hothers⟩ :=
      ih (fun other hmem => h other (List.mem_cons_of_mem line hmem)) (n + 1) (own.assign a)
    exact ⟨_, expandFrom_cons_eq_ok_iff.2 ⟨_, others, .assignment hd, hothers, rfl⟩⟩

end Lines

section Load

variable {frame : Frame} {text file : Text} {lines : List Text}

/-- A line that loads a file and the lines of the file differ in the numbers of lines only. -/
theorem unnumbered_expandLine_eq_run (hd : (Line.ofText text).directive = .ok (.config file))
    (hread : frame.files.readLines (frame.base.join file) = .ok lines)
    (hset : ∀ line ∈ lines, Kind.assignment.keyword <+: (Line.ofText line).body) (m n : Nat)
    (own : Bindings) :
    unnumbered (frame.expandLine .full m own text) = unnumbered (frame.run n own lines) := by
  rw [unnumbered_run_of_keyword hset]
  cases hparse : lines.mapM Assignment.parse? with
  | none =>
    have hload : frame.load own file = .error (.malformed .assignment) :=
      load_eq_error_iff.2 (Or.inr ⟨lines, hread, hparse, rfl⟩)
    rw [Faulty.expandLine_eq (.load hd hload)]
    rfl
  | some as =>
    have hload : frame.load own file = .ok (own.assignAll as) :=
      load_eq_ok_iff.2 ⟨lines, as, hread, hparse, rfl⟩
    rw [Yields.expandLine_eq (.config hd hload)]
    rfl

/-- A fault of the file's lines is reported as one of the line that loads them. -/
theorem expandLine_eq_error_of_run (hd : (Line.ofText text).directive = .ok (.config file))
    (hread : frame.files.readLines (frame.base.join file) = .ok lines)
    (hset : ∀ line ∈ lines, Kind.assignment.keyword <+: (Line.ofText line).body) {m : Nat}
    {own : Bindings} {e : LineError} (h : frame.run m own lines = .error e) (n : Nat) :
    frame.expandLine .full n own text = .error ⟨n, e.fault⟩ := by
  have heq := unnumbered_expandLine_eq_run hd hread hset n m own
  rw [h] at heq
  rcases unnumbered_eq_iff.1 heq with ⟨first, -, hfirst⟩ | ⟨k, k', fault, hline, he⟩
  · cases hfirst
  · obtain rfl : e = ⟨k', fault⟩ := Except.error.inj he
    rcases expandLine_eq_error_iff.1 hline with ⟨hk, -⟩ | ⟨file', inner, hd', -, -⟩
    · obtain rfl : k = n := hk
      exact hline
    · rw [hd] at hd'
      cases hd'

end Load

/-! ## Which line is reported -/

theorem run_eq_error_of_malformed {frame : Frame} {n : Nat} {own : Bindings}
    {front before after : List Text} {bad : Text} {first : Expanded}
    (hfront : frame.run n own front = .ok first)
    (hbefore : ∀ line ∈ before, ∃ a, (Line.ofText line).directive = .ok (.assignment a))
    (hbad : (Line.ofText bad).directive = .error .assignment) :
    frame.run n own (front ++ (before ++ bad :: after)) =
      .error ⟨n + front.length + before.length, .malformed .assignment⟩ := by
  obtain ⟨loaded, hloaded⟩ :=
    exists_run_eq_ok_of_assignments hbefore (n + front.length) first.own
  have hboth : frame.run n own (front ++ before) =
      .ok ⟨loaded.own, first.output ++ loaded.output⟩ :=
    expandFrom_append_eq_ok_iff.2 ⟨first, loaded, hfront, hloaded, rfl⟩
  refine expandFrom_eq_error_iff.2 ⟨front ++ before, bad, after, _, by simp, hboth, ?_⟩
  rw [Faulty.expandLine_eq (.malformed hbad), List.length_append, Nat.add_assoc]

/-! ## The headline -/

/-- **Loading is writing inline.** Lines that load a file whose lines all start with `#set` behind
their indentation amount to the same as with the lines of the file in the place of the one that
loads it: the same output and bindings, or the same fault. A malformed line of the file is
reported at the line that loads it in the one case, and at its own place in the other. -/
theorem load_eq_inline {frame : Frame} {text file : Text} {lines : List Text}
    (hd : (Line.ofText text).directive = .ok (.config file))
    (hread : frame.files.readLines (frame.base.join file) = .ok lines)
    (hset : ∀ line ∈ lines, Kind.assignment.keyword <+: (Line.ofText line).body)
    (front back : List Text) :
    unnumbered (frame.expand (front ++ text :: back)) =
        unnumbered (frame.expand (front ++ (lines ++ back))) ∧
      ∀ n own, unnumbered (frame.run n own (front ++ text :: back)) =
          unnumbered (frame.run n own (front ++ (lines ++ back))) ∧
        ∀ first before bad after, frame.run n own front = .ok first →
          lines = before ++ bad :: after →
          (∀ line ∈ before, ∃ a, (Line.ofText line).directive = .ok (.assignment a)) →
          (Line.ofText bad).directive = .error .assignment →
            frame.run n own (front ++ text :: back) =
              .error ⟨n + front.length, .malformed .assignment⟩ ∧
            frame.run n own (front ++ (lines ++ back)) =
              .error ⟨n + front.length + before.length, .malformed .assignment⟩ := by
  have hrun : ∀ n own, unnumbered (frame.run n own (front ++ text :: back)) =
      unnumbered (frame.run n own (front ++ (lines ++ back))) := by
    intro n own
    simp only [run, expandFrom_append_eq_inOrder, expandFrom_cons]
    refine unnumbered_inOrder rfl fun own' => unnumbered_inOrder ?_ fun own'' => ?_
    · exact unnumbered_expandLine_eq_run hd hread hset _ _ own'
    · -- the lines behind move up or down by as many lines as the file has, less one
      exact frame.run_renumber _ _ own'' back
  refine ⟨?_, fun n own => ⟨hrun n own, ?_⟩⟩
  · rw [expand_eq_run, expand_eq_run]
    exact hrun 1 .empty
  · rintro first before bad after hfront rfl hbefore hbad
    have hinside : frame.run n first.own ([] ++ (before ++ bad :: after)) = _ :=
      run_eq_error_of_malformed rfl hbefore hbad
    have hline := expandLine_eq_error_of_run hd hread hset hinside (n + front.length)
    refine ⟨expandFrom_eq_error_iff.2 ⟨front, text, back, first, rfl, hfront, hline⟩, ?_⟩
    rw [List.append_assoc, List.cons_append]
    exact run_eq_error_of_malformed hfront hbefore hbad

/-- Two files of assignments, the second line of one of them malformed, and a file that refers to a
name. -/
def loadFrame : Frame where
  files := FileSystem.ofTexts [
    ("settings".toList, "#set(a=\"1\")\n  #set(a=\"2\")".toList),
    ("broken".toList, "#set(a=\"1\")\n#set(b)\n".toList),
    ("inner".toList, "#var(a)".toList)]
  base := ⟨['.']⟩
  inherited := .empty
  chain := []

theorem load_eq_inline_loadFrame :
    unnumbered (loadFrame.expand (["text".toList] ++ "#config(settings)".toList ::
        ["  #include(inner)".toList])) =
      unnumbered (loadFrame.expand (["text".toList] ++
        (["#set(a=\"1\")".toList, "  #set(a=\"2\")".toList] ++ ["  #include(inner)".toList]))) ∧
    loadFrame.run 1 .empty (["text".toList] ++ "#config(broken)".toList :: ["#var(a)".toList]) =
      .error ⟨2, .malformed .assignment⟩ ∧
    loadFrame.run 1 .empty (["text".toList] ++
        (["#set(a=\"1\")".toList, "#set(b)".toList] ++ ["#var(a)".toList])) =
      .error ⟨3, .malformed .assignment⟩ := by
  have hsettings : (Line.ofText "#config(settings)".toList).directive =
      .ok (.config "settings".toList) := by decide +kernel
  have hbroken : (Line.ofText "#config(broken)".toList).directive =
      .ok (.config "broken".toList) := by decide +kernel
  have hgood : (Line.ofText "#set(a=\"1\")".toList).directive =
      .ok (.assignment ⟨['a'], ['1']⟩) := by decide +kernel
  have hbad : (Line.ofText "#set(b)".toList).directive = .error .assignment := by decide +kernel
  refine ⟨(load_eq_inline hsettings (by decide +kernel) (by decide +kernel) _ _).1, ?_⟩
  refine ((load_eq_inline hbroken (by decide +kernel) (by decide +kernel) _ _).2 1 .empty).2
    ⟨.empty, ["text".toList]⟩ ["#set(a=\"1\")".toList] "#set(b)".toList [] rfl rfl ?_ hbad
  intro line hline
  rw [List.mem_singleton.1 hline]
  exact ⟨_, hgood⟩

end Frame

end LineTemplate
