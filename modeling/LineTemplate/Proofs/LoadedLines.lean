import LineTemplate.Proofs.FirstFault
import LineTemplate.Proofs.Loading
import LineTemplate.Proofs.Matches

/-!
# Which files can be loaded

A file of assignments is loaded if a search finds one match on each of its lines, wherever on the
line that is. A line of a template is an assignment only if `#set` starts its body. So a file can be
loaded with lines that are no assignments in a template: text in front of the expression, which in a
template makes the line a text, goes unseen.

## The architecture

* **`Assignment.exists_parse?_iff`** — an assignment is read off a line with one match.
* **`Line.directive_eq_assignment_iff`** — what is read off a line is the directive of the line if
  and only if the keyword starts its body; `map_directive_eq_iff` says so of all lines of a file.
* **`loads_or_fails`** — a file is loaded, or the line that loads it is malformed.
* **`loads_only_assignments_iff`** — the headline.
* **`not_loads_only_assignments`** — a text that is loaded as an assignment.
-/

namespace LineTemplate

/-- An assignment is read off a text if and only if the text has one match. -/
theorem Assignment.exists_parse?_iff {text : Text} :
    (∃ a, parse? text = some a) ↔ ∃ m, Kind.assignment.Matches text 0 [m] := by
  constructor
  · rintro ⟨a, ha⟩
    by_cases hmatch : ∃ m, Kind.assignment.Matches text 0 [m]
    · exact hmatch
    · rw [parse?_of_no_match (not_exists.1 hmatch)] at ha
      cases ha
  · rintro ⟨m, hm⟩
    obtain ⟨a, ha, -⟩ := exists_parse?_of_match hm
    exact ⟨a, ha⟩

/-- **A line is an assignment** if and only if loading finds this on it and the keyword starts the
body of the line. -/
theorem Line.directive_eq_assignment_iff {text : Text} {a : Assignment} :
    (Line.ofText text).directive = .ok (.assignment a) ↔
      Assignment.parse? text = some a ∧
        Kind.assignment.keyword <+: (Line.ofText text).body := by
  constructor
  · intro hd
    have hkeyword : Kind.assignment.keyword <+: (Line.ofText text).body :=
      (Kind.classify_eq_some_iff (by decide)).1 (kind?_of_directive hd).symm
    refine ⟨?_, hkeyword⟩
    rw [directive_of_keyword hkeyword] at hd
    split at hd
    · cases hd
    · next hparse =>
      cases hd
      exact hparse
  · rintro ⟨hparse, hkeyword⟩
    rw [directive_of_keyword hkeyword, hparse]

namespace Frame

variable {frame : Frame} {nested : Nested} {n : Nat} {own : Bindings} {text file : Text}
  {lines : List Text}

/-- **A file is loaded,** if each of its lines has one match, and all that these lines hold is
bound; or else the line that loads it is reported as a malformed assignment. -/
theorem loads_or_fails (hd : (Line.ofText text).directive = .ok (.config file))
    (hread : frame.files.readLines (frame.base.join file) = .ok lines) :
    ((∀ line ∈ lines, ∃ m, Kind.assignment.Matches line 0 [m]) ∧
      ∃ as, lines.map Assignment.parse? = as.map some ∧
        frame.expandLine nested n own text = .ok ⟨own.assignAll as, []⟩) ∨
    ((∃ line ∈ lines, ∀ m, ¬ Kind.assignment.Matches line 0 [m]) ∧
      frame.expandLine nested n own text = .error ⟨n, .malformed .assignment⟩) := by
  cases hparse : lines.mapM Assignment.parse? with
  | some as =>
    refine Or.inl ⟨fun line hmem => ?_, as, map_eq_of_mapM_eq_some hparse, ?_⟩
    · have hfound : Assignment.parse? line ∈ as.map some := by
        rw [← map_eq_of_mapM_eq_some hparse]
        exact List.mem_map_of_mem hmem
      obtain ⟨a, -, ha⟩ := List.mem_map.1 hfound
      exact Assignment.exists_parse?_iff.1 ⟨a, ha.symm⟩
    · have hload : frame.load own file = .ok (own.assignAll as) :=
        load_eq_ok_iff.2 ⟨lines, as, hread, hparse, rfl⟩
      exact Yields.expandLine_eq (.config hd hload)
  | none =>
    obtain ⟨bad, hmem, hbad⟩ := exists_eq_none_of_mapM_eq_none hparse
    refine Or.inr ⟨⟨bad, hmem, fun m hm => ?_⟩, ?_⟩
    · obtain ⟨a, ha⟩ := Assignment.exists_parse?_iff.2 ⟨m, hm⟩
      rw [hbad] at ha
      cases ha
    · have hload : frame.load own file = .error (.malformed .assignment) :=
        load_eq_error_iff.2 (Or.inr ⟨lines, hread, hparse, rfl⟩)
      exact Faulty.expandLine_eq (.load hd hload)

/-- The lines of a file that is loaded are all assignments if the keyword starts them all. -/
theorem map_directive_eq_iff {as : List Assignment}
    (h : lines.map Assignment.parse? = as.map some) :
    (lines.map fun line => (Line.ofText line).directive) = as.map (fun a => .ok (.assignment a)) ↔
      ∀ line ∈ lines, Kind.assignment.keyword <+: (Line.ofText line).body := by
  induction lines generalizing as with
  | nil =>
    cases as with
    | nil => simp
    | cons a as => cases h
  | cons line rest ih =>
    cases as with
    | nil => cases h
    | cons a as =>
      rw [List.map_cons, List.map_cons, List.cons.injEq] at h
      rw [List.map_cons, List.map_cons, List.cons.injEq, List.forall_mem_cons,
        Line.directive_eq_assignment_iff, and_iff_right h.1, ih h.2]

/-! ## The headline -/

/-- **What can be loaded.** A file is loaded if there is one match on each of its lines, and what
the matches hold is bound. These are the lines' own directives if and only if `#set` starts the body
of each line. With a line that has no match, or several ones, the line that loads the file is
reported as a malformed assignment. So, if no line has its only match further to the right, a file
is refused exactly if it has a line that is no assignment. -/
theorem loads_only_assignments_iff (hd : (Line.ofText text).directive = .ok (.config file))
    (hread : frame.files.readLines (frame.base.join file) = .ok lines) :
    (((∀ line ∈ lines, ∃ m, Kind.assignment.Matches line 0 [m]) ∧
        ∃ as, lines.map Assignment.parse? = as.map some ∧
          frame.expandLine nested n own text = .ok ⟨own.assignAll as, []⟩ ∧
          ((lines.map fun line => (Line.ofText line).directive) =
              as.map (fun a => .ok (.assignment a)) ↔
            ∀ line ∈ lines, Kind.assignment.keyword <+: (Line.ofText line).body)) ∨
      ((∃ line ∈ lines, ∀ m, ¬ Kind.assignment.Matches line 0 [m]) ∧
        frame.expandLine nested n own text = .error ⟨n, .malformed .assignment⟩)) ∧
    ((∀ line ∈ lines, (∃ m, Kind.assignment.Matches line 0 [m]) →
        Kind.assignment.keyword <+: (Line.ofText line).body) →
      (frame.expandLine nested n own text = .error ⟨n, .malformed .assignment⟩ ↔
        ∃ line ∈ lines, ∀ a, (Line.ofText line).directive ≠ .ok (.assignment a))) := by
  rcases @loads_or_fails frame nested n own text file lines hd hread with
    ⟨hmatch, as, hparse, hline⟩ | ⟨⟨bad, hmem, hbad⟩, hline⟩
  · have hmap := map_directive_eq_iff hparse
    refine ⟨Or.inl ⟨hmatch, as, hparse, hline, hmap⟩, fun hstart => ⟨fun herror => ?_, ?_⟩⟩
    · rw [hline] at herror
      cases herror
    · rintro ⟨line, hmem, hother⟩
      -- the line has a match, so it starts with it and is an assignment
      obtain ⟨a, ha⟩ := Assignment.exists_parse?_iff.2 (hmatch line hmem)
      have hkeyword := hstart line hmem (hmatch line hmem)
      exact absurd (Line.directive_eq_assignment_iff.2 ⟨ha, hkeyword⟩) (hother a)
  · refine ⟨Or.inr ⟨⟨bad, hmem, hbad⟩, hline⟩, fun _ => ⟨fun _ => ⟨bad, hmem, ?_⟩, fun _ => hline⟩⟩
    intro a hassignment
    obtain ⟨hparse, -⟩ := Line.directive_eq_assignment_iff.1 hassignment
    obtain ⟨m, hm⟩ := Assignment.exists_parse?_iff.1 ⟨a, hparse⟩
    exact hbad m hm

/-- Files to load: one with a text in front of an assignment, and one with a line that holds
nothing to assign. -/
def loadedFrame : Frame where
  files := FileSystem.ofTexts [
    ("settings".toList, "  #set(a=\"1\")\n#set(b=\"2\")".toList),
    ("notes".toList, "note: #set(a=\"1\")\n#set(b=\"2\")".toList),
    ("broken".toList, "#set(a=\"1\")\nkey=value".toList)]
  base := ⟨['.']⟩
  inherited := .empty
  chain := []

theorem loads_only_assignments_iff_loadedFrame :
    -- all lines are assignments
    (∀ nested n own, ∃ as,
      (["  #set(a=\"1\")".toList, "#set(b=\"2\")".toList].map fun line =>
        (Line.ofText line).directive) = as.map (fun a => .ok (.assignment a)) ∧
      loadedFrame.expandLine nested n own "#config(settings)".toList =
        .ok ⟨own.assignAll as, []⟩) ∧
    -- one line is a text, and is loaded all the same
    (∀ nested n own, ∃ as,
      (["note: #set(a=\"1\")".toList, "#set(b=\"2\")".toList].map fun line =>
        (Line.ofText line).directive) ≠ as.map (fun a => .ok (.assignment a)) ∧
      loadedFrame.expandLine nested n own "  #config(notes)".toList =
        .ok ⟨own.assignAll as, []⟩) ∧
    -- one line has no match
    ∀ nested n own, loadedFrame.expandLine nested n own "#config(broken)".toList =
      .error ⟨n, .malformed .assignment⟩ := by
  have hfirst : Kind.assignment.Matches "  #set(a=\"1\")".toList 0 [⟨2, 12⟩] := by decide +kernel
  have hbehind : Kind.assignment.Matches "note: #set(a=\"1\")".toList 0 [⟨6, 16⟩] := by
    decide +kernel
  have hplain : Kind.assignment.Matches "#set(b=\"2\")".toList 0 [⟨0, 10⟩] := by decide +kernel
  have hnone : Kind.assignment.Matches "key=value".toList 0 [] := by decide +kernel
  refine ⟨fun nested n own => ?_, fun nested n own => ?_, fun nested n own => ?_⟩
  · obtain ⟨⟨-, as, -, hline, hmap⟩ | ⟨⟨bad, hmem, hbad⟩, -⟩, -⟩ :=
      @loads_only_assignments_iff loadedFrame nested n own "#config(settings)".toList
        "settings".toList ["  #set(a=\"1\")".toList, "#set(b=\"2\")".toList]
        (by decide +kernel) (by decide +kernel)
    · exact ⟨as, hmap.2 (by decide +kernel), hline⟩
    · rcases List.mem_pair.1 hmem with rfl | rfl
      · exact absurd hfirst (hbad _)
      · exact absurd hplain (hbad _)
  · obtain ⟨⟨-, as, -, hline, hmap⟩ | ⟨⟨bad, hmem, hbad⟩, -⟩, -⟩ :=
      @loads_only_assignments_iff loadedFrame nested n own "  #config(notes)".toList
        "notes".toList ["note: #set(a=\"1\")".toList, "#set(b=\"2\")".toList]
        (by decide +kernel) (by decide +kernel)
    · exact ⟨as, fun hall => absurd (hmap.1 hall) (by decide +kernel), hline⟩
    · rcases List.mem_pair.1 hmem with rfl | rfl
      · exact absurd hbehind (hbad _)
      · exact absurd hplain (hbad _)
  · obtain ⟨⟨hmatch, -⟩ | ⟨-, hline⟩, -⟩ :=
      @loads_only_assignments_iff loadedFrame nested n own "#config(broken)".toList
        "broken".toList ["#set(a=\"1\")".toList, "key=value".toList]
        (by decide +kernel) (by decide +kernel)
    · obtain ⟨m, hm⟩ := hmatch "key=value".toList (by decide)
      cases hnone.unique hm
    · exact hline

/-- **A text is loaded** if an assignment stands on it. -/
theorem not_loads_only_assignments :
    ¬ ∀ (frame : Frame) (nested : Nested) (n : Nat) (own : Bindings) (text file : Text)
      (lines : List Text) (first : Expanded),
      (Line.ofText text).directive = .ok (.config file) →
        frame.files.readLines (frame.base.join file) = .ok lines →
        frame.expandLine nested n own text = .ok first →
          ∀ line ∈ lines, (Line.ofText line).kind? = some .assignment := by
  intro hall
  have hd : (Line.ofText "#config(notes)".toList).directive = .ok (.config "notes".toList) := by
    decide +kernel
  have hread : loadedFrame.files.readLines (loadedFrame.base.join "notes".toList) =
      .ok ["note: #set(a=\"1\")".toList, "#set(b=\"2\")".toList] := by decide +kernel
  have hload : loadedFrame.load .empty "notes".toList =
      .ok (Bindings.empty.assignAll [⟨['a'], ['1']⟩, ⟨['b'], ['2']⟩]) :=
    load_eq_ok_iff.2 ⟨_, _, hread, by decide +kernel, rfl⟩
  have hyields : loadedFrame.Yields .full 1 .empty "#config(notes)".toList _ := .config hd hload
  have hkind := hall _ _ _ _ _ _ _ _ hd hread hyields.expandLine_eq _ List.mem_cons_self
  exact absurd hkind (by decide +kernel)

end Frame

end LineTemplate
