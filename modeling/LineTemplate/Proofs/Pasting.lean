import LineTemplate.Proofs.LastAssignment
import LineTemplate.Proofs.Numbering
import LineTemplate.Proofs.Shift

/-!
# Including is pasting

A file of text and references binds nothing and includes nothing. Where it is included by lines that
have inherited nothing, its lines could stand in the place of the inclusion, moved to the right: the
file has no bindings of its own and inherits those that the lines have made, and the lines
themselves see these and no others.

## The architecture

* **`Line.IsPlain`** — a line of text or of references, with its three cases
  (`IsPlain.directive_cases`).
* **`refer_child`**, **`expandLine_child`**, **`run_child`** — plain lines see the same bindings in
  the included file, where all are inherited, and in the including lines, where all are their own.
* **`unnumbered_expandLine_eq_run_map`** — so an inclusion amounts to what the lines of the file
  amount to, moved to the right, the numbers of lines apart.
* **`include_eq_paste`** — the headline.
-/

namespace LineTemplate

/-- **A plain line** holds text or is of the kind of references, well-formed or not. -/
def Line.IsPlain (line : Line) : Prop := line.kind? = none ∨ line.kind? = some .reference

instance (line : Line) : Decidable line.IsPlain :=
  inferInstanceAs (Decidable (line.kind? = none ∨ line.kind? = some .reference))

/-- A plain line is put out as it is, or with its references written, or it is malformed. -/
theorem Line.IsPlain.directive_cases {line : Line} (h : line.IsPlain) :
    line.directive = .ok .text ∨ (∃ names, line.directive = .ok (.references names)) ∨
      line.directive = .error .reference := by
  cases hd : line.directive with
  | error kind =>
    have hkind := Line.kind?_of_malformed hd
    rcases h with h | h
    · rw [h] at hkind
      cases hkind
    · rw [h] at hkind
      cases hkind
      exact Or.inr (Or.inr rfl)
  | ok directive =>
    have hkind : directive.kind? = none ∨ directive.kind? = some .reference := by
      rw [Line.kind?_of_directive hd]
      exact h
    cases directive with
    | text => exact Or.inl rfl
    | references names => exact Or.inr (Or.inl ⟨names, rfl⟩)
    | assignment | config | inclusion => simp [Directive.kind?] at hkind

/-- The same lines put out, with other bindings. -/
def Expanded.withOwn (own : Bindings) (whole : Expanded) : Expanded := { whole with own := own }

namespace Frame

section Plain

variable {frame : Frame} (hinherited : frame.inherited = .empty)

/-! ## Plain lines in the file and in its place -/

include hinherited in
theorem refer_child (own : Bindings) (path : Path) (names : List Text) (text : Text) :
    (frame.child own path).refer .empty names text = frame.refer own names text := by
  have hvalues : (Scope.mk .empty own).values names =
      (Scope.mk own frame.inherited).values names := by
    refine Scope.values_eq_of_lookup fun name _ => ?_
    rw [Scope.lookup, Scope.lookup, hinherited]
    exact (Option.or_none).symm
  unfold refer
  rw [← hvalues]
  rfl

include hinherited in
theorem expandLine_child {text : Text} (h : (Line.ofText text).IsPlain) (n : Nat) (own : Bindings)
    (path : Path) :
    (frame.child own path).expandLine .full n .empty text =
      (frame.expandLine .full n own text).map (Expanded.withOwn .empty) := by
  rcases h.directive_cases with hd | ⟨names, hd⟩ | hd
  · simp only [expandLine, hd]
    rfl
  · simp only [expandLine, hd, refer_child hinherited]
    cases frame.refer own names text <;> rfl
  · simp only [expandLine, hd]
    rfl

theorem own_eq_of_isPlain {nested : Nested} {n : Nat} {own : Bindings} {text : Text}
    {first : Expanded} (hplain : (Line.ofText text).IsPlain)
    (h : frame.expandLine nested n own text = .ok first) : first.own = own := by
  apply own_eq_of_kind? h
  all_goals rcases hplain with hkind | hkind <;> rw [hkind] <;> decide

theorem run_own_eq_of_isPlain {n : Nat} {own : Bindings} {lines : List Text} {whole : Expanded}
    (hplain : ∀ line ∈ lines, (Line.ofText line).IsPlain)
    (h : frame.run n own lines = .ok whole) : whole.own = own := by
  induction lines generalizing n whole with
  | nil =>
    cases h
    rfl
  | cons line rest ih =>
    obtain ⟨first, others, hfirst, hothers, rfl⟩ := expandFrom_cons_eq_ok_iff.1 h
    rw [own_eq_of_isPlain (hplain line List.mem_cons_self) hfirst.expandLine_eq] at hothers
    have hrest : others.own = own :=
      ih (fun other hmem => hplain other (List.mem_cons_of_mem line hmem)) hothers
    exact hrest

include hinherited in
/-- **Plain lines in an included file** amount to what they amount to in the including lines, but
for the bindings. -/
theorem run_child {lines : List Text} (hplain : ∀ line ∈ lines, (Line.ofText line).IsPlain)
    (n : Nat) (own : Bindings) (path : Path) :
    (frame.child own path).run n .empty lines =
      (frame.run n own lines).map (Expanded.withOwn .empty) := by
  induction lines generalizing n with
  | nil => rfl
  | cons line rest ih =>
    have hline := hplain line List.mem_cons_self
    have hrest := ih (fun other hmem => hplain other (List.mem_cons_of_mem line hmem)) (n + 1)
    simp only [run] at hrest
    simp only [run, expandFrom_cons, expandLine_child hinherited hline]
    cases hfirst : frame.expandLine .full n own line with
    | error e => rfl
    | ok first =>
      obtain rfl : first.own = own := own_eq_of_isPlain hline hfirst
      -- the rest starts from the bindings that the line has left as they were
      simp only [Except.map, Expanded.inOrder, Expanded.withOwn, hrest]
      cases frame.expandFrom .full (n + 1) first.own rest <;> rfl

/-! ## The inclusion and the lines in its place -/

include hinherited in
/-- **An inclusion of plain lines** amounts to what the lines amount to, moved to the right. -/
theorem unnumbered_expandLine_eq_run_map {text file : Text} {lines : List Text}
    (hd : (Line.ofText text).directive = .ok (.inclusion file))
    (hopens : frame.Opens (frame.base.join file) lines)
    (hplain : ∀ line ∈ lines, (Line.ofText line).IsPlain) (m n : Nat) (own : Bindings) :
    unnumbered (frame.expandLine .full m own text) =
      unnumbered (frame.run n own
        (lines.map (Text.spaces (Line.ofText text).indentation ++ ·))) := by
  have hinner : (frame.child own (frame.base.join file)).expand lines =
      (frame.run 1 own lines).map (Expanded.withOwn .empty) := by
    rw [expand_eq_run, run_child hinherited hplain]
  have hmoved : frame.run n own (lines.map (Text.spaces (Line.ofText text).indentation ++ ·)) =
      (frame.run n own lines).map (Expanded.indent (Line.ofText text).indentation) :=
    frame.expandFrom_map_spaces_append .full n own _ lines
  rw [hmoved]
  -- the file counts its lines from one, the lines in its place are counted from `n`
  rcases unnumbered_eq_iff.1 (frame.run_renumber 1 n own lines) with
    ⟨whole, hfile, hplace⟩ | ⟨k, k', fault, hfile, hplace⟩
  · rw [hfile] at hinner
    have hnested : Nested.full (frame.child own (frame.base.join file)) m (frame.base.join file)
        lines = .ok whole.output := Nested.full_eq_ok_iff.2 ⟨_, hinner, rfl⟩
    rw [Yields.expandLine_eq (.inclusion hd hopens hnested), hplace,
      ← run_own_eq_of_isPlain hplain hplace]
    rfl
  · rw [hfile] at hinner
    have hnested : Nested.full (frame.child own (frame.base.join file)) m (frame.base.join file)
        lines = .error ⟨k, fault⟩ := Nested.full_eq_error_iff.2 hinner
    rw [expandLine_eq_of_nested_eq_error hd hopens hnested, hplace]
    rfl

end Plain

/-! ## The headline -/

/-- **Including is pasting.** Lines that have inherited nothing and include a file of plain lines
amount to the same as with the lines of the file, moved to the right by the indentation of the
inclusion, in its place: the same output and bindings, or the same fault. -/
theorem include_eq_paste {frame : Frame} {text file : Text} {lines : List Text}
    (hinherited : frame.inherited = .empty)
    (hd : (Line.ofText text).directive = .ok (.inclusion file))
    (hopens : frame.Opens (frame.base.join file) lines)
    (hplain : ∀ line ∈ lines, (Line.ofText line).IsPlain) (front back : List Text) :
    unnumbered (frame.expand (front ++ text :: back)) =
        unnumbered (frame.expand (front ++
          (lines.map (Text.spaces (Line.ofText text).indentation ++ ·) ++ back))) ∧
      ∀ n own, unnumbered (frame.run n own (front ++ text :: back)) =
        unnumbered (frame.run n own (front ++
          (lines.map (Text.spaces (Line.ofText text).indentation ++ ·) ++ back))) := by
  have hrun := unnumbered_run_replace
    (unnumbered_expandLine_eq_run_map hinherited hd hopens hplain)
  refine ⟨?_, fun n own => hrun n own front back⟩
  rw [expand_eq_run, expand_eq_run]
  exact hrun 1 .empty front back

/-- A file of plain lines, one of them without a value for its second name. -/
def pasteFrame : Frame where
  files := FileSystem.ofTexts [("inner".toList, "a #var(x)\n\n  #var(y)".toList)]
  base := ⟨['.']⟩
  inherited := .empty
  chain := []

theorem include_eq_paste_pasteFrame :
    pasteFrame.Opens (pasteFrame.base.join "inner".toList)
        ["a #var(x)".toList, [], "  #var(y)".toList] ∧
    (∀ front, unnumbered (pasteFrame.expand (front ++ " #include(inner)".toList ::
        ["#set(x=\"2\")".toList])) =
      unnumbered (pasteFrame.expand (front ++
        ([" a #var(x)".toList, " ".toList, "   #var(y)".toList] ++ ["#set(x=\"2\")".toList])))) ∧
    expandLines pasteFrame.files ⟨['.']⟩ .empty ["#set(x=\"1\")".toList, "#set(y=\"3\")".toList,
        " #include(inner)".toList, "#set(x=\"2\")".toList] =
      .ok [" a 1".toList, " ".toList, "   3".toList] ∧
    expandLines pasteFrame.files ⟨['.']⟩ .empty ["#set(x=\"1\")".toList,
        " #include(inner)".toList, "#set(x=\"2\")".toList] = .error ⟨3, .unbound ['y']⟩ ∧
    expandLines pasteFrame.files ⟨['.']⟩ .empty ["#set(x=\"1\")".toList,
        " a #var(x)".toList, " ".toList, "   #var(y)".toList, "#set(x=\"2\")".toList] =
      .error ⟨4, .unbound ['y']⟩ := by
  have hd : (Line.ofText " #include(inner)".toList).directive =
      .ok (.inclusion "inner".toList) := by decide +kernel
  have hopens : pasteFrame.Opens (pasteFrame.base.join "inner".toList)
      ["a #var(x)".toList, [], "  #var(y)".toList] := ⟨by decide +kernel, by decide +kernel⟩
  have hpaste := include_eq_paste rfl hd hopens (by decide +kernel)
  refine ⟨hopens, fun front => (hpaste front _).1, ?_, ?_, ?_⟩
  all_goals decide +kernel

end Frame

end LineTemplate
