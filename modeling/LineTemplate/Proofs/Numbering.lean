import LineTemplate.Proofs.Depth

/-!
# Results apart from the numbers of lines

The number of a line has one use: it is reported with a fault of this line. What lines amount to,
and which fault they have if any, does not depend on where in a file they stand.

## The architecture

* **`unnumbered`** — a result with the number taken off its error; two results that agree in this
  are both the same success or both the same fault (`unnumbered_eq_iff`).
* **`unnumbered_inOrder`** — parts in order may be exchanged for parts that differ in numbers only.
* **`expandLine_renumber`**, **`run_renumber`** — a line, and lines in order, at another place.
* **`unnumbered_run_replace`** — some lines in the place of one.
-/

namespace LineTemplate

/-- **A result apart from the numbers of lines.** -/
def unnumbered {α : Type} (result : Except LineError α) : Except Fault α :=
  result.mapError LineError.fault

@[simp] theorem unnumbered_error {α : Type} (e : LineError) :
    unnumbered (.error e : Except LineError α) = .error e.fault := rfl

theorem unnumbered_eq_iff {α : Type} {result result' : Except LineError α} :
    unnumbered result = unnumbered result' ↔
      (∃ a, result = .ok a ∧ result' = .ok a) ∨
      ∃ n n' fault, result = .error ⟨n, fault⟩ ∧ result' = .error ⟨n', fault⟩ := by
  constructor
  · intro h
    cases result with
    | error e =>
      cases result' with
      | error e' =>
        obtain ⟨n, fault⟩ := e
        obtain ⟨n', fault'⟩ := e'
        obtain rfl : fault = fault' := Except.error.inj h
        exact Or.inr ⟨n, n', fault, rfl, rfl⟩
      | ok a => cases h
    | ok a =>
      cases result' with
      | error e => cases h
      | ok a' =>
        obtain rfl : a = a' := Except.ok.inj h
        exact Or.inl ⟨a, rfl, rfl⟩
  · rintro (⟨a, rfl, rfl⟩ | ⟨n, n', fault, rfl, rfl⟩)
    · rfl
    · rfl

theorem unnumbered_inOrder {result result' : Except LineError Expanded}
    {others others' : Bindings → Except LineError Expanded}
    (h : unnumbered result = unnumbered result')
    (hothers : ∀ own, unnumbered (others own) = unnumbered (others' own)) :
    unnumbered (Expanded.inOrder result others) =
      unnumbered (Expanded.inOrder result' others') := by
  rcases unnumbered_eq_iff.1 h with ⟨first, rfl, rfl⟩ | ⟨n, n', fault, rfl, rfl⟩
  · rcases unnumbered_eq_iff.1 (hothers first.own) with
      ⟨rest, hrest, hrest'⟩ | ⟨n, n', fault, hrest, hrest'⟩
    · simp only [Expanded.inOrder, hrest, hrest']
    · simp only [Expanded.inOrder, hrest, hrest', unnumbered_error]
  · rfl

namespace Frame

/-- A line at another place of its file. Nested expansions take no notice of the place. -/
theorem expandLine_renumber (frame : Frame) (m n : Nat) (own : Bindings) (text : Text) :
    unnumbered (frame.expandLine .full m own text) =
      unnumbered (frame.expandLine .full n own text) := by
  rcases expandLine_cases frame .full m own text with
    ⟨first, hyields⟩ | ⟨fault, hfaulty⟩ | ⟨file, lines, e, hd, hopens, hnested⟩
  · have hyields' : frame.Yields .full n own text first := by
      cases hyields with
      | text hd => exact .text hd
      | assignment hd => exact .assignment hd
      | config hd hload => exact .config hd hload
      | references hd hrefer => exact .references hd hrefer
      | inclusion hd hopens hnested => exact .inclusion hd hopens hnested
    rw [hyields.expandLine_eq, hyields'.expandLine_eq]
  · rw [hfaulty.expandLine_eq, hfaulty.expandLine_eq]
    rfl
  · have hnested' : Nested.full (frame.child own (frame.base.join file)) n (frame.base.join file)
        lines = .error e := hnested
    rw [expandLine_eq_of_nested_eq_error hd hopens hnested,
      expandLine_eq_of_nested_eq_error hd hopens hnested']

/-- **Lines at another place** of their file amount to the same, or have the same fault. -/
theorem run_renumber (frame : Frame) (m n : Nat) (own : Bindings) (lines : List Text) :
    unnumbered (frame.run m own lines) = unnumbered (frame.run n own lines) := by
  induction lines generalizing m n own with
  | nil => rfl
  | cons text rest ih =>
    exact unnumbered_inOrder (frame.expandLine_renumber m n own text) fun own' =>
      ih (m + 1) (n + 1) own'

/-- **Some lines in the place of one:** if they amount to what it amounts to, then so does all that
stands around them. -/
theorem unnumbered_run_replace {frame : Frame} {text : Text} {lines : List Text}
    (h : ∀ m n own, unnumbered (frame.expandLine .full m own text) =
      unnumbered (frame.run n own lines))
    (n : Nat) (own : Bindings) (front back : List Text) :
    unnumbered (frame.run n own (front ++ text :: back)) =
      unnumbered (frame.run n own (front ++ (lines ++ back))) := by
  simp only [run, expandFrom_append_eq_inOrder, expandFrom_cons]
  refine unnumbered_inOrder rfl fun own' => unnumbered_inOrder (h _ _ own') fun own'' => ?_
  -- the lines behind move up or down by as many lines as there are, less one
  exact frame.run_renumber _ _ own'' back

end Frame

end LineTemplate
