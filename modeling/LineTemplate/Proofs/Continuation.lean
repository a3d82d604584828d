import LineTemplate.FileSystem.Build
import LineTemplate.Proofs.Activation
import LineTemplate.Proofs.Numbering

/-!
# A run goes on from its bindings

What lines do behind other lines depends on the bindings that these have made, and on nothing else
of what was done in front: not on the output so far, not on the lines, not even on how many there
were, except that a line reports its own number in the whole file.

## The architecture

* **`run_cases`** — how lines end from given bindings on, wherever they stand: they succeed, one of
  them is at fault, or a file that one of them opens fails.
* **`eq_of_first_failing`** — lines fail at one place, so an error is either one of the lines
  themselves or one of an included file (`not_failsAt_of_calls`).
* **`failsAt_append`**, **`calls_append`** — what goes wrong behind lines that succeed goes wrong in
  the whole.
* **`run_goes_on`** — the headline.
-/

namespace LineTemplate

open Relation (ReflTransGen TransGen)

namespace Frame

/-! ## How lines end -/

variable {frame : Frame} {own : Bindings}

/-- Lines that succeed at one place of a file succeed at every other one. -/
theorem run_eq_ok_of_renumber {lines : List Text} {whole : Expanded} {m : Nat}
    (h : frame.run m own lines = .ok whole) (n : Nat) : frame.run n own lines = .ok whole := by
  rcases unnumbered_eq_iff.1 (frame.run_renumber m n own lines) with
    ⟨other, hm, hn⟩ | ⟨k, k', fault, hm, -⟩
  · rw [h] at hm
    rw [hn, hm]
  · rw [h] at hm
    cases hm

/-- **How lines end,** wherever they stand: each of them yields something; or one of them is at fault
itself; or one opens a file whose lines fail. -/
theorem run_cases (frame : Frame) (own : Bindings) (lines : List Text) :
    (∃ whole, ∀ n, frame.run n own lines = .ok whole) ∨
      ∃ front text back first, lines = front ++ text :: back ∧
        (∀ n, frame.run n own front = .ok first) ∧
        ((∃ fault, frame.Faulty first.own text fault) ∨
          ∃ file inner e, (Line.ofText text).directive = .ok (.inclusion file) ∧
            frame.Opens (frame.base.join file) inner ∧
            (frame.child first.own (frame.base.join file)).expand inner = .error e) := by
  cases hrun : frame.run 1 own lines with
  | ok whole => exact Or.inl ⟨whole, fun n => run_eq_ok_of_renumber hrun n⟩
  | error e =>
    obtain ⟨front, text, back, first, rfl, hfront, hbad⟩ := expandFrom_eq_error_iff.1 hrun
    refine Or.inr ⟨front, text, back, first, rfl, fun n => run_eq_ok_of_renumber hfront n, ?_⟩
    rcases expandLine_eq_error_iff.1 hbad with ⟨-, hfaulty⟩ | ⟨file, inner, hd, hopens, hnested⟩
    · exact Or.inl ⟨e.fault, hfaulty⟩
    · exact Or.inr ⟨file, inner, e, hd, hopens, Nested.full_eq_error_iff.1 hnested⟩

/-- **Lines fail at one place.** -/
theorem eq_of_first_failing {front back front' back' : List Text} {text text' : Text}
    {first first' : Expanded} {n : Nat} {e e' : LineError}
    (hsplit : front ++ text :: back = front' ++ text' :: back')
    (hfront : frame.run n own front = .ok first)
    (hbad : frame.expandLine .full (n + front.length) first.own text = .error e)
    (hfront' : frame.run n own front' = .ok first')
    (hbad' : frame.expandLine .full (n + front'.length) first'.own text' = .error e') :
    front = front' ∧ text = text' := by
  -- a line that fails is no part of lines that succeed
  have hnot : ∀ {before after : List Text} {line : Text} {made whole : Expanded} {err : LineError},
      frame.run n own before = .ok made →
      frame.expandLine .full (n + before.length) made.own line = .error err →
      frame.run n own (before ++ line :: after) ≠ .ok whole := by
    intro before after line made whole err hbefore herr hwhole
    have herror : frame.run n own (before ++ line :: after) = .error err :=
      expandFrom_eq_error_iff.2 ⟨before, line, after, made, rfl, hbefore, herr⟩
    rw [hwhole] at herror
    cases herror
  rcases List.append_eq_append_iff.1 hsplit with ⟨m, hm, htail⟩ | ⟨m, hm, htail⟩
  · cases m with
    | nil =>
      obtain ⟨rfl, -⟩ := List.cons.inj htail
      exact ⟨by simpa using hm.symm, rfl⟩
    | cons line rest =>
      obtain ⟨rfl, -⟩ := List.cons.inj htail
      rw [hm] at hfront'
      exact absurd hfront' (hnot hfront hbad)
  · cases m with
    | nil =>
      obtain ⟨rfl, -⟩ := List.cons.inj htail
      exact ⟨by simpa using hm, rfl⟩
    | cons line rest =>
      obtain ⟨rfl, -⟩ := List.cons.inj htail
      rw [hm] at hfront
      exact absurd hfront (hnot hfront' hbad')

/-- A file that is opened is no fault of the line that opens it. -/
theorem not_faulty_of_opens {text file : Text} {inner : List Text} {fault : Fault}
    (hd : (Line.ofText text).directive = .ok (.inclusion file))
    (hopens : frame.Opens (frame.base.join file) inner) : ¬ frame.Faulty own text fault := by
  intro h
  cases h with
  | cycle hd' hmem =>
    rw [hd] at hd'
    cases hd'
    exact hopens.fresh hmem
  | unreadable hd' _ hread =>
    rw [hd] at hd'
    cases hd'
    rw [hopens.read] at hread
    cases hread
  | malformed hd' => rw [hd] at hd'; cases hd'
  | load hd' => rw [hd] at hd'; cases hd'
  | refer hd' => rw [hd] at hd'; cases hd'

end Frame

namespace Activation

/-! ## Errors of the lines, and errors of included files -/

/-- Lines that call a failing activation are not at fault themselves. -/
theorem not_failsAt_of_calls {a b : Activation} (hcall : a.Calls b) {e : LineError}
    (h : b.result = .error e) (e' : LineError) : ¬ a.FailsAt e' := by
  cases hcall with
  | @inclusion frame front back inner text file first hfront hd hopens =>
    rintro ⟨front', text', back', first', hsplit, hfront', -, hfaulty⟩
    have hbad := Frame.expandLine_eq_of_nested_eq_error (n := 1 + front.length) hd hopens
      (Nested.full_eq_error_iff.2 h)
    obtain ⟨rfl, rfl⟩ :=
      Frame.eq_of_first_failing hsplit hfront hbad hfront' hfaulty.expandLine_eq
    exact Frame.not_faulty_of_opens hd hopens hfaulty

section Append

variable {frame : Frame} {front before : List Text} {text : Text} {first mid : Expanded}

theorem run_append_eq_ok (hfront : frame.run 1 .empty front = .ok first)
    (hbefore : ∀ n, frame.run n first.own before = .ok mid) :
    frame.run 1 .empty (front ++ before) = .ok ⟨mid.own, first.output ++ mid.output⟩ :=
  Frame.expandFrom_append_eq_ok_iff.2 ⟨first, mid, hfront, hbefore _, rfl⟩

/-- A line at fault behind lines that succeed. -/
theorem failsAt_append {fault : Fault} (hfront : frame.run 1 .empty front = .ok first)
    (hbefore : ∀ n, frame.run n first.own before = .ok mid)
    (hfaulty : frame.Faulty mid.own text fault) (after : List Text) :
    FailsAt ⟨frame, front ++ (before ++ text :: after)⟩
      ⟨front.length + (before.length + 1), fault⟩ := by
  refine ⟨front ++ before, text, after, _, ?_, run_append_eq_ok hfront hbefore, ?_, hfaulty⟩
  · rw [List.append_assoc]
  · rw [List.length_append, Nat.add_assoc]

/-- An inclusion behind lines that succeed. -/
theorem calls_append {file : Text} {inner : List Text}
    (hfront : frame.run 1 .empty front = .ok first)
    (hbefore : ∀ n, frame.run n first.own before = .ok mid)
    (hd : (Line.ofText text).directive = .ok (.inclusion file))
    (hopens : frame.Opens (frame.base.join file) inner) (after : List Text) :
    Calls ⟨frame, front ++ (before ++ text :: after)⟩
      ⟨frame.child mid.own (frame.base.join file), inner⟩ := by
  rw [← List.append_assoc]
  exact @Calls.inclusion _ _ _ _ _ _ ⟨mid.own, first.output ++ mid.output⟩
    (run_append_eq_ok hfront hbefore) hd hopens

end Append

/-! ## The headline -/

/-- **A run goes on from its bindings alone.** Lines behind two fronts that succeed and make the same
bindings do the same: both wholes succeed, with the same output behind that of each front; or the
same line is at fault in both, which each reports by its own number; or both hand on the same error
of the same included file, and none of their own lines is at fault. And lines that fail fail in the
same way whatever follows them. -/
theorem run_goes_on (frame : Frame) :
    (∀ front front' first first', frame.expand front = .ok first →
      frame.expand front' = .ok first' → first.own = first'.own → ∀ back,
        (∃ own rest, frame.expand (front ++ back) = .ok ⟨own, first.output ++ rest⟩ ∧
          frame.expand (front' ++ back) = .ok ⟨own, first'.output ++ rest⟩) ∨
        (∃ k fault, 1 ≤ k ∧ k ≤ back.length ∧
          (frame.expand (front ++ back) = .error ⟨front.length + k, fault⟩ ∧
            FailsAt ⟨frame, front ++ back⟩ ⟨front.length + k, fault⟩) ∧
          frame.expand (front' ++ back) = .error ⟨front'.length + k, fault⟩ ∧
            FailsAt ⟨frame, front' ++ back⟩ ⟨front'.length + k, fault⟩) ∨
        ∃ b e, TransGen Calls ⟨frame, front ++ back⟩ b ∧ TransGen Calls ⟨frame, front' ++ back⟩ b ∧
          b.FailsAt e ∧
          (frame.expand (front ++ back) = .error e ∧ ∀ e', ¬ FailsAt ⟨frame, front ++ back⟩ e') ∧
          frame.expand (front' ++ back) = .error e ∧ ∀ e', ¬ FailsAt ⟨frame, front' ++ back⟩ e') ∧
    ∀ front e, frame.expand front = .error e → ∀ back, frame.expand (front ++ back) = .error e := by
  constructor
  · intro front front' first first' hfront hfront' hown back
    rw [Frame.expand_eq_run] at hfront hfront'
    rcases frame.run_cases first.own back with
      ⟨whole, hback⟩ | ⟨before, text, after, mid, rfl, hbefore,
        ⟨fault, hfaulty⟩ | ⟨file, inner, e, hd, hopens, hinner⟩⟩
    · have hwhole := run_append_eq_ok hfront hback
      rw [hown] at hback
      have hwhole' := run_append_eq_ok hfront' hback
      rw [← Frame.expand_eq_run] at hwhole hwhole'
      exact Or.inl ⟨whole.own, whole.output, hwhole, hwhole'⟩
    · have hfails := failsAt_append hfront hbefore hfaulty after
      rw [hown] at hbefore
      have hfails' := failsAt_append hfront' hbefore hfaulty after
      exact Or.inr (Or.inl ⟨before.length + 1, fault, by omega, by simp,
        ⟨hfails.result_eq_error, hfails⟩, hfails'.result_eq_error, hfails'⟩)
    · have hcall := calls_append hfront hbefore hd hopens after
      rw [hown] at hbefore
      have hcall' := calls_append hfront' hbefore hd hopens after
      -- the called activation is the same one, so the line that it fails at is, too
      have hresult : result ⟨frame.child mid.own (frame.base.join file), inner⟩ = .error e := hinner
      obtain ⟨b, hreach, hfails⟩ := exists_failsAt hresult
      exact Or.inr (Or.inr ⟨b, e, .head' hcall hreach, .head' hcall' hreach, hfails,
        ⟨hcall.result_eq_error hresult, not_failsAt_of_calls hcall hresult⟩,
        hcall'.result_eq_error hresult, not_failsAt_of_calls hcall' hresult⟩)
  · intro front e h back
    rw [Frame.expand_eq_run] at h ⊢
    obtain ⟨before, text, after, first, rfl, hbefore, hbad⟩ := Frame.expandFrom_eq_error_iff.1 h
    exact Frame.expandFrom_eq_error_iff.2 ⟨before, text, after ++ back, first, by simp, hbefore, hbad⟩

/-- A file that refers to two names. -/
def goingFrame : Frame where
  files := FileSystem.ofTexts [("inner".toList, "#var(x)\n#var(y)".toList)]
  base := ⟨['.']⟩
  inherited := .empty
  chain := []

/-- Two fronts of different length and output, which bind one name to the same value. -/
def shortFront : List Text := ["#set(x=\"1\")".toList, "a".toList]

def longFront : List Text :=
  ["b".toList, "#set(x=\"0\")".toList, "#var(x)".toList, "#set(x=\"1\")".toList]

theorem run_goes_on_fronts :
    (∃ first first', goingFrame.expand shortFront = .ok first ∧
      goingFrame.expand longFront = .ok first' ∧ first.own = first'.own ∧
      first.output = ["a".toList] ∧ first'.output = ["b".toList, "0".toList] ∧
      ∃ own rest,
        goingFrame.expand (shortFront ++ ["#var(x)".toList]) = .ok ⟨own, first.output ++ rest⟩ ∧
        goingFrame.expand (longFront ++ ["#var(x)".toList]) = .ok ⟨own, first'.output ++ rest⟩) ∧
    (goingFrame.expand (shortFront ++ ["a".toList, "#var(y)".toList]) =
        .error ⟨4, .unbound ['y']⟩ ∧
      goingFrame.expand (longFront ++ ["a".toList, "#var(y)".toList]) =
        .error ⟨6, .unbound ['y']⟩) ∧
    (goingFrame.expand (shortFront ++ ["#include(inner)".toList]) = .error ⟨2, .unbound ['y']⟩ ∧
      goingFrame.expand (longFront ++ ["#include(inner)".toList]) =
        .error ⟨2, .unbound ['y']⟩) ∧
    goingFrame.expand ["#var(x)".toList] = .error ⟨1, .unbound ['x']⟩ ∧
    ∀ back, goingFrame.expand (["#var(x)".toList] ++ back) = .error ⟨1, .unbound ['x']⟩ := by
  have herror : ∀ lines e, expandLines goingFrame.files ⟨['.']⟩ .empty lines = .error e →
      goingFrame.expand lines = .error e := fun _ _ => expandLines_eq_error_iff.1
  have hshort : goingFrame.expand shortFront =
      .ok ⟨Bindings.empty.assign ⟨['x'], ['1']⟩, ["a".toList]⟩ := by
    rw [Frame.expand_eq_run]
    rfl
  have hlong : goingFrame.expand longFront =
      .ok ⟨(Bindings.empty.assign ⟨['x'], ['0']⟩).assign ⟨['x'], ['1']⟩,
        ["b".toList, "0".toList]⟩ := by
    rw [Frame.expand_eq_run]
    rfl
  have hown : Bindings.empty.assign ⟨['x'], ['1']⟩ =
      (Bindings.empty.assign ⟨['x'], ['0']⟩).assign ⟨['x'], ['1']⟩ :=
    (Bindings.assign_assign (a := ⟨['x'], ['0']⟩) (b := ⟨['x'], ['1']⟩) .empty rfl).symm
  obtain ⟨whole, hwhole, -⟩ : ∃ whole,
      goingFrame.expand (shortFront ++ ["#var(x)".toList]) = .ok whole ∧
        whole.output = ["a".toList, "1".toList] := expandLines_eq_ok_iff.1 (by decide +kernel)
  have hfails : goingFrame.expand ["#var(x)".toList] = .error ⟨1, .unbound ['x']⟩ :=
    herror _ _ (by decide +kernel)
  obtain ⟨hback, hfail⟩ := run_goes_on goingFrame
  refine ⟨⟨_, _, hshort, hlong, hown, rfl, rfl, ?_⟩,
    ⟨herror _ _ (by decide +kernel), herror _ _ (by decide +kernel)⟩,
    ⟨herror _ _ (by decide +kernel), herror _ _ (by decide +kernel)⟩, hfails, hfail _ _ hfails⟩
  -- the lines succeed behind one of the fronts, so they do behind the other
  rcases hback _ _ _ _ hshort hlong hown ["#var(x)".toList] with
    hboth | ⟨k, fault, -, -, ⟨herr, -⟩, -⟩ | ⟨b, e, -, -, -, ⟨herr, -⟩, -⟩
  · exact hboth
  · rw [hwhole] at herr
    cases herr
  · rw [hwhole] at herr
    cases herr

end Activation

end LineTemplate
