import LineTemplate.Proofs.Depth
import Mathlib.Logic.Relation

/-!
# Activations of the expansion

Expanding lines that include a file activates the expansion once more, in a frame of its own.
What holds of every activation of a run is proved by going from one activation to those that it
calls; and whatever goes wrong in a run goes wrong on a line of one of its activations.

## The architecture

* **`Activation`** — a frame and the lines that are expanded in it.
* **`Activation.Calls`** — one activation reaches an inclusion, with everything in front of it
  expanded, and opens the file.
* **`Activation.Root`** — where the expansion of lines or of a file starts.
* **`Activation.ComesTo`** — an activation reaches a line, with everything in front of it expanded.
* **`Activation.FailsAt`** — an activation reaches a line that is at fault itself.
* **`exists_failsAt`** — a failing run has such an activation, and its error is that of the run.
* **`Calls.result_eq_error`** — a call hands its error on, so in a run that succeeds every
  activation does (`succeeds_of_reaches`).
* **`exists_calls`** — a run that succeeds opens the file of each inclusion.
-/

namespace LineTemplate

open Relation (ReflTransGen)

/-- **An activation** of the expansion: the frame of a file, and the file's lines. -/
structure Activation where
  frame : Frame
  lines : List Text

namespace Activation

def result (a : Activation) : Except LineError Expanded := a.frame.expand a.lines

/-- **An activation calls another** when it comes to an inclusion that opens a file. The called
activation inherits the bindings made by the lines in front. -/
inductive Calls : Activation → Activation → Prop where
  | inclusion {frame : Frame} {front back lines : List Text} {text file : Text}
      {first : Expanded} (hfront : frame.run 1 .empty front = .ok first)
      (h : (Line.ofText text).directive = .ok (.inclusion file))
      (hopens : frame.Opens (frame.base.join file) lines) :
      Calls ⟨frame, front ++ text :: back⟩ ⟨frame.child first.own (frame.base.join file), lines⟩

def ofLines (files : FileSystem) (base : Path) (inherited : Bindings) (lines : List Text) :
    Activation :=
  ⟨⟨files, base, inherited, []⟩, lines⟩

def ofFile (files : FileSystem) (base : Path) (inherited : Bindings) (path : Path)
    (lines : List Text) : Activation :=
  ⟨⟨files, base, inherited, [(files.identity path).route]⟩, lines⟩

/-- **Where a run starts:** with lines that stand in no file, or with those of a file that was
read. -/
inductive Root (files : FileSystem) (base : Path) (inherited : Bindings) : Activation → Prop where
  | lines (lines : List Text) : Root files base inherited (ofLines files base inherited lines)
  | file {file : Text} {lines : List Text}
      (hread : files.readLines (base.join file) = .ok lines) :
      Root files base inherited (ofFile files base inherited (base.join file) lines)

/-- **An activation comes to a line,** the `n`-th of its lines. Those in front of it have been
expanded, and have made the bindings `own`. -/
def ComesTo (a : Activation) (n : Nat) (own : Bindings) (text : Text) : Prop :=
  ∃ front back first, a.lines = front ++ text :: back ∧
    a.frame.run 1 .empty front = .ok first ∧ first.own = own ∧ n = front.length + 1

/-- **An activation fails at a line** that is at fault itself, behind lines that succeed. -/
def FailsAt (a : Activation) (e : LineError) : Prop :=
  ∃ front text back first, a.lines = front ++ text :: back ∧
    a.frame.run 1 .empty front = .ok first ∧ e.line = front.length + 1 ∧
    a.frame.Faulty first.own text e.fault

/-! ## What users start -/

section Users

variable {files : FileSystem} {base : Path} {inherited : Bindings}

theorem expandLines_eq_ok_iff {lines output : List Text} :
    expandLines files base inherited lines = .ok output ↔
      ∃ whole, (ofLines files base inherited lines).result = .ok whole ∧
        whole.output = output :=
  Expanded.map_output_eq_ok_iff

theorem expandLines_eq_error_iff {lines : List Text} {e : LineError} :
    expandLines files base inherited lines = .error e ↔
      (ofLines files base inherited lines).result = .error e :=
  Expanded.map_output_eq_error_iff

theorem expandFile_eq_ok_iff {file : Text} {output : List Text} :
    expandFile files base inherited file = .ok output ↔
      ∃ lines, files.readLines (base.join file) = .ok lines ∧
        ∃ whole, (ofFile files base inherited (base.join file) lines).result = .ok whole ∧
          whole.output = output := by
  dsimp only [expandFile, result, ofFile]
  cases files.readLines (base.join file) with
  | error e => simp
  | ok lines =>
    dsimp only
    split
    · next e he => simp [he]
    · next whole hwhole => simp [hwhole]

theorem expandFile_eq_line_iff {file : Text} {e : LineError} :
    expandFile files base inherited file = .error (.line e) ↔
      ∃ lines, files.readLines (base.join file) = .ok lines ∧
        (ofFile files base inherited (base.join file) lines).result = .error e := by
  dsimp only [expandFile, result, ofFile]
  cases files.readLines (base.join file) with
  | error e => simp
  | ok lines =>
    dsimp only
    split
    · next e he => simp [he]
    · next whole hwhole => simp [hwhole]

theorem expandFile_eq_read_iff {file : Text} {cause : ReadError} :
    expandFile files base inherited file = .error (.read cause) ↔
      files.readLines (base.join file) = .error cause := by
  dsimp only [expandFile]
  cases files.readLines (base.join file) with
  | error e => simp
  | ok lines =>
    dsimp only
    split <;> simp

theorem expandFile_ne_write (file : Text) (fault : PathFault) :
    expandFile files base inherited file ≠ .error (.write fault) := by
  dsimp only [expandFile]
  cases files.readLines (base.join file) with
  | error e => simp
  | ok lines =>
    dsimp only
    split <;> simp

end Users

/-! ## Failing runs -/

/-- **Where a failing run fails.** Some activation of the run comes to a line that is at fault
itself, and the error of the whole run is that line's error, unchanged. -/
theorem exists_failsAt {a : Activation} {e : LineError} (h : a.result = .error e) :
    ∃ b, ReflTransGen Calls a b ∧ b.FailsAt e := by
  obtain ⟨frame, lines⟩ := a
  induction frame, lines using Frame.child_induction with
  | step frame lines ih =>
    rw [result, Frame.expand_eq_run] at h
    -- the first line that fails is at fault itself, or the file that it opens has failed
    obtain ⟨front, text, back, first, rfl, hfront, hbad⟩ := Frame.expandFrom_eq_error_iff.1 h
    rcases Frame.expandLine_eq_error_iff.1 hbad with
      ⟨hline, hfaulty⟩ | ⟨file, inner, hd, hopens, hnested⟩
    · exact ⟨_, .refl, front, text, back, first, rfl, hfront, by omega, hfaulty⟩
    · have hresult : result ⟨frame.child first.own (frame.base.join file), inner⟩ = .error e :=
        Nested.full_eq_error_iff.1 hnested
      obtain ⟨b, hreach, hfails⟩ := ih first.own (frame.base.join file) inner hopens hresult
      exact ⟨b, .head (.inclusion hfront hd hopens) hreach, hfails⟩

/-- **A call hands its error on** to the calling activation. -/
theorem Calls.result_eq_error {a b : Activation} {e : LineError} (h : a.Calls b)
    (hresult : b.result = .error e) : a.result = .error e := by
  cases h with
  | @inclusion frame front back lines text file first hfront hd hopens =>
    rw [result, Frame.expand_eq_run]
    refine Frame.expandFrom_eq_error_iff.2 ⟨front, text, back, first, rfl, hfront, ?_⟩
    exact Frame.expandLine_eq_of_nested_eq_error hd hopens (Nested.full_eq_error_iff.2 hresult)

theorem FailsAt.result_eq_error {a : Activation} {e : LineError} (h : a.FailsAt e) :
    a.result = .error e := by
  obtain ⟨frame, lines⟩ := a
  obtain ⟨front, text, back, first, rfl, hfront, hline, hfaulty⟩ := h
  rw [result, Frame.expand_eq_run]
  refine Frame.expandFrom_eq_error_iff.2 ⟨front, text, back, first, rfl, hfront, ?_⟩
  obtain ⟨n, fault⟩ := e
  obtain rfl : n = 1 + front.length := by simpa [Nat.add_comm] using hline
  exact hfaulty.expandLine_eq

theorem result_eq_error_of_reaches {a b : Activation} {e : LineError}
    (hreach : ReflTransGen Calls a b) (h : b.result = .error e) : a.result = .error e := by
  induction hreach using ReflTransGen.head_induction_on with
  | refl => exact h
  | head hcall _ ih => exact hcall.result_eq_error ih

/-! ## Succeeding runs -/

/-- In a run that succeeds every activation does. -/
theorem succeeds_of_reaches {a b : Activation} {whole : Expanded} (h : a.result = .ok whole)
    (hreach : ReflTransGen Calls a b) : ∃ expanded, b.result = .ok expanded := by
  cases hresult : b.result with
  | ok expanded => exact ⟨expanded, rfl⟩
  | error e =>
    rw [result_eq_error_of_reaches hreach hresult] at h
    cases h

/-- A line that is come to in a run that succeeds yields something. -/
theorem ComesTo.exists_yields {a : Activation} {n : Nat} {own : Bindings} {text : Text}
    (hcomes : a.ComesTo n own text) {whole : Expanded} (h : a.result = .ok whole) :
    ∃ first, a.frame.Yields .full n own text first := by
  obtain ⟨frame, lines⟩ := a
  obtain ⟨front, back, first, rfl, hfront, rfl, rfl⟩ := hcomes
  rw [result, Frame.expand_eq_run] at h
  obtain ⟨first', rest, hfront', hrest, -⟩ := Frame.expandFrom_append_eq_ok_iff.1 h
  -- the lines in front have one result
  obtain rfl : first = first' := Except.ok.inj (hfront.symm.trans hfront')
  obtain ⟨line, -, hline, -, -⟩ := Frame.expandFrom_cons_eq_ok_iff.1 hrest
  rw [Nat.add_comm] at hline
  exact ⟨line, hline⟩

/-- In a run that succeeds every inclusion opens a file, whose expansion succeeds. -/
theorem exists_calls {frame : Frame} {lines : List Text} {whole : Expanded}
    (h : result ⟨frame, lines⟩ = .ok whole) {text file : Text} (hmem : text ∈ lines)
    (hd : (Line.ofText text).directive = .ok (.inclusion file)) :
    ∃ own inner expanded, Calls ⟨frame, lines⟩ ⟨frame.child own (frame.base.join file), inner⟩ ∧
      frame.Opens (frame.base.join file) inner ∧
      result ⟨frame.child own (frame.base.join file), inner⟩ = .ok expanded := by
  rw [result, Frame.expand_eq_run] at h
  obtain ⟨front, back, first, line, rfl, hfront, hline⟩ := Frame.exists_yields_of_mem h hmem
  cases hline with
  | inclusion hd' hopens hnested =>
    rw [hd'] at hd
    cases hd
    obtain ⟨expanded, hexpanded, -⟩ := Nested.full_eq_ok_iff.1 hnested
    exact ⟨first.own, _, expanded, .inclusion hfront hd' hopens, hopens, hexpanded⟩
  | _ hd' => rw [hd'] at hd; cases hd

end Activation

end LineTemplate
