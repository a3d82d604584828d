import LineTemplate.FileSystem.Build
import LineTemplate.Proofs.Activation

/-!
# The first fault

An error crosses any number of including files on its way to the user, and is changed by none of
them. So it speaks of one line of one file, and here this line is found again: it is the first one
at fault in the order in which the lines of all files are expanded, and everything that the error
says is true of this line.

## The architecture

* **`find?_eraseDups`**, **`Scope.values_eq_error_iff`** — of the names on a line, the one that is
  reported is the first one without a value, as the line has them, repeated names included.
* **`Frame.Explains`** — what each fault says of its line, one case for each way to be at fault, and
  `Faulty.explains`, that it is so.
* **`eq_of_failsAt`** — a call hands its error on, so no two lines that a run reaches are at fault
  with different errors.
* **`Activation.Blames`** — the line that an error speaks of, with all there is to know about it.
* **`first_fault_reported`** — the headline.
-/

namespace LineTemplate

open Relation (ReflTransGen)

/-! ## The first name without a value -/

theorem find?_filter_of_imp {α : Type} {p q : α → Bool} (h : ∀ a, p a = true → q a = true)
    (xs : List α) : (xs.filter q).find? p = xs.find? p := by
  rw [List.find?_filter]
  congr 1
  funext a
  cases hp : p a with
  | true => simp [h a hp]
  | false => simp

/-- What is looked for first among all elements is found first when repeated ones are left out. -/
theorem find?_eraseDups {α : Type} [BEq α] [LawfulBEq α] (p : α → Bool) (xs : List α) :
    xs.eraseDups.find? p = xs.find? p := by
  induction xs using eraseDups_induction with
  | nil => rfl
  | cons x rest ih =>
    rw [List.eraseDups_cons]
    cases hx : p x with
    | true => rw [List.find?_cons_of_pos hx, List.find?_cons_of_pos hx]
    | false =>
      have hkeep : ∀ a, p a = true → (!a == x) = true := by
        intro a ha
        have hne : a ≠ x := by
          rintro rfl
          rw [hx] at ha
          cases ha
        simp [hne]
      rw [List.find?_cons_of_neg (by simp [hx]), List.find?_cons_of_neg (by simp [hx]), ih,
        find?_filter_of_imp hkeep]

theorem Scope.values_eq_error_iff {scope : Scope} {names : List Text} {name : Text} :
    scope.values names = .error name ↔
      names.find? (fun other => (scope.lookup other).isNone) = some name := by
  induction names with
  | nil => simp [Scope.values]
  | cons first rest ih =>
    cases hfirst : scope.lookup first with
    | none => simp [Scope.values, hfirst]
    | some value =>
      rw [List.find?_cons_of_neg (by simp [hfirst]), ← ih]
      simp only [Scope.values, hfirst]
      cases scope.values rest <;> simp [Except.map]

/-! ## What a fault says of its line -/

theorem exists_eq_none_of_mapM_eq_none {α β : Type} {f : α → Option β} {xs : List α}
    (h : xs.mapM f = none) : ∃ x ∈ xs, f x = none := by
  induction xs with
  | nil => cases h
  | cons x rest ih =>
    cases hx : f x with
    | none => exact ⟨x, List.mem_cons_self, hx⟩
    | some y =>
      rw [List.mapM_cons, hx] at h
      have hrest : rest.mapM f = none := by
        cases hys : rest.mapM f with
        | none => rfl
        | some ys => rw [hys] at h; cases h
      obtain ⟨bad, hmem, hbad⟩ := ih hrest
      exact ⟨bad, List.mem_cons_of_mem x hmem, hbad⟩

namespace Frame

/-- **A line explains a fault**, where the bindings `own` are made. All faults but one are of the
kind of the line: the lines of a file that is loaded are reported as malformed assignments. -/
inductive Explains (frame : Frame) (own : Bindings) (text : Text) : Fault → Prop where
  | malformed {kind : Kind} (hkind : (Line.ofText text).kind? = some kind)
      (h : (Line.ofText text).directive = .error kind) :
      Explains frame own text (.malformed kind)
  | loaded {file : Text} {lines : List Text} (hkind : (Line.ofText text).kind? = some .config)
      (h : (Line.ofText text).directive = .ok (.config file))
      (hread : frame.files.readLines (frame.base.join file) = .ok lines)
      (hbad : ∃ line ∈ lines, Assignment.parse? line = none) :
      Explains frame own text (.malformed .assignment)
  | unbound {name : Text} {before after : List Text}
      (hkind : (Line.ofText text).kind? = some .reference)
      (hnames : Kind.reference.expressions some text = before ++ name :: after)
      (hbefore : ∀ other ∈ before, ((Scope.mk own frame.inherited).lookup other).isSome)
      (hown : own.find? name = none) (hinherited : frame.inherited.find? name = none) :
      Explains frame own text (.unbound name)
  | cycle {file : Text} (hkind : (Line.ofText text).kind? = some .inclusion)
      (h : (Line.ofText text).directive = .ok (.inclusion file))
      (hmem : frame.routeOf (frame.base.join file) ∈ frame.chain) :
      Explains frame own text (.cycle (frame.base.join file))
  | unloadable {kind : Kind} {file : Text} {cause : ReadError}
      (hkind : (Line.ofText text).kind? = some kind)
      (h : (Line.ofText text).directive = .ok (.config file) ∨
        (Line.ofText text).directive = .ok (.inclusion file))
      (hread : frame.files.readLines (frame.base.join file) = .error cause)
      (hcause : cause = .notFound (frame.base.join file) ∨
        cause = .unreadable (frame.base.join file)) :
      Explains frame own text (.unloadable kind file cause)

variable {frame : Frame} {own : Bindings} {text : Text}

theorem Explains.kind?_eq {fault : Fault} (h : frame.Explains own text fault) :
    (Line.ofText text).kind? = some fault.kind ∨
      (fault = .malformed .assignment ∧ (Line.ofText text).kind? = some .config) := by
  cases h with
  | loaded hkind => exact Or.inr ⟨rfl, hkind⟩
  | malformed hkind | unbound hkind | cycle hkind | unloadable hkind => exact Or.inl hkind

theorem explains_of_load_eq_error {file : Text} {fault : Fault}
    (h : (Line.ofText text).directive = .ok (.config file))
    (hload : frame.load own file = .error fault) : frame.Explains own text fault := by
  have hkind : (Line.ofText text).kind? = some .config := (Line.kind?_of_directive h).symm
  rcases load_eq_error_iff.1 hload with ⟨cause, hread, rfl⟩ | ⟨lines, hread, hparse, rfl⟩
  · exact .unloadable hkind (Or.inl h) hread (FileSystem.cause_of_readLines_eq_error hread)
  · exact .loaded hkind h hread (exists_eq_none_of_mapM_eq_none hparse)

theorem explains_of_refer_eq_error {names : List Text} {fault : Fault}
    (h : (Line.ofText text).directive = .ok (.references names))
    (hrefer : frame.refer own names text = .error fault) : frame.Explains own text fault := by
  obtain ⟨name, hvalues, rfl⟩ := refer_eq_error_iff.1 hrefer
  have hkind : (Line.ofText text).kind? = some .reference := (Line.kind?_of_directive h).symm
  obtain rfl := Line.eq_eraseDups_of_directive h
  rw [Scope.values_eq_error_iff, find?_eraseDups, List.find?_eq_some_iff_append] at hvalues
  obtain ⟨hname, before, after, hnames, hbefore⟩ := hvalues
  obtain ⟨hown, hinherited⟩ := Option.or_eq_none_iff.1 (Option.isNone_iff_eq_none.1 hname)
  refine .unbound hkind hnames (fun other hother => ?_) hown hinherited
  simpa using hbefore other hother

/-- **What a fault says of its line is so.** -/
theorem Faulty.explains {fault : Fault} (h : frame.Faulty own text fault) :
    frame.Explains own text fault := by
  cases h with
  | malformed hd => exact .malformed (Line.kind?_of_malformed hd) hd
  | load hd hload => exact explains_of_load_eq_error hd hload
  | refer hd hrefer => exact explains_of_refer_eq_error hd hrefer
  | cycle hd hmem => exact .cycle (Line.kind?_of_directive hd).symm hd hmem
  | unreadable hd _ hread =>
    exact .unloadable (Line.kind?_of_directive hd).symm (Or.inr hd) hread
      (FileSystem.cause_of_readLines_eq_error hread)

end Frame

namespace Activation

/-! ## Errors on their way up -/

/-- **A run reaches one fault.** Whatever line at fault it comes to, the error is that of the run. -/
theorem eq_of_failsAt {a b : Activation} {e e' : LineError} (h : a.result = .error e)
    (hreach : ReflTransGen Calls a b) (hfails : b.FailsAt e') : e' = e :=
  Except.error.inj ((result_eq_error_of_reaches hreach hfails.result_eq_error).symm.trans h)

/-! ## The headline -/

/-- **The line that an error speaks of,** `text`, is one of the lines of the activation `a`. All
lines in front of it have been expanded, and have made the bindings `own`. -/
structure Blames (e : LineError) (a : Activation) (own : Bindings) (text : Text) : Prop where
  bounds : 1 ≤ e.line ∧ e.line ≤ a.lines.length
  line_eq : a.lines[e.line - 1]? = some text
  before : ∃ output, a.frame.run 1 .empty (a.lines.take (e.line - 1)) = .ok ⟨own, output⟩
  fails : a.frame.expandLine .full e.line own text = .error e
  explains : a.frame.Explains own text e.fault
  kind : (Line.ofText text).kind? = some e.fault.kind ∨
    (e.fault = .malformed .assignment ∧ (Line.ofText text).kind? = some .config)

theorem FailsAt.exists_blames {a : Activation} {e : LineError} (h : a.FailsAt e) :
    ∃ own text, Blames e a own text := by
  obtain ⟨frame, lines⟩ := a
  obtain ⟨n, fault⟩ := e
  obtain ⟨front, text, back, first, rfl, hfront, rfl, hfaulty⟩ := h
  refine ⟨first.own, text, ?_, ?_, ⟨first.output, ?_⟩, hfaulty.expandLine_eq, hfaulty.explains,
    hfaulty.explains.kind?_eq⟩
  · simp
  · simp
  · simpa using hfront

/-- **An error speaks of the first fault** of a run: it blames a line of the run, and no line that
the run comes to is at fault with another error. -/
structure SpeaksOf (e : LineError) (root : Activation) : Prop where
  line : ∃ a own text, ReflTransGen Calls root a ∧ Blames e a own text
  only : ∀ a e', ReflTransGen Calls root a → a.FailsAt e' → e' = e

theorem speaksOf_of_result_eq_error {root : Activation} {e : LineError}
    (h : root.result = .error e) : SpeaksOf e root := by
  obtain ⟨a, hreach, hfails⟩ := exists_failsAt h
  obtain ⟨own, text, hblames⟩ := hfails.exists_blames
  exact ⟨⟨a, own, text, hreach, hblames⟩, fun b e' hreach' => eq_of_failsAt h hreach'⟩

/-- **The first fault is the one that is reported.** Wherever lines fail, be it in files that they
include, the error blames one line: the first one at fault in the order of the expansion, by its
number in its own file, with the kind of its directive, and with what is wrong there. A file fails
without a line only if the file itself gives no lines. -/
theorem first_fault_reported :
    (∀ root e, result root = .error e → SpeaksOf e root) ∧
    (∀ files base inherited lines e, expandLines files base inherited lines = .error e →
      SpeaksOf e (ofLines files base inherited lines)) ∧
    ∀ files base inherited file e, expandFile files base inherited file = .error e →
      (∃ lines lineError, e = .line lineError ∧ files.readLines (base.join file) = .ok lines ∧
        SpeaksOf lineError (ofFile files base inherited (base.join file) lines)) ∨
      ∃ cause, e = .read cause ∧ e.line? = none ∧ e.location? = none ∧
        files.readLines (base.join file) = .error cause ∧
        (cause = .notFound (base.join file) ∨ cause = .unreadable (base.join file)) := by
  refine ⟨fun root e => speaksOf_of_result_eq_error, fun files base inherited lines e h => ?_,
    fun files base inherited file e h => ?_⟩
  · exact speaksOf_of_result_eq_error (expandLines_eq_error_iff.1 h)
  · cases e with
    | line lineError =>
      obtain ⟨lines, hread, hresult⟩ := expandFile_eq_line_iff.1 h
      exact Or.inl ⟨lines, lineError, rfl, hread, speaksOf_of_result_eq_error hresult⟩
    | read cause =>
      have hread := expandFile_eq_read_iff.1 h
      exact Or.inr ⟨cause, rfl, rfl, rfl, hread, FileSystem.cause_of_readLines_eq_error hread⟩
    | write fault => exact absurd h (expandFile_ne_write file fault)

/-- A file that refers to a name without a value two files further down, behind one that has a
value; and a file that loads a malformed assignment. -/
def faultFiles : FileSystem :=
  FileSystem.ofTexts [
    ("outer".toList, "text\n  #include(inner)\n#var(z)".toList),
    ("inner".toList, "#set(x=\"1\")\n\n#var(x) #var(y) #var(z)".toList),
    ("loads".toList, "#config(settings)".toList),
    ("settings".toList, "#set(a=\"1\")\n#set(b)".toList)]

theorem first_fault_reported_faultFiles :
    (expandLines faultFiles ⟨['.']⟩ .empty ["#include(outer)".toList] =
        .error ⟨3, .unbound ['y']⟩ ∧
      SpeaksOf ⟨3, .unbound ['y']⟩
        (ofLines faultFiles ⟨['.']⟩ .empty ["#include(outer)".toList])) ∧
    (expandFile faultFiles ⟨['.']⟩ .empty "loads".toList =
        .error (.line ⟨1, .malformed .assignment⟩) ∧
      ∃ lines, faultFiles.readLines (Path.join ⟨['.']⟩ "loads".toList) = .ok lines ∧
        SpeaksOf ⟨1, .malformed .assignment⟩
          (ofFile faultFiles ⟨['.']⟩ .empty (Path.join ⟨['.']⟩ "loads".toList) lines)) ∧
    expandFile faultFiles ⟨['.']⟩ .empty "missing".toList =
        .error (.read (.notFound ⟨"./missing".toList⟩)) ∧
      faultFiles.readLines ⟨"./missing".toList⟩ = .error (.notFound ⟨"./missing".toList⟩) := by
  have hlines : expandLines faultFiles ⟨['.']⟩ .empty ["#include(outer)".toList] =
      .error ⟨3, .unbound ['y']⟩ := by decide +kernel
  have hloads : expandFile faultFiles ⟨['.']⟩ .empty "loads".toList =
      .error (.line ⟨1, .malformed .assignment⟩) := by decide +kernel
  have hmissing : expandFile faultFiles ⟨['.']⟩ .empty "missing".toList =
      .error (.read (.notFound ⟨"./missing".toList⟩)) := by decide +kernel
  obtain ⟨-, hspeaks, hfile⟩ := first_fault_reported
  refine ⟨⟨hlines, hspeaks _ _ _ _ _ hlines⟩, ⟨hloads, ?_⟩, hmissing, ?_⟩
  · rcases hfile _ _ _ _ _ hloads with ⟨lines, e, he, hread, hline⟩ | ⟨cause, he, -⟩
    · cases he
      exact ⟨lines, hread, hline⟩
    · cases he
  · rcases hfile _ _ _ _ _ hmissing with ⟨lines, e, he, -⟩ | ⟨cause, he, -, -, hread, -⟩
    · cases he
    · cases he
      exact hread

end Activation

end LineTemplate
