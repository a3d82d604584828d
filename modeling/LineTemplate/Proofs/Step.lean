import LineTemplate.Expansion

/-!
# What one line does

Each line of a template either yields bindings and output, or is at fault itself, or includes a
file whose expansion fails. Here these cases are taken apart once, and no later proof opens
`Frame.expandLine` again.

## The architecture

* **`Expanded.inOrder`** — one part of the lines and then another: the form that `expandFrom` has,
  line by line (`expandFrom_cons`) and in two parts (`expandFrom_append_eq_inOrder`).
* **`Scope.values_eq_ok_iff`**, **`refer_eq_ok_iff`**, **`load_eq_ok_iff`** — what references and
  loaded files come to.
* **`Frame.Opens`** — an inclusion that gets as far as the lines of its file: the file is not
  being expanded yet, and it has lines to give.
* **`Frame.Yields`** — what a line that succeeds amounts to, one case for each directive.
* **`Frame.Faulty`** — what can be wrong with a line itself, whatever becomes of the files that
  it includes.
* **`expandLine_cases`** — these are all the cases, and each determines the outcome
  (`Yields.expandLine_eq`, `Faulty.expandLine_eq`); so a line succeeds or fails exactly as
  `expandLine_eq_ok_iff` and `expandLine_eq_error_iff` say.
* **`expandFrom_cons_eq_ok_iff`**, **`expandFrom_eq_error_iff`** — lines succeed if each one
  does; they fail at the first one that fails.
* **`exists_yields_of_mem`**, **`exists_yields_of_mem_output`** — from a line, or from a line of the
  output, to what was yielded there.
* **`expandLine_eq_of_directive`** — two frames expand a line alike if its directive finds the
  same in both; **`expandLine_eq_of_directive_eq`** — and one frame expands two lines alike if they
  have one directive.
* **`expandFrom_congr`** — nested expansions count only where a file is opened.
-/

namespace LineTemplate

/-! ## Two parts in order -/

namespace Expanded

/-- **Two parts in order:** the second one starts from the bindings that the first one leaves, and
is not reached if the first one fails. -/
def inOrder (result : Except LineError Expanded) (others : Bindings → Except LineError Expanded) :
    Except LineError Expanded :=
  match result with
  | .error e => .error e
  | .ok first =>
    match others first.own with
    | .error e => .error e
    | .ok rest => .ok ⟨rest.own, first.output ++ rest.output⟩

theorem inOrder_eq_ok_iff {result : Except LineError Expanded}
    {others : Bindings → Except LineError Expanded} {whole : Expanded} :
    inOrder result others = .ok whole ↔
      ∃ first rest, result = .ok first ∧ others first.own = .ok rest ∧
        whole = ⟨rest.own, first.output ++ rest.output⟩ := by
  constructor
  · intro h
    cases result with
    | error e => cases h
    | ok first =>
      cases hrest : others first.own with
      | error e =>
        simp only [inOrder, hrest] at h
        cases h
      | ok rest =>
        simp only [inOrder, hrest] at h
        cases h
        exact ⟨first, rest, rfl, hrest, rfl⟩
  · rintro ⟨first, rest, rfl, hrest, rfl⟩
    simp only [inOrder, hrest]

/-- A first part that puts nothing out only makes bindings for the second one. -/
theorem inOrder_nil (own : Bindings) (others : Bindings → Except LineError Expanded) :
    inOrder (.ok ⟨own, []⟩) others = others own := by
  cases h : others own with
  | error e => simp only [inOrder, h]
  | ok rest => simp only [inOrder, h, List.nil_append]

theorem map_output_eq_ok_iff {result : Except LineError Expanded} {output : List Text} :
    result.map Expanded.output = .ok output ↔
      ∃ whole, result = .ok whole ∧ whole.output = output := by
  cases result with
  | error e => simp [Except.map]
  | ok whole => simp [Except.map]

theorem map_output_eq_error_iff {result : Except LineError Expanded} {e : LineError} :
    result.map Expanded.output = .error e ↔ result = .error e := by
  cases result with
  | error e' => simp [Except.map]
  | ok whole => simp [Except.map]

end Expanded

/-- The values of names depend on the look-up of these names alone. -/
theorem Scope.values_eq_of_lookup {scope scope' : Scope} {names : List Text}
    (h : ∀ name ∈ names, scope.lookup name = scope'.lookup name) :
    scope.values names = scope'.values names := by
  induction names with
  | nil => rfl
  | cons name rest ih =>
    have hrest := ih fun other hother => h other (List.mem_cons_of_mem name hother)
    simp only [Scope.values, h name List.mem_cons_self, hrest]

/-- Names have values if each one has, and these are looked up one by one. -/
theorem Scope.values_eq_ok_iff {scope : Scope} {names : List Text} {values : List (Text × Text)} :
    scope.values names = .ok values ↔
      (∀ name ∈ names, (scope.lookup name).isSome) ∧
        values = names.map fun name => (name, (scope.lookup name).getD []) := by
  induction names generalizing values with
  | nil => exact ⟨fun h => ⟨by simp, (Except.ok.inj h).symm⟩, fun h => congrArg _ h.2.symm⟩
  | cons name rest ih =>
    cases hname : scope.lookup name with
    | none => simp [Scope.values, hname]
    | some value =>
      simp only [Scope.values, hname]
      cases hrest : scope.values rest with
      | error bad =>
        refine ⟨fun h => (by cases h), fun ⟨hall, _⟩ => ?_⟩
        rw [ih.2 ⟨(List.forall_mem_cons.1 hall).2, rfl⟩] at hrest
        cases hrest
      | ok others =>
        obtain ⟨hall, rfl⟩ := ih.1 hrest
        rw [List.forall_mem_cons, List.map_cons, hname]
        exact ⟨fun h => ⟨⟨rfl, hall⟩, (Except.ok.inj h).symm⟩, fun h => congrArg _ h.2.symm⟩

namespace Frame

/-! ## Opening a file -/

/-- **An inclusion opens a file:** its path leads to no file of the chain, and to a file that
has `lines` to give. -/
structure Opens (frame : Frame) (path : Path) (lines : List Text) : Prop where
  fresh : frame.routeOf path ∉ frame.chain
  read : frame.files.readLines path = .ok lines

theorem opens_cases (frame : Frame) (path : Path) :
    frame.routeOf path ∈ frame.chain ∨
      (frame.routeOf path ∉ frame.chain ∧
        ∃ cause, frame.files.readLines path = .error cause) ∨
      ∃ lines, frame.Opens path lines := by
  by_cases hmem : frame.routeOf path ∈ frame.chain
  · exact Or.inl hmem
  · cases hread : frame.files.readLines path with
    | error cause => exact Or.inr (Or.inl ⟨hmem, cause, rfl⟩)
    | ok lines => exact Or.inr (Or.inr ⟨lines, hmem, hread⟩)

section Include

variable {frame : Frame} {nested : Nested} {n : Nat} {own : Bindings} {file : Text}

theorem includeFile_of_mem (h : frame.routeOf (frame.base.join file) ∈ frame.chain) :
    frame.includeFile nested n own file = .error ⟨n, .cycle (frame.base.join file)⟩ := by
  simp only [includeFile, if_pos h]

theorem includeFile_of_error {cause : ReadError}
    (h : frame.routeOf (frame.base.join file) ∉ frame.chain)
    (hread : frame.files.readLines (frame.base.join file) = .error cause) :
    frame.includeFile nested n own file = .error ⟨n, .unloadable .inclusion file cause⟩ := by
  simp only [includeFile, if_neg h, hread]

theorem includeFile_of_opens {lines : List Text}
    (h : frame.Opens (frame.base.join file) lines) :
    frame.includeFile nested n own file =
      nested (frame.child own (frame.base.join file)) n (frame.base.join file) lines := by
  simp only [includeFile, if_neg h.fresh, h.read]

end Include

/-! ## The cases of a line -/

/-- **What a line amounts to** if it succeeds, the `n`-th line of its file. -/
inductive Yields (frame : Frame) (nested : Nested) (n : Nat) (own : Bindings) (text : Text) :
    Expanded → Prop where
  | text (h : (Line.ofText text).directive = .ok .text) :
      Yields frame nested n own text ⟨own, [text]⟩
  | assignment {a : Assignment} (h : (Line.ofText text).directive = .ok (.assignment a)) :
      Yields frame nested n own text ⟨own.assign a, []⟩
  | config {file : Text} {loaded : Bindings}
      (h : (Line.ofText text).directive = .ok (.config file))
      (hload : frame.load own file = .ok loaded) :
      Yields frame nested n own text ⟨loaded, []⟩
  | references {names : List Text} {written : Text}
      (h : (Line.ofText text).directive = .ok (.references names))
      (hrefer : frame.refer own names text = .ok written) :
      Yields frame nested n own text ⟨own, [written]⟩
  | inclusion {file : Text} {lines output : List Text}
      (h : (Line.ofText text).directive = .ok (.inclusion file))
      (hopens : frame.Opens (frame.base.join file) lines)
      (hnested : nested (frame.child own (frame.base.join file)) n (frame.base.join file) lines =
        .ok output) :
      Yields frame nested n own text
        ⟨own, output.map (Text.spaces (Line.ofText text).indentation ++ ·)⟩

/-- **What can be wrong with a line itself**, where the bindings `own` are made. -/
inductive Faulty (frame : Frame) (own : Bindings) (text : Text) : Fault → Prop where
  | malformed {kind : Kind} (h : (Line.ofText text).directive = .error kind) :
      Faulty frame own text (.malformed kind)
  | load {file : Text} {fault : Fault} (h : (Line.ofText text).directive = .ok (.config file))
      (hload : frame.load own file = .error fault) :
      Faulty frame own text fault
  | refer {names : List Text} {fault : Fault}
      (h : (Line.ofText text).directive = .ok (.references names))
      (hrefer : frame.refer own names text = .error fault) :
      Faulty frame own text fault
  | cycle {file : Text} (h : (Line.ofText text).directive = .ok (.inclusion file))
      (hmem : frame.routeOf (frame.base.join file) ∈ frame.chain) :
      Faulty frame own text (.cycle (frame.base.join file))
  | unreadable {file : Text} {cause : ReadError}
      (h : (Line.ofText text).directive = .ok (.inclusion file))
      (hfresh : frame.routeOf (frame.base.join file) ∉ frame.chain)
      (hread : frame.files.readLines (frame.base.join file) = .error cause) :
      Faulty frame own text (.unloadable .inclusion file cause)

theorem load_eq_ok_iff {frame : Frame} {own loaded : Bindings} {file : Text} :
    frame.load own file = .ok loaded ↔
      ∃ lines as, frame.files.readLines (frame.base.join file) = .ok lines ∧
        lines.mapM Assignment.parse? = some as ∧ loaded = own.assignAll as := by
  unfold load
  cases hread : frame.files.readLines (frame.base.join file) with
  | error cause => simp
  | ok lines => cases hparse : lines.mapM Assignment.parse? <;> simp [hparse, eq_comm]

theorem load_eq_error_iff {frame : Frame} {own : Bindings} {file : Text} {fault : Fault} :
    frame.load own file = .error fault ↔
      (∃ cause, frame.files.readLines (frame.base.join file) = .error cause ∧
        fault = .unloadable .config file cause) ∨
      ∃ lines, frame.files.readLines (frame.base.join file) = .ok lines ∧
        lines.mapM Assignment.parse? = none ∧ fault = .malformed .assignment := by
  unfold load
  cases hread : frame.files.readLines (frame.base.join file) with
  | error cause => simp [eq_comm]
  | ok lines => cases hparse : lines.mapM Assignment.parse? <;> simp [hparse, eq_comm]

theorem refer_eq_error_iff {frame : Frame} {own : Bindings} {names : List Text} {text : Text}
    {fault : Fault} :
    frame.refer own names text = .error fault ↔
      ∃ name, (Scope.mk own frame.inherited).values names = .error name ∧
        fault = .unbound name := by
  unfold refer
  cases hvalues : (Scope.mk own frame.inherited).values names <;> simp [eq_comm]

theorem refer_eq_ok_iff {frame : Frame} {own : Bindings} {names : List Text}
    {text written : Text} :
    frame.refer own names text = .ok written ↔
      (∀ name ∈ names, ((Scope.mk own frame.inherited).lookup name).isSome) ∧
        written = substitute (names.map fun name =>
          (name, ((Scope.mk own frame.inherited).lookup name).getD [])) text := by
  unfold refer
  cases hvalues : (Scope.mk own frame.inherited).values names with
  | error name =>
    refine ⟨fun h => (by cases h), fun ⟨hall, _⟩ => ?_⟩
    rw [Scope.values_eq_ok_iff.2 ⟨hall, rfl⟩] at hvalues
    cases hvalues
  | ok values =>
    obtain ⟨hall, rfl⟩ := Scope.values_eq_ok_iff.1 hvalues
    exact ⟨fun h => ⟨hall, (Except.ok.inj h).symm⟩, fun h => congrArg _ h.2.symm⟩

/-- Only an inclusion of a file on the chain is reported as a cycle. -/
theorem faulty_cycle_iff {frame : Frame} {own : Bindings} {text : Text} {path : Path} :
    frame.Faulty own text (.cycle path) ↔
      ∃ file, (Line.ofText text).directive = .ok (.inclusion file) ∧
        frame.base.join file = path ∧ frame.routeOf path ∈ frame.chain := by
  constructor
  · intro h
    cases h with
    | load _ hload =>
      -- assignments are loaded from files on the chain as from any other
      rcases load_eq_error_iff.1 hload with ⟨_, _, hfault⟩ | ⟨_, _, _, hfault⟩ <;> cases hfault
    | refer _ hrefer =>
      obtain ⟨_, _, hfault⟩ := refer_eq_error_iff.1 hrefer
      cases hfault
    | cycle h hmem => exact ⟨_, h, rfl, hmem⟩
  · rintro ⟨file, h, rfl, hmem⟩
    exact .cycle h hmem

section Line

variable {frame : Frame} {nested : Nested} {n : Nat} {own : Bindings} {text : Text}

theorem Yields.expandLine_eq {first : Expanded} (h : frame.Yields nested n own text first) :
    frame.expandLine nested n own text = .ok first := by
  cases h with
  | text hd => simp only [expandLine, hd]
  | assignment hd => simp only [expandLine, hd]
  | config hd hload => simp only [expandLine, hd, hload]
  | references hd hrefer => simp only [expandLine, hd, hrefer]
  | inclusion hd hopens hnested =>
    simp only [expandLine, hd, includeFile_of_opens hopens, hnested]

theorem Faulty.expandLine_eq {fault : Fault} (h : frame.Faulty own text fault) :
    frame.expandLine nested n own text = .error ⟨n, fault⟩ := by
  cases h with
  | malformed hd => simp only [expandLine, hd]
  | load hd hload => simp only [expandLine, hd, hload]
  | refer hd hrefer => simp only [expandLine, hd, hrefer]
  | cycle hd hmem => simp only [expandLine, hd, includeFile_of_mem hmem]
  | unreadable hd hfresh hread =>
    simp only [expandLine, hd, includeFile_of_error hfresh hread]

theorem expandLine_eq_of_nested_eq_error {file : Text} {lines : List Text} {e : LineError}
    (hd : (Line.ofText text).directive = .ok (.inclusion file))
    (hopens : frame.Opens (frame.base.join file) lines)
    (hnested : nested (frame.child own (frame.base.join file)) n (frame.base.join file) lines =
      .error e) :
    frame.expandLine nested n own text = .error e := by
  simp only [expandLine, hd, includeFile_of_opens hopens, hnested]

/-- **The cases of a line:** it yields something, it is at fault itself, or the file that it opens
fails. -/
theorem expandLine_cases (frame : Frame) (nested : Nested) (n : Nat) (own : Bindings)
    (text : Text) :
    (∃ first, frame.Yields nested n own text first) ∨
      (∃ fault, frame.Faulty own text fault) ∨
      ∃ file lines e, (Line.ofText text).directive = .ok (.inclusion file) ∧
        frame.Opens (frame.base.join file) lines ∧
        nested (frame.child own (frame.base.join file)) n (frame.base.join file) lines =
          .error e := by
  cases hd : (Line.ofText text).directive with
  | error kind => exact Or.inr (Or.inl ⟨_, .malformed hd⟩)
  | ok directive =>
    cases directive with
    | text => exact Or.inl ⟨_, .text hd⟩
    | assignment a => exact Or.inl ⟨_, .assignment hd⟩
    | config file =>
      cases hload : frame.load own file with
      | error fault => exact Or.inr (Or.inl ⟨fault, .load hd hload⟩)
      | ok loaded => exact Or.inl ⟨_, .config hd hload⟩
    | references names =>
      cases hrefer : frame.refer own names text with
      | error fault => exact Or.inr (Or.inl ⟨fault, .refer hd hrefer⟩)
      | ok written => exact Or.inl ⟨_, .references hd hrefer⟩
    | inclusion file =>
      rcases opens_cases frame (frame.base.join file) with
        hmem | ⟨hfresh, cause, hread⟩ | ⟨lines, hopens⟩
      · exact Or.inr (Or.inl ⟨_, .cycle hd hmem⟩)
      · exact Or.inr (Or.inl ⟨_, .unreadable hd hfresh hread⟩)
      · cases hnested : nested (frame.child own (frame.base.join file)) n
          (frame.base.join file) lines with
        | error e => exact Or.inr (Or.inr ⟨file, lines, e, rfl, hopens, hnested⟩)
        | ok output => exact Or.inl ⟨_, .inclusion hd hopens hnested⟩

theorem expandLine_eq_ok_iff {first : Expanded} :
    frame.expandLine nested n own text = .ok first ↔ frame.Yields nested n own text first := by
  refine ⟨fun h => ?_, Yields.expandLine_eq⟩
  rcases expandLine_cases frame nested n own text with
    ⟨other, hyields⟩ | ⟨fault, hfaulty⟩ | ⟨file, lines, e, hd, hopens, hnested⟩
  · have heq : other = first := Except.ok.inj (hyields.expandLine_eq.symm.trans h)
    rw [← heq]
    exact hyields
  · rw [hfaulty.expandLine_eq] at h
    cases h
  · rw [expandLine_eq_of_nested_eq_error hd hopens hnested] at h
    cases h

/-- **A line that fails** is at fault itself, and then the error carries its own number; or it
opens a file, and hands on the error of that file's lines as it is. -/
theorem expandLine_eq_error_iff {e : LineError} :
    frame.expandLine nested n own text = .error e ↔
      (e.line = n ∧ frame.Faulty own text e.fault) ∨
      ∃ file lines, (Line.ofText text).directive = .ok (.inclusion file) ∧
        frame.Opens (frame.base.join file) lines ∧
        nested (frame.child own (frame.base.join file)) n (frame.base.join file) lines =
          .error e := by
  constructor
  · intro h
    rcases expandLine_cases frame nested n own text with
      ⟨first, hyields⟩ | ⟨fault, hfaulty⟩ | ⟨file, lines, e', hd, hopens, hnested⟩
    · rw [hyields.expandLine_eq] at h
      cases h
    · have heq : ⟨n, fault⟩ = e := Except.error.inj (hfaulty.expandLine_eq.symm.trans h)
      rw [← heq]
      exact Or.inl ⟨rfl, hfaulty⟩
    · rw [expandLine_eq_of_nested_eq_error hd hopens hnested] at h
      rw [← Except.error.inj h]
      exact Or.inr ⟨file, lines, hd, hopens, hnested⟩
  · rintro (⟨rfl, hfaulty⟩ | ⟨file, lines, hd, hopens, hnested⟩)
    · exact hfaulty.expandLine_eq
    · exact expandLine_eq_of_nested_eq_error hd hopens hnested

end Line

/-! ## Lines in order -/

section Lines

variable {frame : Frame} {nested : Nested} {n : Nat} {own : Bindings} {e : LineError}

theorem expandFrom_cons (text : Text) (rest : List Text) :
    frame.expandFrom nested n own (text :: rest) =
      Expanded.inOrder (frame.expandLine nested n own text) fun own' =>
        frame.expandFrom nested (n + 1) own' rest :=
  rfl

theorem expandFrom_append_eq_inOrder (front back : List Text) :
    frame.expandFrom nested n own (front ++ back) =
      Expanded.inOrder (frame.expandFrom nested n own front) fun own' =>
        frame.expandFrom nested (n + front.length) own' back :=
  expandFrom_append frame nested n own front back

theorem expandFrom_cons_eq_ok_iff {text : Text} {rest : List Text} {whole : Expanded} :
    frame.expandFrom nested n own (text :: rest) = .ok whole ↔
      ∃ first others, frame.Yields nested n own text first ∧
        frame.expandFrom nested (n + 1) first.own rest = .ok others ∧
        whole = ⟨others.own, first.output ++ others.output⟩ := by
  simp only [← expandLine_eq_ok_iff]
  rw [expandFrom_cons, Expanded.inOrder_eq_ok_iff]

theorem expandFrom_append_eq_ok_iff {front back : List Text} {whole : Expanded} :
    frame.expandFrom nested n own (front ++ back) = .ok whole ↔
      ∃ first others, frame.expandFrom nested n own front = .ok first ∧
        frame.expandFrom nested (n + front.length) first.own back = .ok others ∧
        whole = ⟨others.own, first.output ++ others.output⟩ := by
  rw [expandFrom_append_eq_inOrder, Expanded.inOrder_eq_ok_iff]

/-- Among lines that succeed each one is reached, and yields something. -/
theorem exists_yields_of_mem {lines : List Text} {whole : Expanded}
    (h : frame.expandFrom nested n own lines = .ok whole) {text : Text} (hmem : text ∈ lines) :
    ∃ front back before first, lines = front ++ text :: back ∧
      frame.expandFrom nested n own front = .ok before ∧
      frame.Yields nested (n + front.length) before.own text first := by
  obtain ⟨front, back, rfl⟩ := List.append_of_mem hmem
  obtain ⟨before, rest, hfront, hrest, -⟩ := expandFrom_append_eq_ok_iff.1 h
  obtain ⟨first, -, hfirst, -, -⟩ := expandFrom_cons_eq_ok_iff.1 hrest
  exact ⟨front, back, before, first, rfl, hfront, hfirst⟩

/-- Among lines that succeed each line of the output is put out by one of them. -/
theorem exists_yields_of_mem_output {lines : List Text} {whole : Expanded}
    (h : frame.expandFrom nested n own lines = .ok whole) {line : Text}
    (hmem : line ∈ whole.output) :
    ∃ front text back before first, lines = front ++ text :: back ∧
      frame.expandFrom nested n own front = .ok before ∧
      frame.Yields nested (n + front.length) before.own text first ∧ line ∈ first.output := by
  induction lines generalizing n own whole with
  | nil =>
    cases h
    cases hmem
  | cons text rest ih =>
    obtain ⟨first, others, hfirst, hothers, rfl⟩ := expandFrom_cons_eq_ok_iff.1 h
    rcases List.mem_append.1 hmem with hhere | hthere
    · exact ⟨[], text, rest, ⟨own, []⟩, first, rfl, rfl, hfirst, hhere⟩
    · obtain ⟨front, text', back, before, later, rfl, hbefore, hlater, hline⟩ := ih hothers hthere
      refine ⟨text :: front, text', back, ⟨before.own, first.output ++ before.output⟩, later, rfl,
        expandFrom_cons_eq_ok_iff.2 ⟨first, before, hfirst, hbefore, rfl⟩, ?_, hline⟩
      rw [show n + (text :: front).length = n + 1 + front.length by rw [List.length_cons]; omega]
      exact hlater

/-- **The first line that fails.** All lines in front of it succeed, and those behind it play no
part. -/
theorem expandFrom_eq_error_iff {lines : List Text} :
    frame.expandFrom nested n own lines = .error e ↔
      ∃ front text back first, lines = front ++ text :: back ∧
        frame.expandFrom nested n own front = .ok first ∧
        frame.expandLine nested (n + front.length) first.own text = .error e := by
  constructor
  · intro h
    induction lines generalizing n own with
    | nil => cases h
    | cons text rest ih =>
      cases hfirst : frame.expandLine nested n own text with
      | error e' =>
        simp only [expandFrom, hfirst] at h
        cases h
        exact ⟨[], text, rest, ⟨own, []⟩, rfl, rfl, hfirst⟩
      | ok first =>
        have hrest : frame.expandFrom nested (n + 1) first.own rest = .error e := by
          simp only [expandFrom, hfirst] at h
          split at h
          · next hrest => cases h; exact hrest
          · cases h
        -- the failing line is among the rest, one line further from its first line
        obtain ⟨front, bad, back, before, rfl, hbefore, hbad⟩ := ih hrest
        refine ⟨text :: front, bad, back, ⟨before.own, first.output ++ before.output⟩, rfl, ?_, ?_⟩
        · exact expandFrom_cons_eq_ok_iff.2
            ⟨first, before, expandLine_eq_ok_iff.1 hfirst, hbefore, rfl⟩
        · rw [show n + (text :: front).length = n + 1 + front.length by
            rw [List.length_cons]; omega]
          exact hbad
  · rintro ⟨front, text, back, first, rfl, hfront, hbad⟩
    simp only [expandFrom_append, hfront, expandFrom, hbad]

end Lines

/-! ## Comparing expansions -/

/-- A line expands alike in two frames if its directive finds the same there. -/
theorem expandLine_eq_of_directive {frame frame' : Frame} {nested nested' : Nested} {n : Nat}
    {own : Bindings} {text : Text}
    (hload : ∀ file, (Line.ofText text).directive = .ok (.config file) →
      frame.load own file = frame'.load own file)
    (hrefer : ∀ names, (Line.ofText text).directive = .ok (.references names) →
      frame.refer own names text = frame'.refer own names text)
    (hinclude : ∀ file, (Line.ofText text).directive = .ok (.inclusion file) →
      frame.includeFile nested n own file = frame'.includeFile nested' n own file) :
    frame.expandLine nested n own text = frame'.expandLine nested' n own text := by
  cases hd : (Line.ofText text).directive with
  | error kind => simp only [expandLine, hd]
  | ok directive =>
    cases directive with
    | text => simp only [expandLine, hd]
    | assignment a => simp only [expandLine, hd]
    | config file => simp only [expandLine, hd, hload file hd]
    | references names => simp only [expandLine, hd, hrefer names hd]
    | inclusion file => simp only [expandLine, hd, hinclude file hd]

/-- What stands on a line besides its directive plays no part, unless the line is put out. -/
theorem expandLine_eq_of_directive_eq {text text' : Text} {kind : Kind}
    (hkind : (Line.ofText text).kind? = some kind) (hne : kind ≠ .reference)
    (hd : (Line.ofText text).directive = (Line.ofText text').directive)
    (hindent : (Line.ofText text).indentation = (Line.ofText text').indentation)
    (frame : Frame) (nested : Nested) (n : Nat) (own : Bindings) :
    frame.expandLine nested n own text = frame.expandLine nested n own text' := by
  cases hsame : (Line.ofText text').directive with
  | error kind => simp only [expandLine, hd, hsame]
  | ok directive =>
    rw [hsame] at hd
    have hnamed := Line.kind?_of_directive hd
    cases directive with
    | text =>
      rw [hkind] at hnamed
      cases hnamed
    | references names =>
      rw [hkind] at hnamed
      cases hnamed
      exact absurd rfl hne
    | config file => simp only [expandLine, hd, hsame]
    | assignment a => simp only [expandLine, hd, hsame]
    | inclusion file => simp only [expandLine, hd, hsame, hindent]

theorem expandFrom_eq_of_expandLine {frame frame' : Frame} {nested nested' : Nested}
    {lines : List Text}
    (h : ∀ text ∈ lines, ∀ n own,
      frame.expandLine nested n own text = frame'.expandLine nested' n own text)
    (n : Nat) (own : Bindings) :
    frame.expandFrom nested n own lines = frame'.expandFrom nested' n own lines := by
  induction lines generalizing n own with
  | nil => rfl
  | cons text rest ih =>
    have hrest := ih fun other hmem => h other (List.mem_cons_of_mem text hmem)
    simp only [expandFrom_cons, h text List.mem_cons_self, hrest]

/-- Nested expansions count only where a line opens a file. -/
theorem expandLine_congr {frame : Frame} {nested nested' : Nested}
    (h : ∀ n own path lines, frame.Opens path lines →
      nested (frame.child own path) n path lines = nested' (frame.child own path) n path lines)
    (n : Nat) (own : Bindings) (text : Text) :
    frame.expandLine nested n own text = frame.expandLine nested' n own text := by
  refine expandLine_eq_of_directive (fun _ _ => rfl) (fun _ _ => rfl) fun file _ => ?_
  rcases opens_cases frame (frame.base.join file) with
    hmem | ⟨hfresh, cause, hread⟩ | ⟨lines, hopens⟩
  · rw [includeFile_of_mem hmem, includeFile_of_mem hmem]
  · rw [includeFile_of_error hfresh hread, includeFile_of_error hfresh hread]
  · rw [includeFile_of_opens hopens, includeFile_of_opens hopens, h n own _ lines hopens]

theorem expandFrom_congr {frame : Frame} {nested nested' : Nested}
    (h : ∀ n own path lines, frame.Opens path lines →
      nested (frame.child own path) n path lines = nested' (frame.child own path) n path lines)
    (n : Nat) (own : Bindings) (lines : List Text) :
    frame.expandFrom nested n own lines = frame.expandFrom nested' n own lines :=
  expandFrom_eq_of_expandLine (fun text _ n own => expandLine_congr h n own text) n own

end Frame

end LineTemplate
