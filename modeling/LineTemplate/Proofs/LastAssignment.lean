import LineTemplate.FileSystem.Build
import LineTemplate.Proofs.Activation

/-!
# The last assignment counts

The bindings behind some lines are those that the lines make themselves, with `#set` or by loading
a file, in the order of the lines; a later assignment of a name replaces an earlier one. Nothing
that happens in an included file has any part in them.

A template sees its bindings by way of references, so the second half of this module reads a
binding back: a line that holds one reference and nothing else becomes the value of the name.

## The architecture

* **`lastValue?`** — the value that the last assignment of a name gives it.
* **`lineAssignments`**, **`assignments`** — the assignments that a line makes, and those that lines
  make, read off their directives and the files that they load.
* **`Yields.own_eq`**, **`own_eq_of_expandFrom`** — one line, and lines in order, leave the bindings
  with just these assignments, however included files are expanded.
* **`expandFrom_append_expression_eq_ok`**, **`expandFrom_append_expression_eq_error`** — a
  reference alone on its line, behind lines that expand.
* **`scope_last_assignment`** — the headline.
-/

namespace LineTemplate

/-! ## Assignments in order -/

theorem map_eq_of_mapM_eq_some {α β : Type} {f : α → Option β} {xs : List α} {ys : List β}
    (h : xs.mapM f = some ys) : xs.map f = ys.map some := by
  induction xs generalizing ys with
  | nil =>
    cases h
    rfl
  | cons x xs ih =>
    rw [List.mapM_cons] at h
    obtain ⟨y, hy, hrest⟩ := Option.bind_eq_some_iff.1 h
    obtain ⟨zs, hzs, heq⟩ := Option.bind_eq_some_iff.1 hrest
    cases heq
    rw [List.map_cons, List.map_cons, hy, ih hzs]

/-- **The value that the last assignment** of the name gives it. -/
def lastValue? (as : List Assignment) (name : Text) : Option Text :=
  (as.reverse.find? (·.key = name)).map Assignment.value

theorem lastValue?_cons (a : Assignment) (as : List Assignment) (name : Text) :
    lastValue? (a :: as) name =
      (lastValue? as name).or (if name = a.key then some a.value else none) := by
  rw [lastValue?, lastValue?, List.reverse_cons, List.find?_append]
  cases as.reverse.find? (·.key = name) with
  | some b => rfl
  | none =>
    by_cases h : name = a.key
    · simp [h]
    · simp [h, Ne.symm h]

theorem Bindings.find?_assignAll (bindings : Bindings) (as : List Assignment) (name : Text) :
    (bindings.assignAll as).find? name = (lastValue? as name).or (bindings.find? name) := by
  induction as generalizing bindings with
  | nil => rfl
  | cons a as ih =>
    rw [Bindings.assignAll_cons, ih, lastValue?_cons, Option.or_assoc, Bindings.find?_assign]
    by_cases h : name = a.key <;> simp [h]

/-! ## The assignments that lines make -/

/-- **The assignments that a line makes:** its own one, or those on the lines of the file that it
loads. -/
def lineAssignments (files : FileSystem) (base : Path) (text : Text) : List Assignment :=
  match (Line.ofText text).directive with
  | .ok (.assignment a) => [a]
  | .ok (.config file) =>
    match files.readLines (base.join file) with
    | .ok lines => lines.filterMap Assignment.parse?
    | .error _ => []
  | _ => []

def assignments (files : FileSystem) (base : Path) (lines : List Text) : List Assignment :=
  lines.flatMap (lineAssignments files base)

theorem assignments_cons (files : FileSystem) (base : Path) (text : Text) (lines : List Text) :
    assignments files base (text :: lines) =
      lineAssignments files base text ++ assignments files base lines :=
  List.flatMap_cons

theorem lineAssignments_of_config {files : FileSystem} {base : Path} {text file : Text}
    {lines : List Text} {as : List Assignment}
    (hd : (Line.ofText text).directive = .ok (.config file))
    (hread : files.readLines (base.join file) = .ok lines)
    (hparse : lines.mapM Assignment.parse? = some as) : lineAssignments files base text = as := by
  have hmap := map_eq_of_mapM_eq_some hparse
  calc lineAssignments files base text
      = lines.filterMap Assignment.parse? := by simp only [lineAssignments, hd, hread]
    _ = (lines.map Assignment.parse?).filterMap id := by rw [List.filterMap_map]; rfl
    _ = as := by rw [hmap, List.filterMap_map]; exact List.filterMap_some

namespace Frame

section Own

variable {frame : Frame} {nested : Nested} {n : Nat} {own : Bindings}

/-- **A line leaves the bindings with its assignments**, and an inclusion makes none. -/
theorem Yields.own_eq {text : Text} {first : Expanded} (h : frame.Yields nested n own text first) :
    first.own = own.assignAll (lineAssignments frame.files frame.base text) := by
  cases h with
  | text hd => simp only [lineAssignments, hd, Bindings.assignAll_nil]
  | assignment hd =>
    simp only [lineAssignments, hd, Bindings.assignAll_cons, Bindings.assignAll_nil]
  | config hd hload =>
    obtain ⟨lines, as, hread, hparse, rfl⟩ := load_eq_ok_iff.1 hload
    rw [lineAssignments_of_config hd hread hparse]
  | references hd => simp only [lineAssignments, hd, Bindings.assignAll_nil]
  | inclusion hd => simp only [lineAssignments, hd, Bindings.assignAll_nil]

theorem own_eq_of_expandFrom {lines : List Text} {whole : Expanded}
    (h : frame.expandFrom nested n own lines = .ok whole) :
    whole.own = own.assignAll (assignments frame.files frame.base lines) := by
  induction lines generalizing n own whole with
  | nil =>
    cases h
    rfl
  | cons text rest ih =>
    obtain ⟨first, others, hfirst, hothers, rfl⟩ := expandFrom_cons_eq_ok_iff.1 h
    have hrest : others.own = _ := ih hothers
    rw [assignments_cons, Bindings.assignAll_append, ← hfirst.own_eq, ← hrest]

/-- Among lines that expand, one that loads a file makes one assignment for each line of it. -/
theorem exists_loaded_of_config {lines : List Text} {whole : Expanded}
    (h : frame.expandFrom nested n own lines = .ok whole) {text file : Text} (hmem : text ∈ lines)
    (hd : (Line.ofText text).directive = .ok (.config file)) :
    ∃ loaded, frame.files.readLines (frame.base.join file) = .ok loaded ∧
      loaded.map Assignment.parse? =
        (lineAssignments frame.files frame.base text).map some := by
  obtain ⟨front, back, before, first, -, -, hline⟩ := exists_yields_of_mem h hmem
  cases hline with
  | config hd' hload =>
    rw [hd'] at hd
    cases hd
    obtain ⟨loaded, as, hread, hparse, -⟩ := load_eq_ok_iff.1 hload
    refine ⟨loaded, hread, ?_⟩
    rw [lineAssignments_of_config hd' hread hparse, map_eq_of_mapM_eq_some hparse]
  | _ hd' => rw [hd'] at hd; cases hd

/-- A line of any other kind changes no binding, whatever becomes of the files that it includes. -/
theorem own_eq_of_kind? {text : Text} {first : Expanded}
    (h : frame.expandLine nested n own text = .ok first)
    (hconfig : (Line.ofText text).kind? ≠ some .config)
    (hassignment : (Line.ofText text).kind? ≠ some .assignment) : first.own = own := by
  cases expandLine_eq_ok_iff.1 h with
  | assignment hd => exact absurd (Line.kind?_of_directive hd).symm hassignment
  | config hd => exact absurd (Line.kind?_of_directive hd).symm hconfig
  | _ => rfl

end Own

end Frame

/-! ## Reading a binding back -/

/-- A reference alone on its line is the only one that is found there. -/
theorem Line.directive_expression {name : Text} (h : ')' ∉ name) :
    (Line.ofText (Kind.reference.expression name)).directive = .ok (.references [name]) := by
  have hfound : Kind.reference.expressions some (Kind.reference.expression name) = [name] :=
    Kind.reference.expressions_expression h rfl
  have hreferences : (Line.ofText (Kind.reference.expression name)).references = [name] := by
    rw [Line.references, Line.text_ofText, hfound]
    rfl
  have hkind : (Line.ofText (Kind.reference.expression name)).kind? = some .reference := rfl
  simp [Line.directive, hkind, Line.directiveOf?, hreferences]

theorem Text.replaceAll_self {pattern : Text} (h : pattern ≠ []) (value : Text) :
    Text.replaceAll pattern value pattern = value := by
  have hself := Text.replaceAll_append_self value h []
  rw [List.append_nil] at hself
  rw [hself]
  exact List.append_nil value

namespace Frame

section Expression

variable {frame : Frame} {own : Bindings} {name : Text}

theorem refer_expression_eq_ok {value : Text}
    (h : (Scope.mk own frame.inherited).lookup name = some value) :
    frame.refer own [name] (Kind.reference.expression name) = .ok value := by
  have hvalues : (Scope.mk own frame.inherited).values [name] = .ok [(name, value)] := by
    simp only [Scope.values, h]
    rfl
  simp only [refer, hvalues]
  exact congrArg _ (Text.replaceAll_self (Kind.expression_ne_nil _ _) value)

theorem refer_expression_eq_error (h : (Scope.mk own frame.inherited).lookup name = none) :
    frame.refer own [name] (Kind.reference.expression name) = .error (.unbound name) := by
  simp only [refer, Scope.values, h]

/-- **A reference behind some lines**, alone on its line, puts out the value that its name has
there. -/
theorem expandFrom_append_expression_eq_ok {nested : Nested} {n : Nat} {lines : List Text}
    {whole : Expanded} (hlines : frame.expandFrom nested n own lines = .ok whole)
    (hname : ')' ∉ name) {value : Text}
    (h : (Scope.mk whole.own frame.inherited).lookup name = some value) :
    frame.expandFrom nested n own (lines ++ [Kind.reference.expression name]) =
      .ok ⟨whole.own, whole.output ++ [value]⟩ := by
  have hline : frame.Yields nested (n + lines.length) whole.own (Kind.reference.expression name)
      ⟨whole.own, [value]⟩ :=
    .references (Line.directive_expression hname) (refer_expression_eq_ok h)
  have hlast : frame.expandFrom nested (n + lines.length) whole.own
      [Kind.reference.expression name] = .ok ⟨whole.own, [value]⟩ :=
    expandFrom_cons_eq_ok_iff.2 ⟨_, _, hline, rfl, rfl⟩
  exact expandFrom_append_eq_ok_iff.2 ⟨whole, _, hlines, hlast, rfl⟩

theorem expandFrom_append_expression_eq_error {nested : Nested} {n : Nat} {lines : List Text}
    {whole : Expanded} (hlines : frame.expandFrom nested n own lines = .ok whole)
    (hname : ')' ∉ name) (h : (Scope.mk whole.own frame.inherited).lookup name = none) :
    frame.expandFrom nested n own (lines ++ [Kind.reference.expression name]) =
      .error ⟨n + lines.length, .unbound name⟩ := by
  have hfaulty : frame.Faulty whole.own (Kind.reference.expression name) (.unbound name) :=
    .refer (Line.directive_expression hname) (refer_expression_eq_error h)
  exact expandFrom_eq_error_iff.2
    ⟨lines, Kind.reference.expression name, [], whole, rfl, hlines, hfaulty.expandLine_eq⟩

end Expression

/-! ## The headline -/

/-- **The last assignment counts.** At each point of lines that expand, the own bindings are those
that the lines in front assign, one after the other, and a name has the value that was assigned
to it last, or else the inherited one. Lines that neither assign nor load change no binding,
whatever becomes of the files that they include. And a template sees just this: a reference to a
name, put behind the lines, puts out its value, or is at fault if it has none. -/
theorem scope_last_assignment {frame : Frame} {lines : List Text} {whole : Expanded}
    (h : frame.expand lines = .ok whole) :
    (∀ front back, front ++ back = lines → ∃ first, frame.expand front = .ok first ∧
      first.own = Bindings.empty.assignAll (assignments frame.files frame.base front) ∧
      ∀ name, (Scope.mk first.own frame.inherited).lookup name =
        (lastValue? (assignments frame.files frame.base front) name).or
          (frame.inherited.find? name)) ∧
    (∀ text ∈ lines, ∀ file, (Line.ofText text).directive = .ok (.config file) →
      ∃ loaded, frame.files.readLines (frame.base.join file) = .ok loaded ∧
        loaded.map Assignment.parse? =
          (lineAssignments frame.files frame.base text).map some) ∧
    (∀ nested n own text first, frame.expandLine nested n own text = .ok first →
      (Line.ofText text).kind? ≠ some .config → (Line.ofText text).kind? ≠ some .assignment →
        first.own = own) ∧
    ∀ name, ')' ∉ name →
      (∀ value, (Scope.mk whole.own frame.inherited).lookup name = some value →
        frame.expand (lines ++ [Kind.reference.expression name]) =
          .ok ⟨whole.own, whole.output ++ [value]⟩) ∧
      ((Scope.mk whole.own frame.inherited).lookup name = none →
        frame.expand (lines ++ [Kind.reference.expression name]) =
          .error ⟨lines.length + 1, .unbound name⟩) := by
  simp only [expand_eq_run] at h ⊢
  refine ⟨?_, fun text hmem file hd => exists_loaded_of_config h hmem hd,
    fun nested n own text first => own_eq_of_kind?, fun name hname => ⟨?_, ?_⟩⟩
  · rintro front back rfl
    obtain ⟨first, -, hfront, -, -⟩ := expandFrom_append_eq_ok_iff.1 h
    have hown := own_eq_of_expandFrom hfront
    refine ⟨first, hfront, hown, fun name => ?_⟩
    rw [Scope.lookup, hown, Bindings.find?_assignAll, Bindings.find?_empty, Option.or_none]
  · intro value hvalue
    exact expandFrom_append_expression_eq_ok h hname hvalue
  · intro hnone
    rw [Nat.add_comm]
    exact expandFrom_append_expression_eq_error h hname hnone

/-- Lines that load a file behind an assignment, and include another one that makes its own. -/
def scopeFiles : FileSystem :=
  FileSystem.ofTexts [
    ("settings".toList, "#set(a=\"2\")\n #set(b=\"3\")".toList),
    ("inner".toList, "#set(b=\"9\")\n#var(a)".toList)]

def scopeFrame : Frame where
  files := scopeFiles
  base := ⟨['.']⟩
  inherited := Bindings.empty.assignAll [⟨['a'], ['0']⟩, ⟨['z'], ['7']⟩]
  chain := []

def scopeLines : List Text :=
  ["#set(a=\"1\")".toList, "#config(settings)".toList, "  #include(inner)".toList,
    "#set(#var(=\"5\")".toList]

theorem scope_last_assignment_scopeLines :
    ∃ whole, scopeFrame.expand scopeLines = .ok whole ∧ whole.output = ["  2".toList] ∧
      ((Scope.mk whole.own scopeFrame.inherited).lookup ['a'] = some ['2'] ∧
        (Scope.mk whole.own scopeFrame.inherited).lookup ['b'] = some ['3'] ∧
        (Scope.mk whole.own scopeFrame.inherited).lookup ['z'] = some ['7']) ∧
      scopeFrame.expand (scopeLines ++ [Kind.reference.expression "#var(".toList]) =
        .ok ⟨whole.own, whole.output ++ [['5']]⟩ ∧
      scopeFrame.expand (scopeLines ++ [Kind.reference.expression "b=".toList]) =
        .error ⟨5, .unbound "b=".toList⟩ := by
  have houtput : expandLines scopeFiles ⟨['.']⟩ scopeFrame.inherited scopeLines =
      .ok ["  2".toList] := by decide +kernel
  obtain ⟨whole, hwhole, hlines⟩ : ∃ whole, scopeFrame.expand scopeLines = .ok whole ∧
      whole.output = ["  2".toList] := Activation.expandLines_eq_ok_iff.1 houtput
  obtain ⟨hscope, -, -, hread⟩ := scope_last_assignment hwhole
  obtain ⟨first, hfirst, -, hlookup⟩ := hscope scopeLines [] (by rfl)
  obtain rfl : whole = first := Except.ok.inj (hwhole.symm.trans hfirst)
  refine ⟨whole, hwhole, hlines, ⟨?_, ?_, ?_⟩, (hread _ (by decide)).1 _ ?_,
    (hread _ (by decide)).2 ?_⟩
  all_goals
    rw [hlookup]
    decide +kernel

end Frame

end LineTemplate
