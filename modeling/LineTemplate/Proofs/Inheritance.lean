import LineTemplate.Proofs.LastAssignment

/-!
# How far inherited bindings reach

A file inherits bindings from the file that includes it, and hands on none of them: the files that
it includes itself inherit what its own lines have bound. So inherited bindings count only for the
references on the file's own lines, and there only for the names that these lines refer to.

## The architecture

* **`referredNames`** — the names that lines refer to, those of included files left aside.
* **`Frame.withInherited`** — the frame with other inherited bindings. What a line includes or loads
  is the same in both frames by definition.
* **`expandFrom_withInherited`** — bindings that agree on the names referred to give the same result.
* **`Calls.withInherited`** — with any inherited bindings under which lines succeed, they call the
  same activations.
* **`inheritance_confined`** — the headline.
-/

namespace LineTemplate

open Relation (TransGen)

/-- **The names that lines refer to** themselves. -/
def referredNames (lines : List Text) : List Text :=
  lines.flatMap fun text =>
    match (Line.ofText text).directive with
    | .ok (.references names) => names
    | _ => []

theorem mem_referredNames {lines : List Text} {text name : Text} {names : List Text}
    (htext : text ∈ lines) (hd : (Line.ofText text).directive = .ok (.references names))
    (hname : name ∈ names) : name ∈ referredNames lines := by
  refine List.mem_flatMap.2 ⟨text, htext, ?_⟩
  simpa only [hd] using hname

theorem Scope.values_congr {own inherited inherited' : Bindings} {names : List Text}
    (h : ∀ name ∈ names, inherited.find? name = inherited'.find? name) :
    (Scope.mk own inherited).values names = (Scope.mk own inherited').values names := by
  refine Scope.values_eq_of_lookup fun name hname => ?_
  simp only [Scope.lookup, h name hname]

namespace Frame

/-! ## One file with other inherited bindings -/

/-- The frame with other inherited bindings. -/
def withInherited (frame : Frame) (inherited : Bindings) : Frame :=
  { frame with inherited := inherited }

theorem refer_withInherited {frame : Frame} {inherited : Bindings} {names : List Text}
    (h : ∀ name ∈ names, frame.inherited.find? name = inherited.find? name) (own : Bindings)
    (text : Text) :
    (frame.withInherited inherited).refer own names text = frame.refer own names text := by
  unfold refer
  rw [Scope.values_congr h]
  rfl

/-- An inclusion takes nothing from the inherited bindings. -/
theorem expandLine_withInherited_of_inclusion {text file : Text}
    (hd : (Line.ofText text).directive = .ok (.inclusion file)) (frame : Frame)
    (inherited : Bindings) (nested : Nested) (n : Nat) (own : Bindings) :
    (frame.withInherited inherited).expandLine nested n own text =
      frame.expandLine nested n own text := by
  refine expandLine_eq_of_directive (fun _ _ => rfl) (fun names hnames => ?_) fun _ _ => rfl
  rw [hd] at hnames
  cases hnames

/-- **Inherited bindings count only for the names referred to.** -/
theorem expandFrom_withInherited {frame : Frame} {inherited : Bindings} {lines : List Text}
    (h : ∀ name ∈ referredNames lines, frame.inherited.find? name = inherited.find? name)
    (nested : Nested) (n : Nat) (own : Bindings) :
    (frame.withInherited inherited).expandFrom nested n own lines =
      frame.expandFrom nested n own lines := by
  refine expandFrom_eq_of_expandLine (fun text htext m own' => ?_) n own
  refine expandLine_eq_of_directive (fun _ _ => rfl) (fun names hd => ?_) fun _ _ => rfl
  exact refer_withInherited (fun name hname => h name (mem_referredNames htext hd hname)) own' text

/-- The bindings that lines make do not depend on those that they inherit. -/
theorem own_eq_of_withInherited {frame : Frame} {inherited : Bindings} {nested : Nested} {n : Nat}
    {own : Bindings} {lines : List Text} {whole whole' : Expanded}
    (h : frame.expandFrom nested n own lines = .ok whole)
    (h' : (frame.withInherited inherited).expandFrom nested n own lines = .ok whole') :
    whole'.own = whole.own :=
  (own_eq_of_expandFrom h').trans (own_eq_of_expandFrom h).symm

end Frame

namespace Activation

/-! ## The files below -/

/-- With other inherited bindings, lines that still succeed call what they called. -/
theorem Calls.withInherited {frame : Frame} {lines : List Text} {b : Activation}
    (h : Calls ⟨frame, lines⟩ b) {inherited : Bindings} {whole : Expanded}
    (hother : (frame.withInherited inherited).expand lines = .ok whole) :
    Calls ⟨frame.withInherited inherited, lines⟩ b := by
  cases h with
  | @inclusion _ front back inner text file first hfront hd hopens =>
    rw [Frame.expand_eq_run] at hother
    obtain ⟨first', -, hfront', -, -⟩ := Frame.expandFrom_append_eq_ok_iff.1 hother
    have hopens' : (frame.withInherited inherited).Opens (frame.base.join file) inner :=
      ⟨hopens.fresh, hopens.read⟩
    have hcall : Calls ⟨frame.withInherited inherited, front ++ text :: back⟩
        ⟨(frame.withInherited inherited).child first'.own (frame.base.join file), inner⟩ :=
      .inclusion hfront' hd hopens'
    rw [Frame.own_eq_of_withInherited hfront hfront'] at hcall
    -- the child's inherited bindings are those made here, whatever was inherited before
    exact hcall

theorem transGen_calls_withInherited {frame : Frame} {inherited : Bindings} {lines : List Text}
    {whole : Expanded} (hother : (frame.withInherited inherited).expand lines = .ok whole)
    {b : Activation} (h : TransGen Calls ⟨frame, lines⟩ b) :
    TransGen Calls ⟨frame.withInherited inherited, lines⟩ b := by
  obtain ⟨c, hcall, hreach⟩ := TransGen.head'_iff.1 h
  exact TransGen.head'_iff.2 ⟨c, hcall.withInherited hother, hreach⟩

/-! ## The headline -/

/-- **Inheritance reaches one level**, and there only the names referred to. Lines expand to the
same, or fail with the same error, under any two inherited bindings that agree on the names that
the lines refer to themselves. And under any two inherited bindings whatsoever that lines succeed
with, an inclusion behind them has the same result, and the lines have called the same
activations, at every depth. -/
theorem inheritance_confined (frame : Frame) (inherited : Bindings) (lines : List Text) :
    ((∀ name ∈ referredNames lines, frame.inherited.find? name = inherited.find? name) →
      (frame.withInherited inherited).expand lines = frame.expand lines) ∧
    ∀ whole whole', frame.expand lines = .ok whole →
      (frame.withInherited inherited).expand lines = .ok whole' →
      (∀ n text file, (Line.ofText text).directive = .ok (.inclusion file) →
        (frame.withInherited inherited).expandLine .full n whole'.own text =
          frame.expandLine .full n whole.own text) ∧
      ∀ b, TransGen Calls ⟨frame, lines⟩ b ↔
        TransGen Calls ⟨frame.withInherited inherited, lines⟩ b := by
  refine ⟨fun h => ?_, fun whole whole' hwhole hwhole' => ⟨fun n text file hd => ?_, fun b =>
    ⟨transGen_calls_withInherited hwhole', fun hcalls => ?_⟩⟩⟩
  · rw [Frame.expand_eq_run, Frame.expand_eq_run]
    exact Frame.expandFrom_withInherited h .full 1 .empty
  · rw [Frame.expand_eq_run] at hwhole hwhole'
    rw [Frame.own_eq_of_withInherited hwhole hwhole']
    exact Frame.expandLine_withInherited_of_inclusion hd frame inherited .full n whole.own
  · -- the frame is the other one with its own inherited bindings put back
    have hback : ((frame.withInherited inherited).withInherited frame.inherited).expand lines =
        .ok whole := hwhole
    exact transGen_calls_withInherited hback hcalls

/-- Lines that inherit a value for a name, bind it themselves, and include a file that refers to
it. -/
def heirFrame : Frame where
  files := FileSystem.ofTexts [("inner".toList, "#var(a)".toList)]
  base := ⟨['.']⟩
  inherited := Bindings.empty.assignAll [⟨['x'], ['0']⟩, ⟨['a'], ['5']⟩]
  chain := []

def heirLines : List Text := ["#set(a=\"1\")".toList, "  #include(inner)".toList]

def otherBindings : Bindings := Bindings.empty.assignAll [⟨['x'], ['0']⟩, ⟨['y'], ['7']⟩]

theorem inheritance_confined_heirLines :
    ((∀ name ∈ referredNames (heirLines ++ ["#var(x)".toList]),
        heirFrame.inherited.find? name = otherBindings.find? name) ∧
      (heirFrame.withInherited otherBindings).expand (heirLines ++ ["#var(x)".toList]) =
        heirFrame.expand (heirLines ++ ["#var(x)".toList])) ∧
    ∃ whole whole', heirFrame.expand heirLines = .ok whole ∧ whole.output = ["  1".toList] ∧
      (heirFrame.withInherited otherBindings).expand heirLines = .ok whole' ∧
      (heirFrame.withInherited otherBindings).expandLine .full 3 whole'.own
          "#include(inner)".toList =
        heirFrame.expandLine .full 3 whole.own "#include(inner)".toList ∧
      ∃ b, TransGen Calls ⟨heirFrame, heirLines⟩ b ∧
        TransGen Calls ⟨heirFrame.withInherited otherBindings, heirLines⟩ b := by
  have hagree : ∀ name ∈ referredNames (heirLines ++ ["#var(x)".toList]),
      heirFrame.inherited.find? name = otherBindings.find? name := by decide +kernel
  have hrun : ∀ inherited, expandLines heirFrame.files ⟨['.']⟩ inherited heirLines =
      .ok ["  1".toList] → ∃ whole, (heirFrame.withInherited inherited).expand heirLines =
        .ok whole ∧ whole.output = ["  1".toList] :=
    fun _ => expandLines_eq_ok_iff.1
  obtain ⟨whole, hwhole, houtput⟩ := hrun heirFrame.inherited (by decide +kernel)
  obtain ⟨whole', hwhole', -⟩ := hrun otherBindings (by decide +kernel)
  obtain ⟨hline, hcalls⟩ := (inheritance_confined heirFrame otherBindings heirLines).2 whole whole'
    hwhole hwhole'
  -- the file that is included is expanded, so there is an activation to compare
  have hd : (Line.ofText "  #include(inner)".toList).directive =
      .ok (.inclusion "inner".toList) := by decide +kernel
  have hd' : (Line.ofText "#include(inner)".toList).directive =
      .ok (.inclusion "inner".toList) := by decide +kernel
  obtain ⟨own, inner, -, hcall, -⟩ := exists_calls hwhole (by decide) hd
  exact ⟨⟨hagree, (inheritance_confined heirFrame otherBindings _).1 hagree⟩, whole, whole', hwhole,
    houtput, hwhole', hline 3 _ _ hd', _, .single hcall, (hcalls _).1 (.single hcall)⟩

end Activation

end LineTemplate
