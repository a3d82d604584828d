import LineTemplate.Proofs.IncludeGraph

/-!
# What the chain of files decides

The chain of the files being expanded decides nothing but cycles: a run under a chain that holds
fewer routes, or further ones that no inclusion of the run leads to, gives the same result, unless
it ended in a cycle.

A file's lines can be expanded with the file on the chain, or as lines that stand in no file. The
two runs differ in what they know, and where they fail they may fail at different lines. They
succeed alike, since a run that succeeds has met no cycle of the include graph, and so has never
come back to the file.

## The architecture

* **`Meets`** — some inclusion among lines, or among the lines of the files that they include,
  leads to a route. Nothing is expanded for this.
* **`EndsInCycle`**, **`EndsInCycleAt`** — a result that is the report of a cycle, at any path or at
  one of some paths.
* **`Frame.ClosedBeside`** — the paths that are closed under the frame's chain and not under another
  one. Reports of these are all that can make a difference.
* **`run_withChain`** — routes that are taken off the chain, or put on it without being met, change
  no run that does not end in such a report.
* **`chain_adds_only_cycles`** — the headline on runs of the same lines under different chains.
* **`Meets.exists_transGen`** — what the lines of a file meet, in a run that succeeds, can be
  reached from the file.
* **`expandFile_iff_expandLines`** — the headline on a file and its lines.
-/

namespace LineTemplate

open Relation (TransGen)

/-! ## Routes that lines meet -/

/-- **Lines meet a route** if one of them includes a path of this route, or a file whose lines meet
it. -/
inductive Meets (files : FileSystem) (base : Path) : List Text → Route → Prop where
  | line {lines : List Text} {text file : Text} (hmem : text ∈ lines)
      (hd : (Line.ofText text).directive = .ok (.inclusion file)) :
      Meets files base lines (files.identity (base.join file)).route
  | file {lines inner : List Text} {text file : Text} {route : Route} (hmem : text ∈ lines)
      (hd : (Line.ofText text).directive = .ok (.inclusion file))
      (hread : files.readLines (base.join file) = .ok inner) (h : Meets files base inner route) :
      Meets files base lines route

section Succeeds

variable {files : FileSystem} {base : Path} {inherited : Bindings} {chain : List Route}
  {lines : List Text} {whole : Expanded} {source : Location} {text : Text}

/-- In a run that succeeds, the lines of a file meet only what can be reached from the file. -/
theorem Meets.exists_transGen {route : Route} (h : Meets files base lines route)
    (hresult : Activation.result ⟨⟨files, base, inherited, chain⟩, lines⟩ = .ok whole)
    (htext : files.contentAt? source = some (.text text)) (hlines : text.lines = lines) :
    ∃ target : Location, target.path.route = route ∧ TransGen (Edge files base) source target := by
  induction h generalizing inherited chain whole source text with
  | @line lines line file hmem hd =>
    obtain ⟨own, inner, -, -, hopens, -⟩ := Activation.exists_calls hresult hmem hd
    obtain ⟨target, -, hfile, -, -, hroute⟩ := hopens.exists_file
    rw [← hlines] at hmem
    exact ⟨target, hroute.symm, .single (edge_of_mem htext hmem hd hfile)⟩
  | @file lines inner line file route hmem hd hread _ ih =>
    obtain ⟨own, opened, expanded, -, hopens, hinner⟩ := Activation.exists_calls hresult hmem hd
    -- the lines that were opened are those that meet the route
    obtain rfl : inner = opened := Except.ok.inj (hread.symm.trans hopens.read)
    obtain ⟨next, inside, hfile, hinside, hlines', -⟩ := hopens.exists_file
    obtain ⟨target, hroute, hreach⟩ := ih hinner hinside hlines'
    rw [← hlines] at hmem
    exact ⟨target, hroute, .head (edge_of_mem htext hmem hd hfile) hreach⟩

/-- **A run of a file's lines that succeeds never comes back** to the file. -/
theorem not_meets_of_result_eq_ok
    (hresult : Activation.result ⟨⟨files, base, inherited, chain⟩, lines⟩ = .ok whole)
    (htext : files.contentAt? source = some (.text text)) (hlines : text.lines = lines) :
    ¬ Meets files base lines source.path.route := by
  intro hmeets
  obtain ⟨target, hroute, hcycle⟩ := hmeets.exists_transGen hresult htext hlines
  obtain rfl : target = source := Location.route_path_inj.1 hroute
  exact not_transGen_self_of_acc (acc_of_result_eq_ok hresult htext hlines) target .refl hcycle

end Succeeds

/-! ## Results that report a cycle -/

/-- **A result that reports a cycle.** -/
def EndsInCycle {α : Type} (result : Except LineError α) : Prop :=
  ∃ n path, result = .error ⟨n, .cycle path⟩

/-- A result that reports a cycle at one of the paths `p`. -/
def EndsInCycleAt {α : Type} (p : Path → Prop) (result : Except LineError α) : Prop :=
  ∃ n path, p path ∧ result = .error ⟨n, .cycle path⟩

theorem EndsInCycleAt.endsInCycle {α : Type} {p : Path → Prop} {result : Except LineError α}
    (h : EndsInCycleAt p result) : EndsInCycle result := by
  obtain ⟨n, path, -, heq⟩ := h
  exact ⟨n, path, heq⟩

theorem EndsInCycleAt.mono {α : Type} {p q : Path → Prop} {result : Except LineError α}
    (h : EndsInCycleAt p result) (hpq : ∀ path, p path → q path) : EndsInCycleAt q result := by
  obtain ⟨n, path, hp, heq⟩ := h
  exact ⟨n, path, hpq path hp, heq⟩

/-- Two parts in order are as they were, or end in a cycle, if this holds of each part. -/
theorem endsInCycleAt_or_inOrder_eq {p : Path → Prop} {result result' : Except LineError Expanded}
    {others others' : Bindings → Except LineError Expanded}
    (h : EndsInCycleAt p result ∨ result' = result)
    (hothers : ∀ own, EndsInCycleAt p (others own) ∨ others' own = others own) :
    EndsInCycleAt p (Expanded.inOrder result others) ∨
      Expanded.inOrder result' others' = Expanded.inOrder result others := by
  rcases h with ⟨n, path, hp, rfl⟩ | rfl
  · exact Or.inl ⟨n, path, hp, rfl⟩
  · cases result' with
    | error e => exact Or.inr rfl
    | ok first =>
      rcases hothers first.own with ⟨n, path, hp, hrest⟩ | heq
      · exact Or.inl ⟨n, path, hp, by simp only [Expanded.inOrder, hrest]⟩
      · exact Or.inr (by simp only [Expanded.inOrder, heq])

namespace Frame

/-! ## Runs under another chain -/

/-- The frame with another chain. -/
def withChain (frame : Frame) (chain : List Route) : Frame := { frame with chain := chain }

/-- **A path that is closed under one chain only:** its route is on the frame's chain, and not on
the other one. -/
def ClosedBeside (frame : Frame) (chain : List Route) (path : Path) : Prop :=
  frame.routeOf path ∈ frame.chain ∧ frame.routeOf path ∉ chain

/-- What joins both chains closes no path under one of them only. -/
theorem ClosedBeside.of_child {frame : Frame} {chain : List Route} {own : Bindings}
    {path other : Path}
    (h : (frame.child own path).ClosedBeside (frame.routeOf path :: chain) other) :
    frame.ClosedBeside chain other := by
  obtain ⟨hmem, hnot⟩ := h
  rw [List.mem_cons, not_or] at hnot
  exact ⟨(List.mem_cons.1 hmem).resolve_left hnot.1, hnot.2⟩

/-- A line under another chain, which has the route of the file that the line includes only if the
frame's chain has it. -/
theorem expandLine_withChain {frame : Frame} {chain : List Route} {text : Text}
    (hchain : ∀ file, (Line.ofText text).directive = .ok (.inclusion file) →
      frame.routeOf (frame.base.join file) ∈ chain →
        frame.routeOf (frame.base.join file) ∈ frame.chain)
    (hopened : ∀ own file lines, (Line.ofText text).directive = .ok (.inclusion file) →
      frame.Opens (frame.base.join file) lines →
        EndsInCycleAt (frame.ClosedBeside chain)
            ((frame.child own (frame.base.join file)).expand lines) ∨
          ((frame.withChain chain).child own (frame.base.join file)).expand lines =
            (frame.child own (frame.base.join file)).expand lines)
    (n : Nat) (own : Bindings) :
    EndsInCycleAt (frame.ClosedBeside chain) (frame.expandLine .full n own text) ∨
      (frame.withChain chain).expandLine .full n own text =
        frame.expandLine .full n own text := by
  by_cases hcycle : EndsInCycleAt (frame.ClosedBeside chain) (frame.expandLine .full n own text)
  · exact Or.inl hcycle
  refine Or.inr (expandLine_eq_of_directive (fun _ _ => rfl) (fun _ _ => rfl) fun file hd => ?_)
  rcases opens_cases frame (frame.base.join file) with
    hmem | ⟨hfresh, cause, hread⟩ | ⟨lines, hopens⟩
  · -- the cycle is reported under both chains, or makes the difference
    by_cases hother : (frame.withChain chain).routeOf (frame.base.join file) ∈ chain
    · exact (includeFile_of_mem hother).trans (includeFile_of_mem hmem).symm
    · exact absurd ⟨n, _, ⟨hmem, hother⟩, Faulty.expandLine_eq (.cycle hd hmem)⟩ hcycle
  · have hfresh' : (frame.withChain chain).routeOf (frame.base.join file) ∉ chain :=
      mt (hchain file hd) hfresh
    exact (includeFile_of_error hfresh' hread).trans (includeFile_of_error hfresh hread).symm
  · have hopens' : (frame.withChain chain).Opens (frame.base.join file) lines :=
      ⟨mt (hchain file hd) hopens.fresh, hopens.read⟩
    rcases hopened own file lines hd hopens with ⟨m, path, hclosed, herror⟩ | heq
    · -- the line would hand this report on
      exact absurd ⟨m, path, hclosed, expandLine_eq_of_nested_eq_error hd hopens
        (Nested.full_eq_error_iff.2 herror)⟩ hcycle
    · calc (frame.withChain chain).includeFile .full n own file
          = Nested.full ((frame.withChain chain).child own (frame.base.join file)) n _ lines :=
            includeFile_of_opens hopens'
        _ = Nested.full (frame.child own (frame.base.join file)) n (frame.base.join file) lines := by
            simp only [Nested.full, heq]
        _ = frame.includeFile .full n own file := (includeFile_of_opens hopens).symm

/-- **Only cycles depend on the chain.** Take another chain that holds nothing but routes of the
frame's chain and routes that the lines do not meet. The run is the same under both chains, unless
it ends in a cycle at a path that the other chain does not close. -/
theorem run_withChain {frame : Frame} {lines : List Text} {chain : List Route}
    (h : ∀ route ∈ chain, route ∈ frame.chain ∨ ¬ Meets frame.files frame.base lines route)
    (n : Nat) (own : Bindings) :
    EndsInCycleAt (frame.ClosedBeside chain) (frame.run n own lines) ∨
      (frame.withChain chain).run n own lines = frame.run n own lines := by
  induction frame, lines using child_induction generalizing chain n own with
  | step frame lines ihfile =>
    have hline : ∀ text ∈ lines, ∀ n own,
        EndsInCycleAt (frame.ClosedBeside chain) (frame.expandLine .full n own text) ∨
          (frame.withChain chain).expandLine .full n own text =
            frame.expandLine .full n own text := by
      intro text hmem n own
      refine expandLine_withChain ?_ ?_ n own
      · intro file hd hroute
        exact (h _ hroute).resolve_right fun hnot => hnot (.line hmem hd)
      · intro own' file inner hd hopens
        rw [expand_eq_run, expand_eq_run]
        -- the file's route joins both chains, and what its lines meet the lines meet, too
        have hchains : ∀ route ∈ frame.routeOf (frame.base.join file) :: chain,
            route ∈ (frame.child own' (frame.base.join file)).chain ∨
              ¬ Meets frame.files frame.base inner route := by
          intro route hroute
          rcases List.mem_cons.1 hroute with rfl | hroute
          · exact Or.inl List.mem_cons_self
          · rcases h route hroute with hold | hnot
            · exact Or.inl (List.mem_cons_of_mem _ hold)
            · exact Or.inr fun hmeets => hnot (.file hmem hd hopens.read hmeets)
        rcases ihfile own' (frame.base.join file) inner hopens hchains 1 .empty with hcycle | heq
        · exact Or.inl (hcycle.mono fun path hclosed => hclosed.of_child)
        · exact Or.inr heq
    -- from here on the lines are gone through one by one, and none is opened again
    clear h ihfile
    induction lines generalizing n own with
    | nil => exact Or.inr rfl
    | cons text rest ih =>
      exact endsInCycleAt_or_inOrder_eq (hline text List.mem_cons_self n own) fun own' =>
        ih (n + 1) own' fun other hmem => hline other (List.mem_cons_of_mem text hmem)

theorem expand_withChain_of_eq_ok {frame : Frame} {lines : List Text} (chain : List Route)
    {whole : Expanded} (hexpand : frame.expand lines = .ok whole)
    (h : ∀ route ∈ chain, route ∈ frame.chain ∨ ¬ Meets frame.files frame.base lines route) :
    (frame.withChain chain).expand lines = .ok whole := by
  rw [expand_eq_run] at hexpand ⊢
  rcases run_withChain h 1 .empty with ⟨n, path, -, hcycle⟩ | heq
  · rw [hcycle] at hexpand
    cases hexpand
  · rw [heq, hexpand]

/-! ## Runs that may differ -/

/-- **A chain only adds reports of cycles.** Lines that do not end in a cycle give the same result
under every smaller chain; and where two results differ, the larger chain has closed a path that
the smaller one leaves open. So runs that succeed amount to the same, whatever chains they have. -/
theorem chain_adds_only_cycles (frame : Frame) (lines : List Text) :
    (∀ chain ⊆ frame.chain,
      (¬ EndsInCycle (frame.expand lines) →
        (frame.withChain chain).expand lines = frame.expand lines) ∧
      ∀ n own,
        (¬ EndsInCycle (frame.run n own lines) →
          (frame.withChain chain).run n own lines = frame.run n own lines) ∧
        ((frame.withChain chain).run n own lines ≠ frame.run n own lines →
          EndsInCycleAt (frame.ClosedBeside chain) (frame.run n own lines))) ∧
    ∀ chain chain' n own whole whole', (frame.withChain chain).run n own lines = .ok whole →
      (frame.withChain chain').run n own lines = .ok whole' → whole = whole' := by
  have hsmaller : ∀ larger chain : List Route, chain ⊆ larger → ∀ n own,
      EndsInCycleAt ((frame.withChain larger).ClosedBeside chain)
          ((frame.withChain larger).run n own lines) ∨
        (frame.withChain chain).run n own lines = (frame.withChain larger).run n own lines :=
    fun larger chain hsub n own => run_withChain (fun route hroute => Or.inl (hsub hroute)) n own
  refine ⟨fun chain hsub => ⟨fun hnot => ?_, fun n own => ⟨fun hnot => ?_, fun hne => ?_⟩⟩, ?_⟩
  · rw [expand_eq_run] at hnot ⊢
    rw [expand_eq_run]
    exact (hsmaller frame.chain chain hsub 1 .empty).resolve_left fun h => hnot h.endsInCycle
  · exact (hsmaller frame.chain chain hsub n own).resolve_left fun h => hnot h.endsInCycle
  · exact (hsmaller frame.chain chain hsub n own).resolve_right hne
  · -- both runs are the run under the empty chain
    have hempty : ∀ chain n own whole, (frame.withChain chain).run n own lines = .ok whole →
        (frame.withChain []).run n own lines = .ok whole := by
      intro chain n own whole h
      rcases hsmaller chain [] (List.nil_subset chain) n own with hcycle | heq
      · obtain ⟨m, path, -, herror⟩ := hcycle
        rw [herror] at h
        cases h
      · rw [heq, h]
    intro chain chain' n own whole whole' h h'
    exact Except.ok.inj ((hempty chain n own whole h).symm.trans (hempty chain' n own whole' h'))

/-- The files of `graphFiles`, one of which is being expanded. -/
def graphFrame (file : Text) : Frame where
  files := graphFiles
  base := ⟨['.']⟩
  inherited := .empty
  chain := [(graphFiles.identity (Path.join ⟨['.']⟩ file)).route]

theorem chain_adds_only_cycles_graphFrame :
    (∃ whole, (graphFrame ['a']).expand ["#include(left)".toList] = .ok whole ∧
      whole.output = ["text".toList] ∧
      ((graphFrame ['a']).withChain []).expand ["#include(left)".toList] = .ok whole) ∧
    (∃ whole whole', (graphFrame ['a']).run 3 .empty ["#include(left)".toList] = .ok whole ∧
      (graphFrame ['b']).run 3 .empty ["#include(left)".toList] = .ok whole' ∧ whole = whole') ∧
    ((graphFrame ['a']).expand ["#include(left)".toList, "#var(x)".toList] =
        .error ⟨2, .unbound ['x']⟩ ∧
      ((graphFrame ['a']).withChain []).expand ["#include(left)".toList, "#var(x)".toList] =
        .error ⟨2, .unbound ['x']⟩) ∧
    (((graphFrame "leaf".toList).withChain []).run 3 .empty ["#include(left)".toList] ≠
        (graphFrame "leaf".toList).run 3 .empty ["#include(left)".toList] ∧
      EndsInCycleAt ((graphFrame "leaf".toList).ClosedBeside [])
        ((graphFrame "leaf".toList).run 3 .empty ["#include(left)".toList])) := by
  obtain ⟨whole, hwhole, houtput⟩ : ∃ whole,
      (graphFrame ['a']).expand ["#include(left)".toList] = .ok whole ∧
        whole.output = ["text".toList] :=
    Expanded.map_output_eq_ok_iff.1 (by decide +kernel)
  have hfault : (graphFrame ['a']).expand ["#include(left)".toList, "#var(x)".toList] =
      .error ⟨2, .unbound ['x']⟩ :=
    Expanded.map_output_eq_error_iff.1 (by decide +kernel)
  have hdiffer : ((graphFrame "leaf".toList).withChain []).run 3 .empty ["#include(left)".toList] ≠
      (graphFrame "leaf".toList).run 3 .empty ["#include(left)".toList] :=
    fun heq => absurd (congrArg (Except.map Expanded.output) heq) (by decide +kernel)
  refine ⟨⟨whole, hwhole, houtput, ?_⟩, ?_, ⟨hfault, ?_⟩, hdiffer, ?_⟩
  · rw [((chain_adds_only_cycles (graphFrame ['a']) _).1 [] (by simp)).1, hwhole]
    rintro ⟨n, path, hcycle⟩
    rw [hwhole] at hcycle
    cases hcycle
  · have hrun : ∀ file, ((graphFrame file).run 3 .empty ["#include(left)".toList]).map
        Expanded.output = .ok ["text".toList] → ∃ expanded,
          (graphFrame file).run 3 .empty ["#include(left)".toList] = .ok expanded ∧
            expanded.output = ["text".toList] := fun _ => Expanded.map_output_eq_ok_iff.1
    obtain ⟨whole, hwhole, -⟩ := hrun ['a'] (by decide +kernel)
    obtain ⟨whole', hwhole', -⟩ := hrun ['b'] (by decide +kernel)
    exact ⟨whole, whole', hwhole, hwhole',
      (chain_adds_only_cycles (graphFrame []) _).2 _ _ 3 .empty whole whole' hwhole hwhole'⟩
  · rw [((chain_adds_only_cycles (graphFrame ['a']) _).1 [] (by simp)).1, hfault]
    rintro ⟨n, path, hcycle⟩
    rw [hfault] at hcycle
    cases hcycle
  · exact (((chain_adds_only_cycles (graphFrame "leaf".toList) _).1 [] (by simp)).2 3 .empty).2
      hdiffer

end Frame

/-! ## A file and its lines -/

/-- **Expanding a file is expanding its lines.** Whether a file is on the chain while its own lines
are expanded makes no difference to a run that succeeds, nor to its output. -/
theorem expandFile_iff_expandLines {files : FileSystem} {base : Path} {file : Text}
    {lines : List Text} (hread : files.readLines (base.join file) = .ok lines)
    (inherited : Bindings) (output : List Text) :
    expandFile files base inherited file = .ok output ↔
      expandLines files base inherited lines = .ok output := by
  obtain ⟨location, text, hfile, htext, hlines⟩ := FileSystem.exists_file_of_readLines hread
  rw [Activation.expandFile_eq_ok_iff, Activation.expandLines_eq_ok_iff]
  constructor
  · rintro ⟨opened, hopened, whole, hwhole, houtput⟩
    obtain rfl : lines = opened := Except.ok.inj (hread.symm.trans hopened)
    exact ⟨whole, Frame.expand_withChain_of_eq_ok [] hwhole (by simp), houtput⟩
  · rintro ⟨whole, hwhole, houtput⟩
    refine ⟨lines, hread, whole, Frame.expand_withChain_of_eq_ok _ hwhole ?_, houtput⟩
    -- the one route that is put on the chain is that of the file, and the run never comes back
    intro route hroute
    rw [List.mem_singleton, FileSystem.identity_of_fileAt? hfile] at hroute
    rw [hroute]
    exact Or.inr (not_meets_of_result_eq_ok hwhole htext hlines)

/-- Among the files of `graphFiles` one expands, as a file and as its lines; another one fails in
both ways, with different errors. -/
theorem expandFile_iff_expandLines_graphFiles :
    (graphFiles.readLines (Path.join ⟨['.']⟩ "top".toList) =
        .ok ["#include(left)".toList, "  #include(right)".toList] ∧
      expandLines graphFiles ⟨['.']⟩ .empty ["#include(left)".toList, "  #include(right)".toList] =
        .ok ["text".toList, "  text".toList]) ∧
    (graphFiles.readLines (Path.join ⟨['.']⟩ ['a']) = .ok ["#include(b)".toList] ∧
      expandFile graphFiles ⟨['.']⟩ .empty ['a'] = .error (.line ⟨2, .cycle ⟨"./c".toList⟩⟩) ∧
      expandLines graphFiles ⟨['.']⟩ .empty ["#include(b)".toList] =
        .error ⟨1, .cycle ⟨"./b".toList⟩⟩ ∧
      ∀ output, expandFile graphFiles ⟨['.']⟩ .empty ['a'] = .ok output ↔
        expandLines graphFiles ⟨['.']⟩ .empty ["#include(b)".toList] = .ok output) := by
  have htop : graphFiles.readLines (Path.join ⟨['.']⟩ "top".toList) =
      .ok ["#include(left)".toList, "  #include(right)".toList] := by decide +kernel
  have hloop : graphFiles.readLines (Path.join ⟨['.']⟩ ['a']) = .ok ["#include(b)".toList] := by
    decide +kernel
  refine ⟨⟨htop, (expandFile_iff_expandLines htop .empty _).1 (by decide +kernel)⟩, hloop, ?_, ?_,
    expandFile_iff_expandLines hloop .empty⟩
  all_goals decide +kernel

end LineTemplate
