import LineTemplate.FileSystem.Build
import LineTemplate.Proofs.Activation

/-!
# The include graph

Which file includes which is a graph over the regular files, given by their lines alone. An
expansion runs over this graph with nothing but the chain of the files being expanded to go by,
and here the two are compared: a run that succeeds has seen that no cycle can be reached, and a
cycle that is reported is one of the graph.

## The architecture

* **`IncludesAt`**, **`Edge`** — line `n` of a file is an inclusion of a path; some line of a
  file includes another file.
* **`acc_of_result_eq_ok`** — a run of a file's lines that succeeds leaves no endless walk from
  this file. It visits each of their inclusions, so this is an induction over the files that are
  opened.
* **`Trail`** — an activation expands a file that can be reached from the root, and each file of
  its chain reaches that file. A call extends the trail by one edge (`Trail.step`).
* **`expandFile_cycle_exact`** — the headline.
-/

namespace LineTemplate

open Relation (ReflTransGen TransGen)

/-! ## The graph -/

/-- **Line `n` of a file includes a path**, the file name joined with the base directory. -/
def IncludesAt (files : FileSystem) (base : Path) (source : Location) (n : Nat) (path : Path) :
    Prop :=
  ∃ text line file, files.contentAt? source = some (.text text) ∧
    0 < n ∧ text.lines[n - 1]? = some line ∧
    (Line.ofText line).directive = .ok (.inclusion file) ∧ base.join file = path

/-- **The edges of the include graph:** a line of one file includes a path that leads to the
other. -/
def Edge (files : FileSystem) (base : Path) (source target : Location) : Prop :=
  ∃ n path, IncludesAt files base source n path ∧ files.fileAt? path = some target

theorem exists_line_of_edge {files : FileSystem} {base : Path} {source target : Location}
    {text : Text} (htext : files.contentAt? source = some (.text text))
    (h : Edge files base source target) :
    ∃ line file, line ∈ text.lines ∧ (Line.ofText line).directive = .ok (.inclusion file) ∧
      files.fileAt? (base.join file) = some target := by
  obtain ⟨n, path, ⟨text', line, file, htext', -, hget, hd, rfl⟩, htarget⟩ := h
  rw [htext] at htext'
  cases htext'
  exact ⟨line, file, List.mem_of_getElem? hget, hd, htarget⟩

/-- Where no endless walk starts, no cycle can be reached. -/
theorem not_transGen_self_of_acc {α : Type} {r : α → α → Prop} {a : α}
    (h : Acc (Function.swap r) a) : ∀ b, ReflTransGen r a b → ¬ TransGen r b b := by
  induction h with
  | intro a _ ih =>
    intro b hreach hcycle
    rcases hreach.cases_head with rfl | ⟨c, hstep, hrest⟩
    · -- the cycle leaves `a` by some edge, and can be reached again behind it
      obtain ⟨c, hstep, hback⟩ := TransGen.head'_iff.1 hcycle
      exact ih c hstep a hback hcycle
    · exact ih c hstep b hrest hcycle

/-! ## Runs that succeed -/

theorem includesAt_of_append {files : FileSystem} {base : Path} {source : Location}
    {text line file : Text} {front back : List Text}
    (htext : files.contentAt? source = some (.text text))
    (hlines : text.lines = front ++ line :: back)
    (hd : (Line.ofText line).directive = .ok (.inclusion file)) :
    IncludesAt files base source (front.length + 1) (base.join file) := by
  refine ⟨text, line, file, htext, by omega, ?_, hd, rfl⟩
  rw [hlines, Nat.add_sub_cancel, List.getElem?_append_right (Nat.le_refl _), Nat.sub_self]
  rfl

theorem edge_of_mem {files : FileSystem} {base : Path} {source target : Location}
    {text line file : Text} (htext : files.contentAt? source = some (.text text))
    (hmem : line ∈ text.lines) (hd : (Line.ofText line).directive = .ok (.inclusion file))
    (htarget : files.fileAt? (base.join file) = some target) : Edge files base source target := by
  obtain ⟨front, back, hlines⟩ := List.append_of_mem hmem
  exact ⟨_, _, includesAt_of_append htext hlines hd, htarget⟩

/-- **A run of a file's lines that succeeds** leaves no endless walk from this file. -/
theorem acc_of_result_eq_ok {a : Activation} {whole : Expanded} (h : a.result = .ok whole)
    {source : Location} {text : Text} (htext : a.frame.files.contentAt? source = some (.text text))
    (hlines : text.lines = a.lines) :
    Acc (Function.swap (Edge a.frame.files a.frame.base)) source := by
  obtain ⟨frame, lines⟩ := a
  induction frame, lines using Frame.child_induction generalizing whole source text with
  | step frame lines ih =>
    refine Acc.intro source fun next hedge => ?_
    obtain ⟨line, file, hmem, hd, hnext⟩ := exists_line_of_edge htext hedge
    rw [hlines] at hmem
    -- the edge is an inclusion of these lines, so its file is opened and its lines succeed, too
    obtain ⟨own, inner, expanded, -, hopens, hresult⟩ := Activation.exists_calls h hmem hd
    obtain ⟨location, inside, hfile, hinside, hinner, -⟩ := hopens.exists_file
    obtain rfl : next = location := Option.some.inj (hnext.symm.trans hfile)
    exact ih own _ inner hopens hresult hinside hinner

/-! ## Runs that report a cycle -/

/-- **A trail to a file:** the activation expands the file `here`, which can be reached from the
root, and each file on the chain reaches it. -/
structure Trail (files : FileSystem) (base : Path) (root here : Location) (a : Activation) :
    Prop where
  files_eq : a.frame.files = files
  base_eq : a.frame.base = base
  lines_eq : ∃ text, files.contentAt? here = some (.text text) ∧ text.lines = a.lines
  reach : ReflTransGen (Edge files base) root here
  chain : ∀ route ∈ a.frame.chain, ∃ location : Location, location.path.route = route ∧
    ReflTransGen (Edge files base) location here

variable {files : FileSystem} {base : Path} {root here : Location}

theorem Trail.start {inherited : Bindings} {path : Path} {lines : List Text}
    (hread : files.readLines path = .ok lines) :
    ∃ location, files.fileAt? path = some location ∧
      Trail files base location location (.ofFile files base inherited path lines) := by
  obtain ⟨location, text, hfile, htext, hlines⟩ := FileSystem.exists_file_of_readLines hread
  refine ⟨location, hfile, rfl, rfl, ⟨text, htext, hlines⟩, .refl, ?_⟩
  intro route hroute
  simp only [Activation.ofFile, List.mem_singleton, FileSystem.identity_of_fileAt? hfile] at hroute
  exact ⟨location, hroute.symm, .refl⟩

/-- A call extends the trail by one edge. -/
theorem Trail.step {a b : Activation} (h : Trail files base root here a) (hcall : a.Calls b) :
    ∃ next, Edge files base here next ∧ Trail files base root next b := by
  cases hcall with
  | @inclusion frame front back lines line file first _ hd hopens =>
    obtain ⟨rfl, rfl, ⟨text, htext, hlines⟩, hreach, hchain⟩ := h
    obtain ⟨next, text', hfile, htext', hlines', hroute⟩ := hopens.exists_file
    have hedge : Edge frame.files frame.base here next :=
      ⟨_, _, includesAt_of_append htext hlines hd, hfile⟩
    refine ⟨next, hedge, rfl, rfl, ⟨text', htext', hlines'⟩, hreach.tail hedge, ?_⟩
    intro route hmem
    rcases List.mem_cons.1 hmem with rfl | hmem
    · exact ⟨next, hroute.symm, .refl⟩
    · obtain ⟨location, heq, hback⟩ := hchain route hmem
      exact ⟨location, heq, hback.tail hedge⟩

theorem Trail.reaches {a b : Activation} (h : Trail files base root here a)
    (hreach : ReflTransGen Activation.Calls a b) : ∃ last, Trail files base root last b := by
  induction hreach with
  | refl => exact ⟨here, h⟩
  | tail _ hcall ih =>
    obtain ⟨last, htrail⟩ := ih
    obtain ⟨next, -, hnext⟩ := htrail.step hcall
    exact ⟨next, hnext⟩

/-- **A cycle that an activation reports is closed** by the line that is reported: it includes a
file from which the activation's own file can be reached. -/
theorem Trail.includesAt_of_cycle {a : Activation} (h : Trail files base root here a) {n : Nat}
    {path : Path} (hfails : a.FailsAt ⟨n, .cycle path⟩) {target : Location}
    (htarget : files.fileAt? path = some target) :
    IncludesAt files base here n path ∧ ReflTransGen (Edge files base) target here := by
  obtain ⟨frame, lines⟩ := a
  obtain ⟨rfl, rfl, ⟨text, htext, hlines⟩, -, hchain⟩ := h
  obtain ⟨front, line, back, first, rfl, -, hn, hfaulty⟩ := hfails
  obtain ⟨file, hd, rfl, hmem⟩ := Frame.faulty_cycle_iff.1 hfaulty
  obtain rfl : n = front.length + 1 := hn
  refine ⟨includesAt_of_append htext hlines hd, ?_⟩
  -- the path has the route of a file on the chain, and different files have different routes
  obtain ⟨location, heq, hback⟩ := hchain _ hmem
  rw [Frame.routeOf, FileSystem.identity_of_fileAt? htarget] at heq
  rw [Location.route_path_inj.1 heq] at hback
  exact hback

/-! ## The headline -/

theorem not_cycle_of_expandFile_eq_ok {inherited : Bindings} {file : Text} {output : List Text}
    (h : expandFile files base inherited file = .ok output) :
    ∃ root, files.fileAt? (base.join file) = some root ∧
      ∀ here, ReflTransGen (Edge files base) root here →
        ¬ TransGen (Edge files base) here here := by
  obtain ⟨lines, hread, whole, hwhole, -⟩ := Activation.expandFile_eq_ok_iff.1 h
  obtain ⟨root, text, hroot, htext, rfl⟩ := FileSystem.exists_file_of_readLines hread
  exact ⟨root, hroot, not_transGen_self_of_acc (acc_of_result_eq_ok hwhole htext rfl)⟩

theorem includesAt_of_expandFile_eq_cycle {inherited : Bindings} {file : Text} {n : Nat}
    {path : Path} {target : Location}
    (h : expandFile files base inherited file = .error (.line ⟨n, .cycle path⟩))
    (htarget : files.fileAt? path = some target) :
    ∃ root here, files.fileAt? (base.join file) = some root ∧
      ReflTransGen (Edge files base) root here ∧ IncludesAt files base here n path ∧
      ReflTransGen (Edge files base) target here := by
  obtain ⟨lines, hread, hresult⟩ := Activation.expandFile_eq_line_iff.1 h
  obtain ⟨root, hroot, hstart⟩ := Trail.start hread
  obtain ⟨b, hreach, hfails⟩ := Activation.exists_failsAt hresult
  obtain ⟨here, htrail⟩ := hstart.reaches hreach
  obtain ⟨hincludes, hback⟩ := htrail.includesAt_of_cycle hfails htarget
  exact ⟨root, here, hroot, htrail.reach, hincludes, hback⟩

/-- **Cycles are reported exactly.** If a file expands, then no cycle of the include graph can be
reached from it. If its expansion reports a cycle at line `n`, for a path that leads to a file,
then some file that can be reached has an inclusion of that path on its line `n` and can itself
be reached from the file that the path leads to. So a file that is on no cycle is never
reported, however often it is included. -/
theorem expandFile_cycle_exact (files : FileSystem) (base : Path) (inherited : Bindings)
    (file : Text) :
    (∀ output, expandFile files base inherited file = .ok output →
      ∃ root, files.fileAt? (base.join file) = some root ∧
        ∀ here, ReflTransGen (Edge files base) root here → ¬ TransGen (Edge files base) here here) ∧
    (∀ n path target,
      expandFile files base inherited file = .error (.line ⟨n, .cycle path⟩) →
      files.fileAt? path = some target →
      ∃ root here, files.fileAt? (base.join file) = some root ∧
        ReflTransGen (Edge files base) root here ∧ IncludesAt files base here n path ∧
        ReflTransGen (Edge files base) target here) ∧
    ∀ path target, files.fileAt? path = some target →
      ¬ TransGen (Edge files base) target target →
      ∀ n, expandFile files base inherited file ≠ .error (.line ⟨n, .cycle path⟩) := by
  refine ⟨fun output h => not_cycle_of_expandFile_eq_ok h,
    fun n path target h htarget => includesAt_of_expandFile_eq_cycle h htarget, ?_⟩
  intro path target htarget hacyclic n h
  obtain ⟨root, here, -, -, hincludes, hback⟩ := includesAt_of_expandFile_eq_cycle h htarget
  exact hacyclic (TransGen.tail' hback ⟨n, path, hincludes, htarget⟩)

/-- Two files that include a third one, and two that include each other, one of them under the
name of a link. -/
def graphFiles : FileSystem :=
  (FileSystem.ofTexts [
    ("top".toList, "#include(left)\n  #include(right)".toList),
    ("left".toList, "#include(leaf)".toList),
    ("right".toList, "#include(../leaf)".toList),
    ("leaf".toList, "text".toList),
    (['a'], "#include(b)".toList),
    (['b'], "text\n  #include(c)".toList)]).place ⟨['c']⟩ (.link ⟨['a']⟩)

theorem expandFile_cycle_exact_graphFiles :
    (expandFile graphFiles ⟨['.']⟩ .empty "top".toList = .ok ["text".toList, "  text".toList] ∧
      expandFile graphFiles ⟨['.']⟩ .empty ['a'] = .error (.line ⟨2, .cycle ⟨"./c".toList⟩⟩) ∧
      graphFiles.fileAt? ⟨"./c".toList⟩ = some [⟨['a'], by decide⟩] ∧
      ∃ leaf, graphFiles.fileAt? ⟨"./leaf".toList⟩ = some leaf ∧
        ¬ TransGen (Edge graphFiles ⟨['.']⟩) leaf leaf) ∧
    (∃ root, graphFiles.fileAt? (Path.join ⟨['.']⟩ "top".toList) = some root ∧
      ∀ here, ReflTransGen (Edge graphFiles ⟨['.']⟩) root here →
        ¬ TransGen (Edge graphFiles ⟨['.']⟩) here here) ∧
    (∃ root here, graphFiles.fileAt? (Path.join ⟨['.']⟩ ['a']) = some root ∧
      ReflTransGen (Edge graphFiles ⟨['.']⟩) root here ∧
      IncludesAt graphFiles ⟨['.']⟩ here 2 ⟨"./c".toList⟩ ∧
      ReflTransGen (Edge graphFiles ⟨['.']⟩) [⟨['a'], by decide⟩] here) ∧
    ∀ n, expandFile graphFiles ⟨['.']⟩ .empty "top".toList ≠
      .error (.line ⟨n, .cycle ⟨"./leaf".toList⟩⟩) := by
  have htop : expandFile graphFiles ⟨['.']⟩ .empty "top".toList =
      .ok ["text".toList, "  text".toList] := by decide +kernel
  have hloop : expandFile graphFiles ⟨['.']⟩ .empty ['a'] =
      .error (.line ⟨2, .cycle ⟨"./c".toList⟩⟩) := by decide +kernel
  have hlink : graphFiles.fileAt? ⟨"./c".toList⟩ = some [⟨['a'], by decide⟩] := by decide +kernel
  have hplain : expandFile graphFiles ⟨['.']⟩ .empty "leaf".toList = .ok ["text".toList] := by
    decide +kernel
  obtain ⟨hreached, -, hreport⟩ := expandFile_cycle_exact graphFiles ⟨['.']⟩ .empty "top".toList
  -- the leaf is on no cycle, since it expands
  obtain ⟨leaf, hleaf, hacyclic⟩ :=
    (expandFile_cycle_exact graphFiles ⟨['.']⟩ .empty "leaf".toList).1 _ hplain
  have hself : ¬ TransGen (Edge graphFiles ⟨['.']⟩) leaf leaf := hacyclic leaf .refl
  exact ⟨⟨htop, hloop, hlink, leaf, hleaf, hself⟩, hreached _ htop,
    (expandFile_cycle_exact graphFiles ⟨['.']⟩ .empty ['a']).2.1 _ _ _ hloop hlink,
    hreport _ leaf hleaf hself⟩

end LineTemplate
