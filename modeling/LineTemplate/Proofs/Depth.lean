import LineTemplate.Proofs.Step
import Mathlib.Data.Finset.Card

/-!
# The depth of nested files

`Frame.expand` follows inclusions to a depth that is fixed beforehand, the number of files
listed. Here that depth is shown to bound nothing: each file that is opened was not on the chain
and is on it from then on, so the files that are not on the chain yet become fewer with each
level.

## The architecture

* **`FileSystem.regularFiles`** — the locations of all regular files there are.
* **`Frame.unopened`** — those that are not on the frame's chain, and the measure of every
  recursion over included files: `Opens.card_unopened_lt`.
* **`Frame.child_induction`** — what holds of lines as soon as it holds of all files that they
  open holds of all lines.
* **`Nested.upTo`** — nested expansion to a given depth, with anything whatsoever below it.
* **`expandFrom_upTo_eq`** — from the number of unopened files on, neither the depth nor what
  lies below it makes a difference.
* **`Frame.run`**, **`expand_eq_run`** — so a file's lines are expanded by `Frame.expandFrom`
  with included files expanded in just the same way. Later proofs start from this equation.
-/

namespace LineTemplate

/-! ## The regular files -/

namespace FileSystem

variable {files : FileSystem} {location : Location}

/-- **The locations of the regular files** there are. -/
def regularFiles (files : FileSystem) : Finset Location :=
  (files.entries.map Prod.fst).toFinset.filter fun location =>
    (files.contentAt? location).isSome

theorem mem_entries_of_contentAt? (h : (files.contentAt? location).isSome) :
    ∃ entry, (location, entry) ∈ files.entries ∧ entry.isFile := by
  unfold contentAt? at h
  split at h
  · next content hentry =>
    unfold entryAt? at hentry
    split at hentry
    · cases hentry
    · obtain ⟨⟨there, entry⟩, hfind, rfl⟩ := Option.map_eq_some_iff.1 hentry
      obtain rfl : there = location := by simpa using List.find?_some hfind
      exact ⟨_, List.mem_of_find?_eq_some hfind, rfl⟩
  · cases h

@[simp] theorem mem_regularFiles :
    location ∈ files.regularFiles ↔ (files.contentAt? location).isSome := by
  unfold regularFiles
  rw [Finset.mem_filter, List.mem_toFinset, and_iff_right_iff_imp]
  intro h
  -- the root is not listed, but it is no regular file either
  obtain ⟨entry, hentry, -⟩ := mem_entries_of_contentAt? h
  exact List.mem_map.2 ⟨_, hentry, rfl⟩

theorem card_regularFiles_le (files : FileSystem) : files.regularFiles.card ≤ files.fileCount := by
  have hsub : files.regularFiles ⊆
      ((files.entries.filter (·.2.isFile)).map Prod.fst).toFinset := by
    intro location h
    obtain ⟨entry, hentry, hfile⟩ := mem_entries_of_contentAt? (mem_regularFiles.1 h)
    exact List.mem_toFinset.2 (List.mem_map.2 ⟨_, List.mem_filter.2 ⟨hentry, hfile⟩, rfl⟩)
  -- a location that is listed twice counts twice on the right
  calc files.regularFiles.card
      ≤ ((files.entries.filter (·.2.isFile)).map Prod.fst).toFinset.card :=
        Finset.card_le_card hsub
    _ ≤ ((files.entries.filter (·.2.isFile)).map Prod.fst).length := List.toFinset_card_le _
    _ = files.fileCount := by rw [List.length_map, fileCount, List.countP_eq_length_filter]

theorem exists_file_of_readLines {path : Path} {lines : List Text}
    (h : files.readLines path = .ok lines) :
    ∃ location text, files.fileAt? path = some location ∧
      files.contentAt? location = some (.text text) ∧ text.lines = lines := by
  obtain ⟨text, hcontent, hlines⟩ := readLines_eq_ok_iff.1 h
  obtain ⟨location, hfile, htext⟩ := Option.bind_eq_some_iff.1 hcontent
  exact ⟨location, text, hfile, htext, hlines⟩

end FileSystem

namespace Frame

/-! ## The measure -/

/-- **The files that are not on the chain** yet. -/
def unopened (frame : Frame) : Finset Location :=
  frame.files.regularFiles.filter fun location => location.path.route ∉ frame.chain

theorem card_unopened_le (frame : Frame) : frame.unopened.card ≤ frame.files.regularFiles.card :=
  Finset.card_filter_le _ _

/-- The file that is opened, known by the route of its canonical path. -/
theorem Opens.exists_file {frame : Frame} {path : Path} {lines : List Text}
    (h : frame.Opens path lines) :
    ∃ location text, frame.files.fileAt? path = some location ∧
      frame.files.contentAt? location = some (.text text) ∧ text.lines = lines ∧
      frame.routeOf path = location.path.route := by
  obtain ⟨location, text, hfile, htext, hlines⟩ := FileSystem.exists_file_of_readLines h.read
  refine ⟨location, text, hfile, htext, hlines, ?_⟩
  rw [routeOf, FileSystem.identity_of_fileAt? hfile]

/-- **Each file that is opened leaves one file fewer to open.** -/
theorem Opens.card_unopened_lt {frame : Frame} {path : Path} {lines : List Text}
    (h : frame.Opens path lines) (own : Bindings) :
    (frame.child own path).unopened.card < frame.unopened.card := by
  obtain ⟨location, text, -, htext, -, hroute⟩ := h.exists_file
  have hsub : (frame.child own path).unopened ⊆ frame.unopened := by
    intro other hother
    obtain ⟨hfile, hchain⟩ := Finset.mem_filter.1 hother
    exact Finset.mem_filter.2 ⟨hfile, fun hmem => hchain (List.mem_cons_of_mem _ hmem)⟩
  -- the opened file is unopened in the frame, and on the chain of the child
  have hmem : location ∈ frame.unopened := by
    refine Finset.mem_filter.2 ⟨FileSystem.mem_regularFiles.2 (by rw [htext]; rfl), ?_⟩
    rw [← hroute]
    exact h.fresh
  have hnot : location ∉ (frame.child own path).unopened := by
    intro hchild
    apply (Finset.mem_filter.1 hchild).2
    rw [← hroute]
    show frame.routeOf path ∈ frame.routeOf path :: frame.chain
    exact List.mem_cons_self
  have hssub : (frame.child own path).unopened ⊂ frame.unopened :=
    (Finset.ssubset_iff_of_subset hsub).2 ⟨location, hmem, hnot⟩
  exact Finset.card_lt_card hssub

/-- **Induction over included files.** -/
theorem child_induction {motive : Frame → List Text → Prop}
    (step : ∀ frame lines,
      (∀ own path inner, frame.Opens path inner → motive (frame.child own path) inner) →
        motive frame lines)
    (frame : Frame) (lines : List Text) : motive frame lines := by
  induction hcard : frame.unopened.card using Nat.strongRecOn generalizing frame lines with
  | ind n ih =>
    apply step
    intro own path inner hopens
    have hlt := hopens.card_unopened_lt own
    exact ih _ (by omega) _ inner rfl

end Frame

/-! ## Expansion to a given depth -/

/-- **Nested expansion to a given depth:** at most `depth` files one inside the other, and the
lines of a file that would go deeper are left to `beyond`. -/
def Nested.upTo (beyond : Nested) : (depth : Nat) → Nested
  | 0 => beyond
  | depth + 1 => fun inner _ _ lines =>
    (inner.expandFrom (Nested.upTo beyond depth) 1 .empty lines).map Expanded.output

def Nested.full : Nested := fun inner _ _ lines => (inner.expand lines).map Expanded.output

theorem Nested.full_eq_ok_iff {inner : Frame} {n : Nat} {path : Path} {lines output : List Text} :
    Nested.full inner n path lines = .ok output ↔
      ∃ expanded, inner.expand lines = .ok expanded ∧ expanded.output = output :=
  Expanded.map_output_eq_ok_iff

theorem Nested.full_eq_error_iff {inner : Frame} {n : Nat} {path : Path} {lines : List Text}
    {e : LineError} :
    Nested.full inner n path lines = .error e ↔ inner.expand lines = .error e :=
  Expanded.map_output_eq_error_iff

def Nested.cycle : Nested := fun _ n path _ => .error ⟨n, .cycle path⟩

namespace Frame

/-- **The depth bounds nothing.** Where all unopened files fit one inside the other, a larger
depth and another continuation below it give the same. -/
theorem expandFrom_upTo_eq {beyond beyond' : Nested} {depth depth' : Nat} {frame : Frame}
    (h : frame.unopened.card ≤ depth) (h' : frame.unopened.card ≤ depth') (n : Nat)
    (own : Bindings) (lines : List Text) :
    frame.expandFrom (.upTo beyond depth) n own lines =
      frame.expandFrom (.upTo beyond' depth') n own lines := by
  induction depth generalizing depth' frame n own lines with
  | zero =>
    -- no file is left to open, so nested expansions are never asked for
    apply expandFrom_congr
    intro m own' path inner hopens
    have hlt := hopens.card_unopened_lt own'
    omega
  | succ depth ih =>
    apply expandFrom_congr
    intro m own' path inner hopens
    have hlt := hopens.card_unopened_lt own'
    obtain ⟨below, rfl⟩ : ∃ below, depth' = below + 1 := ⟨depth' - 1, by omega⟩
    have hbelow : (frame.child own' path).unopened.card ≤ below := by omega
    simp only [Nested.upTo]
    rw [ih (by omega) hbelow]

theorem expandWithin_eq (depth : Nat) (frame : Frame) (lines : List Text) :
    expandWithin depth frame lines = frame.expandFrom (.upTo .cycle depth) 1 .empty lines := by
  induction depth generalizing frame lines with
  | zero => rfl
  | succ depth ih => simp only [expandWithin, ih, Nested.upTo]

/-! ## The recursion -/

/-- **The expansion of lines that stand in the middle of a file:** the first of them is the `n`-th
line, and the bindings `own` were made in front of it. -/
def run (frame : Frame) (n : Nat) (own : Bindings) (lines : List Text) :
    Except LineError Expanded :=
  frame.expandFrom .full n own lines

theorem expandFrom_upTo_eq_run {beyond : Nested} {depth : Nat} {frame : Frame}
    (h : frame.unopened.card ≤ depth) (n : Nat) (own : Bindings) (lines : List Text) :
    frame.expandFrom (.upTo beyond depth) n own lines = frame.run n own lines := by
  have hcount : frame.unopened.card ≤ frame.files.fileCount :=
    frame.card_unopened_le.trans frame.files.card_regularFiles_le
  calc frame.expandFrom (.upTo beyond depth) n own lines
      = frame.expandFrom (.upTo .cycle (frame.files.fileCount + 1)) n own lines :=
        expandFrom_upTo_eq h (by omega) n own lines
    _ = frame.run n own lines := by
        -- the topmost of these levels expands an included file as the whole expansion does
        apply expandFrom_congr
        intro m own' path inner _
        simp only [Nested.upTo, Nested.full, expand, expandWithin_eq]
        rfl

/-- **The recursion.** A file's lines are expanded in order from its first line on, and the files
that they include are expanded in the same way. -/
theorem expand_eq_run (frame : Frame) (lines : List Text) :
    frame.expand lines = frame.run 1 .empty lines := by
  rw [expand, expandWithin_eq]
  exact expandFrom_upTo_eq_run
    (frame.card_unopened_le.trans frame.files.card_regularFiles_le) 1 .empty lines

end Frame

end LineTemplate
