import LineTemplate.FileSystem.Build
import LineTemplate.Proofs.Activation

/-!
# The leaves of the include tree

An expansion moves the whole output of an included file to the right, once for each file it is
nested in. Read from the top, this is a walk over the tree of included files that carries the
indentation along: each line that comes out is a leaf of the tree, moved to the right by all
inclusions on the way to it.

## The architecture

* **`Leaves`** — the walk. It knows no chain of files and no output but the leaves themselves.
* **`Leaves.unique`** — a walk has one outcome.
* **`leaves_of_run_eq_ok`** — lines that expand have the leaves that the expansion put out, moved
  by the indentation that the walk starts with. The induction is over the files that are opened
  and, in each, over its lines.
* **`output_eq_leaves`** — the headline: the output is the leaves, from indentation zero.
-/

namespace LineTemplate

/-! ## The walk -/

/-- **The leaves of lines**, met with `indentation` spaces to go in front of each, where a file
inherits `inherited` and has made the bindings `own`. The chain of the files being expanded has
no part in it. -/
inductive Leaves (files : FileSystem) (base : Path) :
    (inherited : Bindings) → (indentation : Nat) → (own : Bindings) → (lines : List Text) →
      (leaves : List Text) → Prop where
  | nil {inherited : Bindings} {d : Nat} {own : Bindings} :
      Leaves files base inherited d own [] []
  | text {inherited : Bindings} {d : Nat} {own : Bindings} {line : Text}
      {rest leaves : List Text} (h : (Line.ofText line).directive = .ok .text)
      (hrest : Leaves files base inherited d own rest leaves) :
      Leaves files base inherited d own (line :: rest) ((Text.spaces d ++ line) :: leaves)
  | assignment {inherited : Bindings} {d : Nat} {own : Bindings} {line : Text}
      {rest leaves : List Text} {a : Assignment}
      (h : (Line.ofText line).directive = .ok (.assignment a))
      (hrest : Leaves files base inherited d (own.assign a) rest leaves) :
      Leaves files base inherited d own (line :: rest) leaves
  | config {inherited : Bindings} {d : Nat} {own : Bindings} {line : Text}
      {rest leaves : List Text} {file : Text} {loaded : Bindings}
      (h : (Line.ofText line).directive = .ok (.config file))
      (hload : Frame.load ⟨files, base, inherited, []⟩ own file = .ok loaded)
      (hrest : Leaves files base inherited d loaded rest leaves) :
      Leaves files base inherited d own (line :: rest) leaves
  | references {inherited : Bindings} {d : Nat} {own : Bindings} {line : Text}
      {rest leaves : List Text} {names : List Text} {written : Text}
      (h : (Line.ofText line).directive = .ok (.references names))
      (hrefer : Frame.refer ⟨files, base, inherited, []⟩ own names line = .ok written)
      (hrest : Leaves files base inherited d own rest leaves) :
      Leaves files base inherited d own (line :: rest) ((Text.spaces d ++ written) :: leaves)
  | inclusion {inherited : Bindings} {d : Nat} {own : Bindings} {line : Text}
      {rest leaves : List Text} {file : Text} {lines inner : List Text}
      (h : (Line.ofText line).directive = .ok (.inclusion file))
      (hread : files.readLines (base.join file) = .ok lines)
      (hinner : Leaves files base own (d + (Line.ofText line).indentation) .empty lines inner)
      (hrest : Leaves files base inherited d own rest leaves) :
      Leaves files base inherited d own (line :: rest) (inner ++ leaves)

/-- **A walk has one outcome.** The directive of the first line decides how it goes on. -/
theorem Leaves.unique {files : FileSystem} {base : Path} {inherited own : Bindings} {d : Nat}
    {lines leaves leaves' : List Text} (h : Leaves files base inherited d own lines leaves)
    (h' : Leaves files base inherited d own lines leaves') : leaves = leaves' := by
  induction h generalizing leaves' with
  | nil => cases h'; rfl
  | text hd _ ih =>
    cases h' with
    | text _ hrest' => rw [ih hrest']
    | assignment hd' | config hd' | references hd' | inclusion hd' => rw [hd] at hd'; cases hd'
  | assignment hd _ ih =>
    cases h' with
    | assignment hd' hrest' =>
      rw [hd] at hd'
      cases hd'
      exact ih hrest'
    | text hd' | config hd' | references hd' | inclusion hd' => rw [hd] at hd'; cases hd'
  | config hd hload _ ih =>
    cases h' with
    | config hd' hload' hrest' =>
      rw [hd] at hd'
      cases hd'
      rw [hload] at hload'
      cases hload'
      exact ih hrest'
    | text hd' | assignment hd' | references hd' | inclusion hd' => rw [hd] at hd'; cases hd'
  | references hd hrefer _ ih =>
    cases h' with
    | references hd' hrefer' hrest' =>
      rw [hd] at hd'
      cases hd'
      rw [hrefer] at hrefer'
      cases hrefer'
      rw [ih hrest']
    | text hd' | assignment hd' | config hd' | inclusion hd' => rw [hd] at hd'; cases hd'
  | inclusion hd hread _ _ ihinner ih =>
    cases h' with
    | inclusion hd' hread' hinner' hrest' =>
      rw [hd] at hd'
      cases hd'
      -- both walks enter the same file, with the same indentation to go in front
      rw [hread] at hread'
      cases hread'
      rw [ihinner hinner', ih hrest']
    | text hd' | assignment hd' | config hd' | references hd' => rw [hd] at hd'; cases hd'

/-! ## The expansion walks the tree -/

/-- **Lines that expand have leaves**, whatever indentation the walk starts with: the output, moved
to the right by it. -/
theorem leaves_of_run_eq_ok {frame : Frame} {n : Nat} {own : Bindings} {lines : List Text}
    {whole : Expanded} (h : frame.run n own lines = .ok whole) (d : Nat) :
    Leaves frame.files frame.base frame.inherited d own lines
      (whole.output.map (Text.spaces d ++ ·)) := by
  induction frame, lines using Frame.child_induction generalizing n own whole d with
  | step frame lines ihfile =>
    -- the files that are opened keep their induction hypothesis while the lines are gone through
    induction lines generalizing n own whole with
    | nil =>
      cases h
      exact .nil
    | cons line rest ihrest =>
      obtain ⟨first, others, hfirst, hothers, rfl⟩ := Frame.expandFrom_cons_eq_ok_iff.1 h
      have hrest := ihrest hothers
      rw [List.map_append]
      cases hfirst with
      | text hd => exact .text hd hrest
      | assignment hd => exact .assignment hd hrest
      | config hd hload => exact .config hd hload hrest
      | references hd hrefer => exact .references hd hrefer hrest
      | @inclusion file inner output hd hopens hnested =>
        obtain ⟨expanded, hexpanded, rfl⟩ := Nested.full_eq_ok_iff.1 hnested
        rw [Frame.expand_eq_run] at hexpanded
        have hinner := ihfile own (frame.base.join file) inner hopens hexpanded
          (d + (Line.ofText line).indentation)
        -- the expansion moves the file's output twice, the walk moves each leaf at once
        rw [Text.map_spaces_map_spaces]
        exact .inclusion hd hopens.read hinner hrest

/-- **The output is the leaves of the include tree.** Lines that expand put out, in order, the
leaves that the walk meets from indentation zero, and the walk meets nothing else. -/
theorem output_eq_leaves :
    (∀ (frame : Frame) (n : Nat) (own : Bindings) (lines : List Text) (whole : Expanded),
      frame.run n own lines = .ok whole → ∀ leaves,
        Leaves frame.files frame.base frame.inherited 0 own lines leaves ↔
          leaves = whole.output) ∧
    ∀ (files : FileSystem) (base : Path) (inherited : Bindings) (lines output : List Text),
      expandLines files base inherited lines = .ok output → ∀ leaves,
        Leaves files base inherited 0 .empty lines leaves ↔ leaves = output := by
  have hrun : ∀ (frame : Frame) (n : Nat) (own : Bindings) (lines : List Text)
      (whole : Expanded), frame.run n own lines = .ok whole → ∀ leaves,
        Leaves frame.files frame.base frame.inherited 0 own lines leaves ↔
          leaves = whole.output := by
    intro frame n own lines whole h leaves
    have hleaves := leaves_of_run_eq_ok h 0
    have hzero : whole.output.map (Text.spaces 0 ++ ·) = whole.output := List.map_id _
    rw [hzero] at hleaves
    constructor
    · intro h'
      exact h'.unique hleaves
    · rintro rfl
      exact hleaves
  refine ⟨hrun, fun files base inherited lines output h leaves => ?_⟩
  obtain ⟨whole, hwhole, rfl⟩ := Activation.expandLines_eq_ok_iff.1 h
  rw [Activation.result, Frame.expand_eq_run] at hwhole
  exact hrun _ 1 .empty lines whole hwhole leaves

/-- A file that includes another one, which takes no value from the lines around the outer. -/
def nestedFiles : FileSystem :=
  FileSystem.ofTexts [
    ("outer".toList, "a\n #include(inner)\n#var(x)".toList),
    ("inner".toList, "#config(settings)\n#var(y)".toList),
    ("settings".toList, "#set(y=\"2\")".toList)]

theorem output_eq_leaves_nestedFiles :
    expandLines nestedFiles ⟨['.']⟩ .empty ["#set(x=\"1\")".toList, "  #include(outer)".toList] =
      .ok ["  a".toList, "   2".toList, "  1".toList] ∧
    (∃ whole, Frame.run ⟨nestedFiles, ⟨['.']⟩, .empty, []⟩ 1 .empty
        ["#set(x=\"1\")".toList, "  #include(outer)".toList] = .ok whole ∧
      Leaves nestedFiles ⟨['.']⟩ .empty 0 .empty
        ["#set(x=\"1\")".toList, "  #include(outer)".toList] whole.output) ∧
    ∀ leaves, Leaves nestedFiles ⟨['.']⟩ .empty 0 .empty
      ["#set(x=\"1\")".toList, "  #include(outer)".toList] leaves ↔
        leaves = ["  a".toList, "   2".toList, "  1".toList] := by
  have hexpand : expandLines nestedFiles ⟨['.']⟩ .empty
      ["#set(x=\"1\")".toList, "  #include(outer)".toList] =
        .ok ["  a".toList, "   2".toList, "  1".toList] := by decide +kernel
  obtain ⟨whole, hwhole, -⟩ := Activation.expandLines_eq_ok_iff.1 hexpand
  rw [Activation.result, Frame.expand_eq_run] at hwhole
  have hleaves := (output_eq_leaves.1 _ 1 .empty _ whole hwhole whole.output).2 rfl
  exact ⟨hexpand, ⟨whole, hwhole, hleaves⟩, output_eq_leaves.2 _ _ _ _ _ hexpand⟩

end LineTemplate
