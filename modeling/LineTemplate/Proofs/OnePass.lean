import LineTemplate.Proofs.Provenance
import LineTemplate.Proofs.Substitution

/-!
# One pass is enough

A run is clean if each `#` on the lines of references that it comes to starts a reference, and no
value that is put in has a `#`. Then nothing that it puts out holds a directive: a line that was
text is text still, however far inclusions move it to the right, and a line of references has lost
each `#` that it had. So the output is final, and whoever expands it again gets it back.

## The architecture

* **`run_eq_self_of_text`** — lines of text expand to themselves, in every frame.
* **`Activation.RunsClean`** — what makes a run clean, and `yields_of_runsClean`, what its lines of
  references become.
* **`kind?_eq_none_of_mem_output`** — a clean run puts out lines of text. The induction is over the
  files that are opened.
* **`clean_run_one_pass`** — the headline.
* **`runsClean_of_lines`** — how to see from lines and files alone that a run is clean.
-/

namespace LineTemplate

open Relation (ReflTransGen)

namespace Frame

/-! ## Lines of text -/

/-- **Lines of text expand to themselves**, and make no bindings. -/
theorem run_eq_self_of_text {lines : List Text}
    (h : ∀ line ∈ lines, (Line.ofText line).kind? = none) (frame : Frame) (n : Nat)
    (own : Bindings) : frame.run n own lines = .ok ⟨own, lines⟩ := by
  induction lines generalizing n with
  | nil => rfl
  | cons line rest ih =>
    have hline : frame.Yields .full n own line ⟨own, [line]⟩ :=
      .text (Line.directive_eq_text_iff.2 (h line List.mem_cons_self))
    have hrest := ih (fun other hmem => h other (List.mem_cons_of_mem line hmem)) (n + 1)
    exact expandFrom_cons_eq_ok_iff.2 ⟨_, _, hline, hrest, rfl⟩

/-! ## A line of references -/

/-- **References on a clean line** become their values, which leave no `#` behind. -/
theorem eq_splice_of_refer {frame : Frame} {own : Bindings} {text written : Text}
    {names : List Text} (hd : (Line.ofText text).directive = .ok (.references names))
    (hclean : text.Clean)
    (hvalues : ∀ name ∈ names, ∀ value,
      (Scope.mk own frame.inherited).lookup name = some value → '#' ∉ value)
    (hrefer : frame.refer own names text = .ok written) :
    ∃ value : Text → Text,
      (∀ name ∈ names, (Scope.mk own frame.inherited).lookup name = some (value name)) ∧
      written = Text.splice value text.referencePieces ∧ '#' ∉ written := by
  obtain ⟨hall, hwritten⟩ := refer_eq_ok_iff.1 hrefer
  have hlookup : ∀ name ∈ names, (Scope.mk own frame.inherited).lookup name =
      some (((Scope.mk own frame.inherited).lookup name).getD []) := by
    intro name hname
    obtain ⟨value, hvalue⟩ := Option.isSome_iff_exists.1 (hall name hname)
    rw [hvalue]
    rfl
  have hnames : ∀ name, name ∈ names ↔ .hit name ∈ text.referencePieces :=
    fun _ => Text.mem_names_iff hd
  have hunmarked : ∀ name ∈ names,
      '#' ∉ ((Scope.mk own frame.inherited).lookup name).getD [] :=
    fun name hname => hvalues name hname _ (hlookup name hname)
  rw [substitute_of_clean hclean hnames hunmarked] at hwritten
  refine ⟨_, hlookup, hwritten, ?_⟩
  rw [hwritten]
  refine Text.not_mem_splice (fun hmark => ?_) fun name hname => ?_
  · exact Text.clean_iff.1 hclean _ hmark rfl
  · exact hunmarked name ((hnames name).2 hname)

end Frame

namespace Activation

/-! ## Clean runs -/

/-- **A run is clean** if each line of references that it comes to, in whatever file, is clean, and
the values of its names have no `#`. -/
def RunsClean (root : Activation) : Prop :=
  ∀ a n own text names, ReflTransGen Calls root a → a.ComesTo n own text →
    (Line.ofText text).directive = .ok (.references names) →
    text.Clean ∧ ∀ name ∈ names, ∀ value,
      (Scope.mk own a.frame.inherited).lookup name = some value → '#' ∉ value

theorem RunsClean.of_calls {a b : Activation} (h : a.RunsClean) (hcall : a.Calls b) :
    b.RunsClean :=
  fun c n own text names hreach => h c n own text names (.head hcall hreach)

/-- What a clean run puts out is text. -/
theorem kind?_eq_none_of_mem_output {a : Activation} {whole : Expanded}
    (h : a.result = .ok whole) (hclean : a.RunsClean) :
    ∀ line ∈ whole.output, (Line.ofText line).kind? = none := by
  obtain ⟨frame, lines⟩ := a
  induction frame, lines using Frame.child_induction generalizing whole with
  | step frame lines ih =>
    intro line hmem
    rw [result, Frame.expand_eq_run] at h
    obtain ⟨front, text, back, before, first, rfl, hfront, hyields, hline⟩ :=
      Frame.exists_yields_of_mem_output h hmem
    cases hyields with
    | text hd =>
      obtain rfl : line = text := List.mem_singleton.1 hline
      exact Line.directive_eq_text_iff.1 hd
    | assignment hd => cases hline
    | config hd hload => cases hline
    | references hd hrefer =>
      obtain rfl := List.mem_singleton.1 hline
      obtain ⟨hcleanText, hvalues⟩ := hclean _ _ _ _ _ .refl
        ⟨front, back, before, rfl, hfront, rfl, rfl⟩ hd
      obtain ⟨-, -, -, hmark⟩ := Frame.eq_splice_of_refer hd hcleanText hvalues hrefer
      -- without a `#` there is no keyword behind the indentation, nor anywhere else
      exact Kind.classify_eq_none fun hbody => hmark ((List.dropWhile_suffix _).subset hbody)
    | inclusion hd hopens hnested =>
      obtain ⟨inner, hinner, rfl⟩ := Nested.full_eq_ok_iff.1 hnested
      obtain ⟨innerLine, hinnerLine, rfl⟩ := List.mem_map.1 hline
      have htext := ih before.own _ _ hopens hinner
        (hclean.of_calls (.inclusion hfront hd hopens)) innerLine hinnerLine
      rw [Line.ofText_spaces_append]
      exact htext

/-! ## The headline -/

/-- **One pass is enough.** In a clean run that succeeds, each line of references becomes its text
with the values in the places of the references, in their order; and what the run puts out expands
to itself from then on, whatever files there are, wherever names are looked up, and whichever files
are being expanded. -/
theorem clean_run_one_pass {root : Activation} {whole : Expanded} (h : root.result = .ok whole)
    (hclean : root.RunsClean) :
    (∀ a n own text names, ReflTransGen Calls root a → a.ComesTo n own text →
      (Line.ofText text).directive = .ok (.references names) →
      ∃ value : Text → Text,
        (∀ name ∈ names, (Scope.mk own a.frame.inherited).lookup name = some (value name)) ∧
        a.frame.expandLine .full n own text =
          .ok ⟨own, [Text.splice value text.referencePieces]⟩) ∧
    (∀ frame : Frame, frame.expand whole.output = .ok ⟨.empty, whole.output⟩) ∧
    ∀ files base inherited,
      expandLines files base inherited whole.output = .ok whole.output := by
  have hself : ∀ frame : Frame, frame.expand whole.output = .ok ⟨.empty, whole.output⟩ := by
    intro frame
    rw [Frame.expand_eq_run]
    exact Frame.run_eq_self_of_text (kind?_eq_none_of_mem_output h hclean) frame 1 .empty
  refine ⟨?_, hself, fun files base inherited => ?_⟩
  · intro a n own text names hreach hcomes hd
    obtain ⟨hcleanText, hvalues⟩ := hclean a n own text names hreach hcomes hd
    obtain ⟨expanded, hexpanded⟩ := succeeds_of_reaches h hreach
    obtain ⟨first, hyields⟩ := hcomes.exists_yields hexpanded
    cases hyields with
    | references hd' hrefer =>
      rw [hd] at hd'
      cases hd'
      obtain ⟨value, hlookup, rfl, -⟩ := Frame.eq_splice_of_refer hd hcleanText hvalues hrefer
      exact ⟨value, hlookup, Frame.Yields.expandLine_eq (.references hd hrefer)⟩
    | _ hd' => rw [hd] at hd'; cases hd'
  · exact expandLines_eq_ok_iff.2 ⟨_, hself _, rfl⟩

end Activation

/-! ## Clean by the lines alone -/

/-- **The files that lines include** themselves. -/
def includedFiles (lines : List Text) : List Text :=
  lines.flatMap fun text =>
    match (Line.ofText text).directive with
    | .ok (.inclusion file) => [file]
    | _ => []

theorem mem_includedFiles {lines : List Text} {text file : Text} (htext : text ∈ lines)
    (hd : (Line.ofText text).directive = .ok (.inclusion file)) : file ∈ includedFiles lines := by
  refine List.mem_flatMap.2 ⟨text, htext, ?_⟩
  simp only [hd, List.mem_singleton]

/-- Bindings to values without `#`. -/
def Bindings.Unmarked (bindings : Bindings) : Prop :=
  ∀ name value, bindings.find? name = some value → '#' ∉ value

/-- **Lines that keep runs clean.** The lines in `texts` include only files whose lines are in
`texts`, too; they refer to names on clean lines only, and assign no value with a `#`. -/
structure KeepsClean (files : FileSystem) (base : Path) (texts : List (List Text)) : Prop where
  closed : ∀ lines ∈ texts, ∀ file ∈ includedFiles lines,
    ∀ inner, files.readLines (base.join file) = .ok inner → inner ∈ texts
  clean : ∀ lines ∈ texts, ∀ text ∈ lines, (Line.ofText text).kind? = some .reference → text.Clean
  unmarked : ∀ lines ∈ texts, ∀ a ∈ assignments files base lines, '#' ∉ a.value

theorem KeepsClean.supplies {files : FileSystem} {base : Path} {texts : List (List Text)}
    (h : KeepsClean files base texts) :
    Supplies files base (· ∈ texts) (fun a => '#' ∉ a.value) where
  opened lines hlines _ htext file hd inner hread :=
    h.closed lines hlines file (mem_includedFiles htext hd) inner hread
  assigned := h.unmarked

namespace Activation

section Criterion

variable {files : FileSystem} {base : Path} {texts : List (List Text)}

/-- An activation of lines in `texts`, which inherits no `#`. -/
structure Within (files : FileSystem) (base : Path) (texts : List (List Text)) (a : Activation) :
    Prop where
  files_eq : a.frame.files = files
  base_eq : a.frame.base = base
  lines_mem : a.lines ∈ texts
  inherited : a.frame.inherited.Unmarked

theorem Within.supplied {a : Activation} (h : Within files base texts a) :
    Supplied files base (· ∈ texts) (fun b => '#' ∉ b.value) a where
  files_eq := h.files_eq
  base_eq := h.base_eq
  good_lines := h.lines_mem
  all_inherited := h.inherited

/-- **A run of lines that keep it clean** is clean. -/
theorem runsClean_of_lines {root : Activation} (hroot : Within files base texts root)
    (hkeeps : KeepsClean files base texts) : root.RunsClean := by
  intro a n own text names hreach hcomes hd
  have hsupplied := hroot.supplied.reaches hkeeps.supplies hreach
  have hown := hsupplied.all_of_binds hkeeps.supplies hcomes.binds
  obtain ⟨front, back, first, hlines, -⟩ := hcomes
  have htext : text ∈ a.lines := by rw [hlines]; simp
  refine ⟨hkeeps.clean a.lines hsupplied.good_lines text htext
    (Line.kind?_of_directive hd).symm, fun name _ value hvalue => ?_⟩
  exact hown.lookup hsupplied.all_inherited hvalue

end Criterion

/-- A file with clean references, one of them twice, and a line of text that has a directive
further to the right. -/
def cleanFiles : FileSystem :=
  FileSystem.ofTexts [("inner".toList, "a #var(x)b#var(y)#var(x)\n# #include(z)".toList)]

def cleanLines : List Text :=
  ["#set(x=\"1\")".toList, "#set(y=\"\")".toList, "  #include(inner)".toList, "#var(y).".toList]

def cleanInner : List Text := ["a #var(x)b#var(y)#var(x)".toList, "# #include(z)".toList]

theorem runsClean_cleanLines : (ofLines cleanFiles ⟨['.']⟩ .empty cleanLines).RunsClean := by
  have hread : ∀ lines ∈ [cleanLines, cleanInner], ∀ file ∈ includedFiles lines,
      cleanFiles.readLines (Path.join ⟨['.']⟩ file) = .ok cleanInner := by decide +kernel
  have hunmarked : ∀ lines ∈ [cleanLines, cleanInner], ∀ text ∈ lines,
      (Line.ofText text).kind? = some .reference →
        ∀ piece ∈ text.referencePieces, piece.Unmarked := by decide +kernel
  have hkeeps : KeepsClean cleanFiles ⟨['.']⟩ [cleanLines, cleanInner] := by
    refine ⟨fun lines hlines file hfile inner hinner => ?_,
      fun lines hlines text htext hkind => ?_, by decide +kernel⟩
    · rw [hread lines hlines file hfile] at hinner
      cases hinner
      simp
    · exact Text.clean_iff.2 (hunmarked lines hlines text htext hkind)
  exact runsClean_of_lines ⟨rfl, rfl, List.mem_cons_self, fun _ _ hvalue => by cases hvalue⟩ hkeeps

theorem clean_run_one_pass_cleanLines :
    (ofLines cleanFiles ⟨['.']⟩ .empty cleanLines).RunsClean ∧
    ∃ whole, (ofLines cleanFiles ⟨['.']⟩ .empty cleanLines).result = .ok whole ∧
      whole.output = ["  a 1b1".toList, "  # #include(z)".toList, ".".toList] ∧
      (∃ own value,
        (ofLines cleanFiles ⟨['.']⟩ .empty cleanLines).ComesTo 4 own "#var(y).".toList ∧
        Frame.expandLine ⟨cleanFiles, ⟨['.']⟩, .empty, []⟩ .full 4 own "#var(y).".toList =
          .ok ⟨own, [Text.splice value (Text.referencePieces "#var(y).".toList)]⟩) ∧
      ∀ frame : Frame, frame.expand ["  a 1b1".toList, "  # #include(z)".toList, ".".toList] =
        .ok ⟨.empty, ["  a 1b1".toList, "  # #include(z)".toList, ".".toList]⟩ := by
  have hexpand : expandLines cleanFiles ⟨['.']⟩ .empty cleanLines =
      .ok ["  a 1b1".toList, "  # #include(z)".toList, ".".toList] := by decide +kernel
  obtain ⟨whole, hwhole, houtput⟩ := expandLines_eq_ok_iff.1 hexpand
  obtain ⟨hlines, hself, -⟩ := clean_run_one_pass hwhole runsClean_cleanLines
  rw [houtput] at hself
  refine ⟨runsClean_cleanLines, whole, hwhole, houtput, ?_, hself⟩
  -- the last line is come to, since the run succeeds
  rw [result, Frame.expand_eq_run] at hwhole
  have hsplit : Frame.run ⟨cleanFiles, ⟨['.']⟩, .empty, []⟩ 1 .empty
      (cleanLines.take 3 ++ ["#var(y).".toList]) = .ok whole := hwhole
  obtain ⟨first, -, hfront, -, -⟩ := Frame.expandFrom_append_eq_ok_iff.1 hsplit
  have hcomes : (ofLines cleanFiles ⟨['.']⟩ .empty cleanLines).ComesTo 4 first.own
      "#var(y).".toList := ⟨cleanLines.take 3, [], first, rfl, hfront, rfl, rfl⟩
  obtain ⟨value, -, hvalue⟩ := hlines _ _ _ _ [['y']] .refl hcomes (by decide +kernel)
  exact ⟨first.own, value, hcomes, hvalue⟩

end Activation

end LineTemplate
