import LineTemplate.Proofs.Outcome
import LineTemplate.Proofs.Provenance

/-!
# The output reads back as the same lines

No line that is read from a file has a terminator inside, whichever terminators end the lines of
that file. A value is a piece of such a line. So nothing that an expansion puts together has a
terminator inside, unless it was inherited from outside, and lines that are written with one LF
behind each are read as they were.

## The architecture

* **`supplies_unbroken`** — lines without terminators assign values without terminators, and open
  files whose lines are without terminators.
* **`mem_or_exists_of_mem_substitute`** — a substitution brings in characters of values only.
* **`unbroken_of_mem_output`** — no output line has a terminator inside. The induction is over the
  files that are opened.
* **`output_reads_back`** — the headline.
-/

namespace LineTemplate

def UnbrokenLines (lines : List Text) : Prop := ∀ line ∈ lines, line.Unbroken

def Assignment.Unbroken (a : Assignment) : Prop := a.value.Unbroken

/-! ## Values -/

theorem Assignment.unbroken_of_parse? {line : Text} (hline : line.Unbroken) {a : Assignment}
    (h : parse? line = some a) : a.Unbroken := by
  obtain ⟨key, value, -, -, hfound, rfl⟩ := exists_expression_of_parse? h
  intro c hc
  refine hline c (hfound.subset ?_)
  have hvalue := Text.unquote_subset value hc
  simp [Kind.expression, hvalue]

theorem unbrokenLines_of_readLines {files : FileSystem} {path : Path} {lines : List Text}
    (h : files.readLines path = .ok lines) : UnbrokenLines lines := by
  obtain ⟨text, -, rfl⟩ := FileSystem.readLines_eq_ok_iff.1 h
  exact Text.unbroken_of_mem_lines

theorem supplies_unbroken (files : FileSystem) (base : Path) :
    Supplies files base UnbrokenLines Assignment.Unbroken where
  opened _ _ _ _ _ _ _ hread := unbrokenLines_of_readLines hread
  assigned lines hlines a ha := by
    obtain ⟨line, hparse, hline | ⟨path, loaded, hread, hline⟩⟩ :=
      exists_parse?_of_mem_assignments ha
    · exact Assignment.unbroken_of_parse? (hlines line hline) hparse
    · exact Assignment.unbroken_of_parse? (unbrokenLines_of_readLines hread line hline) hparse

/-! ## Output lines -/

/-- A substitution brings in the values, and no other character. -/
theorem mem_or_exists_of_mem_substitute {values : List (Text × Text)} {text : Text} {c : Char}
    (h : c ∈ substitute values text) : c ∈ text ∨ ∃ pair ∈ values, c ∈ pair.2 := by
  induction values generalizing text with
  | nil => exact Or.inl h
  | cons pair rest ih =>
    rcases ih h with hmem | ⟨other, hother, hmem⟩
    · rcases Text.mem_or_mem_of_mem_replaceAll pair.2 hmem with htext | hvalue
      · exact Or.inl htext
      · exact Or.inr ⟨pair, List.mem_cons_self, hvalue⟩
    · exact Or.inr ⟨other, List.mem_cons_of_mem pair hother, hmem⟩

theorem Text.unbroken_spaces (k : Nat) : (Text.spaces k).Unbroken := by
  intro c hc
  rw [List.eq_of_mem_replicate hc]
  rfl

theorem Frame.unbroken_of_refer {frame : Frame} {own : Bindings} {names : List Text}
    {text written : Text} (htext : text.Unbroken) (hown : own.All Assignment.Unbroken)
    (hinherited : frame.inherited.All Assignment.Unbroken)
    (h : frame.refer own names text = .ok written) : written.Unbroken := by
  obtain ⟨hall, rfl⟩ := Frame.refer_eq_ok_iff.1 h
  intro c hc
  rcases mem_or_exists_of_mem_substitute hc with hmem | ⟨pair, hpair, hmem⟩
  · exact htext c hmem
  · obtain ⟨name, hname, rfl⟩ := List.mem_map.1 hpair
    obtain ⟨value, hvalue⟩ := Option.isSome_iff_exists.1 (hall name hname)
    rw [hvalue] at hmem
    exact hown.lookup hinherited hvalue c hmem

namespace Activation

/-- **No output line has a terminator inside,** if no line of the file and no inherited value
has. -/
theorem unbroken_of_mem_output {files : FileSystem} {base : Path} {a : Activation}
    {whole : Expanded} (h : a.result = .ok whole)
    (hsupplied : Supplied files base UnbrokenLines Assignment.Unbroken a) :
    UnbrokenLines whole.output := by
  have hsupplies := supplies_unbroken files base
  obtain ⟨frame, lines⟩ := a
  induction frame, lines using Frame.child_induction generalizing whole with
  | step frame lines ih =>
    intro line hmem
    rw [result, Frame.expand_eq_run] at h
    obtain ⟨front, text, back, before, first, rfl, hfront, hyields, hline⟩ :=
      Frame.exists_yields_of_mem_output h hmem
    have htext : text.Unbroken := hsupplied.good_lines text (by simp)
    cases hyields with
    | text hd =>
      obtain rfl := List.mem_singleton.1 hline
      exact htext
    | assignment hd => cases hline
    | config hd hload => cases hline
    | references hd hrefer =>
      obtain rfl := List.mem_singleton.1 hline
      have hown := hsupplied.all_of_binds hsupplies (.between rfl hfront)
      exact Frame.unbroken_of_refer htext hown hsupplied.all_inherited hrefer
    | inclusion hd hopens hnested =>
      obtain ⟨inner, hinner, rfl⟩ := Nested.full_eq_ok_iff.1 hnested
      obtain ⟨innerLine, hinnerLine, rfl⟩ := List.mem_map.1 hline
      have hcalled := hsupplied.calls hsupplies (.inclusion hfront hd hopens)
      have hunbroken := ih before.own _ _ hopens hinner hcalled innerLine hinnerLine
      exact (Text.unbroken_spaces _).append hunbroken

end Activation

theorem unbrokenLines_of_expandFile {files : FileSystem} {base : Path} {inherited : Bindings}
    {file : Text} {output : List Text} (hinherited : inherited.All Assignment.Unbroken)
    (h : expandFile files base inherited file = .ok output) : UnbrokenLines output := by
  obtain ⟨lines, hread, whole, hwhole, rfl⟩ := Activation.expandFile_eq_ok_iff.1 h
  exact Activation.unbroken_of_mem_output hwhole
    ⟨rfl, rfl, unbrokenLines_of_readLines hread, hinherited⟩

/-! ## The headline -/

/-- **The output reads back as the same lines.** If no inherited value has a CR or an LF inside,
then no line has that a file expands to, and the lines of the written output are the output. So the
file that a successful run writes its output to holds these lines, one LF for each of them; it does
so too if it is the template itself, or a link to a file. A run that lists directives has no output
in this sense, and writes to no file, even if it is given one. -/
theorem output_reads_back :
    (∀ files base inherited file output,
      (∀ name value, inherited.find? name = some value → '\n' ∉ value ∧ '\r' ∉ value) →
      expandFile files base inherited file = .ok output →
        (∀ line ∈ output, '\n' ∉ line ∧ '\r' ∉ line) ∧
          Text.lines (Text.unlines output) = output) ∧
    ∀ files environment arguments options path,
      CommandLine.parse environment arguments = .ok options → options.output = some path →
      (Program.run files environment arguments).exit = 0 →
        (options.listing = none → ∃ output text,
          expandTemplate files (Program.baseOf files options) options.file = .ok output ∧
          (Program.run files environment arguments).files.readLines path = .ok output ∧
          (Program.run files environment arguments).files.readText path = .ok text ∧
          text.count '\n' = output.length) ∧
        (options.listing ≠ none → (Program.run files environment arguments).files = files) := by
  refine ⟨?_, ?_⟩
  · intro files base inherited file output hinherited h
    have hunbroken := unbrokenLines_of_expandFile
      (fun name value hvalue => Text.unbroken_iff.2 (hinherited name value hvalue)) h
    exact ⟨fun line hline => Text.unbroken_iff.1 (hunbroken line hline),
      Text.lines_unlines hunbroken⟩
  · intro files environment arguments options path hparse houtput hexit
    have hends : Program.Ends files options _ := Program.ends_run hparse
    refine ⟨fun hlisting => ?_, hends.files_of_listing⟩
    obtain ⟨-, output, hexpand, hwrite⟩ := hends.exists_saved hlisting houtput hexit
    have hunbroken := unbrokenLines_of_expandFile (Bindings.all_empty _) hexpand
    have htext := FileSystem.readText_of_write hwrite
    have hlines : (Program.run files environment arguments).files.readLines path = .ok output := by
      rw [FileSystem.readLines, htext, Except.map, Text.lines_unlines hunbroken]
    exact ⟨output, _, hexpand, hlines, htext, Text.count_unlines hunbroken⟩

/-- A template with all kinds of terminators, its own parts, and a link to it. -/
def pageFiles : FileSystem :=
  (FileSystem.ofTexts [
    ("settings".toList, "#set(a=\"1\")\r\n".toList),
    ("inner".toList, "x#var(a)\r\ry".toList),
    ("page".toList, "#config(settings)\r\n  #include(inner)\n#var(a)".toList)]).place
    ⟨"out".toList⟩ (.link ⟨"page".toList⟩)

/-- The arguments that write the expanded page in place of the page, through the link. -/
def pageArguments : List Text := ["-f".toList, "page".toList, "-o".toList, "out".toList]

def noEnvironment : Environment := ⟨none, none⟩

/-- The options that these arguments stand for, with or without a listing in front. -/
def pageOptions (listing : Option Listing.Format) : Options :=
  ⟨none, "page".toList, some ⟨"out".toList⟩, listing, 0, false⟩

theorem output_reads_back_pageFiles :
    (expandFile pageFiles ⟨[]⟩ (Bindings.empty.assign ⟨['a'], ['2']⟩) "inner".toList =
        .ok ["x2".toList, [], "y".toList] ∧
      Text.lines (Text.unlines ["x2".toList, [], "y".toList]) = ["x2".toList, [], "y".toList]) ∧
    (CommandLine.parse noEnvironment pageArguments = .ok (pageOptions none) ∧
      (Program.run pageFiles noEnvironment pageArguments).exit = 0 ∧
      ∃ text, (Program.run pageFiles noEnvironment pageArguments).files.readLines
          ⟨"out".toList⟩ = .ok ["  x1".toList, "  ".toList, "  y".toList, "1".toList] ∧
        (Program.run pageFiles noEnvironment pageArguments).files.readText ⟨"out".toList⟩ =
          .ok text ∧ text.count '\n' = 4) ∧
    CommandLine.parse noEnvironment ("--list".toList :: pageArguments) =
        .ok (pageOptions (some .plain)) ∧
      (Program.run pageFiles noEnvironment ("--list".toList :: pageArguments)).exit = 0 ∧
      (Program.run pageFiles noEnvironment ("--list".toList :: pageArguments)).files =
        pageFiles := by
  obtain ⟨hlines, hsaved⟩ := output_reads_back
  refine ⟨?_, ?_, ?_⟩
  · have hexpand : expandFile pageFiles ⟨[]⟩ (Bindings.empty.assign ⟨['a'], ['2']⟩)
        "inner".toList = .ok ["x2".toList, [], "y".toList] := by decide +kernel
    refine ⟨hexpand, (hlines _ _ _ _ _ (fun name value hvalue => ?_) hexpand).2⟩
    rw [Bindings.find?_assign] at hvalue
    split at hvalue
    · cases hvalue
      decide
    · cases hvalue
  · have hparse : CommandLine.parse noEnvironment pageArguments = .ok (pageOptions none) := by
      decide +kernel
    have hexit : (Program.run pageFiles noEnvironment pageArguments).exit = 0 := by
      decide +kernel
    obtain ⟨output, text, hexpand, hread, htext, hcount⟩ :=
      (hsaved _ _ _ _ _ hparse rfl hexit).1 rfl
    have hpage : expandTemplate pageFiles (Program.baseOf pageFiles (pageOptions none))
        (pageOptions none).file =
          .ok ["  x1".toList, "  ".toList, "  y".toList, "1".toList] := by
      decide +kernel
    obtain rfl := Except.ok.inj (hpage.symm.trans hexpand)
    exact ⟨hparse, hexit, text, hread, htext, hcount⟩
  · have hparse : CommandLine.parse noEnvironment ("--list".toList :: pageArguments) =
        .ok (pageOptions (some .plain)) := by decide +kernel
    have hexit : (Program.run pageFiles noEnvironment
        ("--list".toList :: pageArguments)).exit = 0 := by decide +kernel
    exact ⟨hparse, hexit, (hsaved _ _ _ _ _ hparse rfl hexit).2 (by decide)⟩

end LineTemplate
