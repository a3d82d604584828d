import LineTemplate.FileSystem.Build
import LineTemplate.Program
import LineTemplate.Proofs.Saving
import Mathlib.Control.Monad.Basic

/-!
# What a run leaves behind

A run decides everything before it does anything: it reads and expands first, and only then prints
one text or saves one. So it fails with nothing done, and what it saves was made from the files as
they were, even if it replaces one of them.

## The architecture

* **`Program.Ends`** — the ways in which a run can end, with what each of them takes, and
  `ends_run`, that there are no others.
* **`Ends.nothing_done`** — what a run that fails has done; **`Ends.exists_listed`**,
  **`Ends.exists_printed`**, **`Ends.exists_saved`** — what a run that succeeds has.
* **`Ends.exit_eq_zero_iff`**, **`Ends.exit_eq_zero_iff_of_listing`** — which runs succeed.
* **`all_or_nothing`** — the headline.
-/

namespace LineTemplate

namespace Program

/-! ## How a run ends -/

/-- The path of the template that the options name. -/
def templatePath (files : FileSystem) (options : Options) : Path :=
  (baseOf files options).join options.file

/-- **How a run ends.** It lists the template or expands it; it fails and does nothing, or it prints
one text, or it saves one. -/
inductive Ends (files : FileSystem) (options : Options) : Outcome → Prop where
  | unread {format : Listing.Format} {e : ReadError} (hlisting : options.listing = some format)
      (hread : files.readLines (templatePath files options) = .error e) :
      Ends files options (fail files (.read e))
  | listed {format : Listing.Format} {lines : List Text} (hlisting : options.listing = some format)
      (hread : files.readLines (templatePath files options) = .ok lines) :
      Ends files options ⟨0, Listing.write format (Listing.scan lines), [], files⟩
  | unexpanded {e : Error} (hlisting : options.listing = none)
      (hexpand : expandTemplate files (baseOf files options) options.file = .error e) :
      Ends files options (fail files e)
  | printed {lines : List Text} (hlisting : options.listing = none)
      (houtput : options.output = none)
      (hexpand : expandTemplate files (baseOf files options) options.file = .ok lines) :
      Ends files options ⟨0, Text.unlines lines, [], files⟩
  | unsaved {path : Path} {lines : List Text} {fault : PathFault}
      (hlisting : options.listing = none) (houtput : options.output = some path)
      (hexpand : expandTemplate files (baseOf files options) options.file = .ok lines)
      (hwrite : files.write path (Text.unlines lines) = .error fault) :
      Ends files options (fail files (.write fault))
  | saved {path : Path} {lines : List Text} {saved : FileSystem} (hlisting : options.listing = none)
      (houtput : options.output = some path)
      (hexpand : expandTemplate files (baseOf files options) options.file = .ok lines)
      (hwrite : files.write path (Text.unlines lines) = .ok saved) :
      Ends files options ⟨0, [], [], saved⟩

theorem ends_perform (files : FileSystem) (options : Options) :
    Ends files options (perform files (plan files options)) := by
  cases hlisting : options.listing with
  | some format =>
    simp only [plan, hlisting]
    cases hread : files.readLines ((baseOf files options).join options.file) with
    | error e => exact .unread hlisting hread
    | ok lines => exact .listed hlisting hread
  | none =>
    simp only [plan, hlisting]
    cases hexpand : expandTemplate files (baseOf files options) options.file with
    | error e => exact .unexpanded hlisting hexpand
    | ok lines =>
      cases houtput : options.output with
      | none => exact .printed hlisting houtput hexpand
      | some path =>
        simp only [perform]
        cases hwrite : files.write path (Text.unlines lines) with
        | error fault => exact .unsaved hlisting houtput hexpand hwrite
        | ok saved => exact .saved hlisting houtput hexpand hwrite

/-- A listing has no use for an output file. -/
theorem plan_withOutput {files : FileSystem} {options : Options} (h : options.listing ≠ none)
    (output : Option Path) :
    plan files { options with output := output } = plan files options := by
  obtain ⟨format, hformat⟩ := Option.ne_none_iff_exists'.1 h
  simp only [plan, hformat]
  rfl

section Run

variable {files : FileSystem} {environment : Environment} {arguments : List Text}
  {options : Options}

theorem run_eq_perform (h : CommandLine.parse environment arguments = .ok options) :
    run files environment arguments = perform files (plan files options) := by
  rw [run, h]

theorem ends_run (h : CommandLine.parse environment arguments = .ok options) :
    Ends files options (run files environment arguments) := by
  rw [run_eq_perform h]
  exact ends_perform files options

end Run

/-! ## What is left behind -/

variable {files : FileSystem} {options : Options} {outcome : Outcome}

/-- A run that fails has printed nothing and changed nothing. -/
theorem Ends.nothing_done (h : Ends files options outcome) (hexit : outcome.exit = 1) :
    outcome.output = [] ∧ outcome.files = files := by
  cases h with
  | unread | unexpanded | unsaved => exact ⟨rfl, rfl⟩
  | listed | printed | saved => cases hexit

theorem Ends.exit_cases (h : Ends files options outcome) : outcome.exit = 0 ∨ outcome.exit = 1 := by
  cases h with
  | unread | unexpanded | unsaved => exact Or.inr rfl
  | listed | printed | saved => exact Or.inl rfl

/-- A listing writes no file. -/
theorem Ends.files_of_listing (h : Ends files options outcome) (hlisting : options.listing ≠ none) :
    outcome.files = files := by
  cases h with
  | unread | listed => rfl
  | unexpanded hnone | printed hnone | unsaved hnone | saved hnone => exact absurd hnone hlisting

/-- A successful run that lists has printed the listing of the template's own lines. -/
theorem Ends.exists_listed {format : Listing.Format} (h : Ends files options outcome)
    (hlisting : options.listing = some format) (hexit : outcome.exit = 0) :
    ∃ lines, files.readLines (templatePath files options) = .ok lines ∧
      outcome.output = Listing.write format (Listing.scan lines) := by
  cases h with
  | unread => cases hexit
  | listed hsome hread =>
    rw [hlisting] at hsome
    cases hsome
    exact ⟨_, hread, rfl⟩
  | unexpanded hnone | printed hnone | unsaved hnone | saved hnone =>
    rw [hlisting] at hnone
    cases hnone

/-- A successful run without an output file has printed what the template expands to. -/
theorem Ends.exists_printed (h : Ends files options outcome) (hlisting : options.listing = none)
    (houtput : options.output = none) (hexit : outcome.exit = 0) :
    outcome.files = files ∧
      ∃ lines, expandTemplate files (baseOf files options) options.file = .ok lines ∧
        outcome.output = Text.unlines lines := by
  cases h with
  | unread hsome | listed hsome => rw [hlisting] at hsome; cases hsome
  | unexpanded | unsaved => cases hexit
  | printed _ _ hexpand => exact ⟨rfl, _, hexpand, rfl⟩
  | saved _ hpath => rw [houtput] at hpath; cases hpath

/-- **A successful run that writes a file** has expanded the template, and written its output. -/
theorem Ends.exists_saved {path : Path} (h : Ends files options outcome)
    (hlisting : options.listing = none) (houtput : options.output = some path)
    (hexit : outcome.exit = 0) :
    outcome.output = [] ∧
      ∃ lines, expandTemplate files (baseOf files options) options.file = .ok lines ∧
        files.write path (Text.unlines lines) = .ok outcome.files := by
  cases h with
  | unread hsome | listed hsome => rw [hlisting] at hsome; cases hsome
  | unexpanded | unsaved => cases hexit
  | printed _ hnone => rw [houtput] at hnone; cases hnone
  | saved _ hpath hexpand hwrite =>
    rw [houtput] at hpath
    cases hpath
    exact ⟨rfl, _, hexpand, hwrite⟩

/-- **Which runs succeed:** those that can expand the template, and write what comes out if it is
to be written. -/
theorem Ends.exit_eq_zero_iff (h : Ends files options outcome) (hlisting : options.listing = none) :
    outcome.exit = 0 ↔
      ∃ lines, expandTemplate files (baseOf files options) options.file = .ok lines ∧
        ∀ path, options.output = some path →
          ∃ saved, files.write path (Text.unlines lines) = .ok saved := by
  cases h with
  | unread hsome | listed hsome => rw [hlisting] at hsome; cases hsome
  | unexpanded _ hexpand => simp [fail, hexpand]
  | printed _ hnone hexpand => simp [hnone, hexpand]
  | unsaved _ hpath hexpand hwrite => simp [fail, hpath, hexpand, hwrite]
  | saved _ hpath hexpand hwrite => simp [hpath, hexpand, hwrite]

/-- **Which listings succeed:** those of a template that is a regular file and a text. -/
theorem Ends.exit_eq_zero_iff_of_listing (h : Ends files options outcome)
    (hlisting : options.listing ≠ none) :
    outcome.exit = 0 ↔ ∃ location text, files.fileAt? (templatePath files options) = some location ∧
      files.contentAt? location = some (.text text) := by
  have hread : (∃ lines, files.readLines (templatePath files options) = .ok lines) ↔
      ∃ location text, files.fileAt? (templatePath files options) = some location ∧
        files.contentAt? location = some (.text text) := by
    simp only [FileSystem.readLines_eq_ok_iff, FileSystem.content?, Option.bind_eq_some_iff]
    constructor
    · rintro ⟨_, text, ⟨location, hat, hcontent⟩, -⟩
      exact ⟨location, text, hat, hcontent⟩
    · rintro ⟨location, text, hat, hcontent⟩
      exact ⟨_, text, ⟨location, hat, hcontent⟩, rfl⟩
  rw [← hread]
  cases h with
  | unread _ hbad => simp [fail, hbad]
  | listed _ hok => simp [hok]
  | unexpanded hnone | printed hnone | unsaved hnone | saved hnone => exact absurd hnone hlisting

/-! ## The headline -/

/-- **All or nothing.** A run with options that can be read exits with 0 or 1, and if it exits with
1 it has printed nothing and changed no file. Without a listing and an output file, a successful run
prints the lines that the template expands to, each with an LF behind it, and changes no file. With
an output file it prints nothing, and saves these lines under the path, all of them from the files
as they were; no other file is changed. With a listing the output file plays no part: nothing is
written, and the run succeeds just if the template is a regular file that holds a text. -/
theorem all_or_nothing {files : FileSystem} {environment : Environment} {arguments : List Text}
    {options : Options} {outcome : Outcome}
    (hparse : CommandLine.parse environment arguments = .ok options)
    (hrun : run files environment arguments = outcome) :
    (outcome.exit = 0 ∨ outcome.exit = 1) ∧
    (outcome.exit = 1 → outcome.output = [] ∧ outcome.files = files) ∧
    (options.listing = none →
      (outcome.exit = 0 ↔
        ∃ lines, expandTemplate files (baseOf files options) options.file = .ok lines ∧
          ∀ path, options.output = some path →
            ∃ saved, files.write path (Text.unlines lines) = .ok saved) ∧
      (outcome.exit = 0 → options.output = none → outcome.files = files ∧
        ∃ lines, expandTemplate files (baseOf files options) options.file = .ok lines ∧
          outcome.output = Text.unlines lines) ∧
      (outcome.exit = 0 → ∀ path, options.output = some path → outcome.output = [] ∧
        ∃ lines location,
          expandTemplate files (baseOf files options) options.file = .ok lines ∧
          files.Saves path (Text.unlines lines) location outcome.files)) ∧
    ∀ format, options.listing = some format → outcome.files = files ∧
      (outcome.exit = 0 ↔
        ∃ location text, files.fileAt? (templatePath files options) = some location ∧
          files.contentAt? location = some (.text text)) ∧
      (outcome.exit = 0 → ∃ lines, files.readLines (templatePath files options) = .ok lines ∧
        outcome.output = Listing.write format (Listing.scan lines)) ∧
      ∀ environment' arguments' output,
        CommandLine.parse environment' arguments' = .ok { options with output := output } →
          run files environment' arguments' = outcome := by
  have hends : Ends files options outcome := hrun ▸ ends_run hparse
  refine ⟨hends.exit_cases, hends.nothing_done, fun hlisting => ?_, fun format hformat => ?_⟩
  · refine ⟨hends.exit_eq_zero_iff hlisting, fun hexit houtput => ?_, fun hexit path houtput => ?_⟩
    · exact hends.exists_printed hlisting houtput hexit
    · obtain ⟨hnothing, lines, hexpand, hwrite⟩ := hends.exists_saved hlisting houtput hexit
      obtain ⟨location, hsaves⟩ := FileSystem.exists_saves_of_write hwrite
      exact ⟨hnothing, lines, location, hexpand, hsaves⟩
  · have hlisting : options.listing ≠ none := by simp [hformat]
    refine ⟨hends.files_of_listing hlisting, hends.exit_eq_zero_iff_of_listing hlisting,
      hends.exists_listed hformat, fun environment' arguments' output hparse' => ?_⟩
    rw [← hrun, run_eq_perform hparse, run_eq_perform hparse', plan_withOutput hlisting]

/-- A template that loads one file and includes another, a malformed one, and a link to the file
that is included. -/
def partFiles : FileSystem :=
  (FileSystem.ofTexts [
    ("settings".toList, "#set(a=\"1\")".toList),
    ("part".toList, "x#var(a)".toList),
    ("page".toList, "#config(settings)\n  #include(part)\n#var(a)".toList),
    ("bad".toList, "#var".toList)]).place ⟨"out".toList⟩ (.link ⟨"part".toList⟩)

def bareEnvironment : Environment := ⟨none, none⟩

def partOptions (file : Text) (output : Option Path) (listing : Option Listing.Format) : Options :=
  ⟨none, file, output, listing, 0, false⟩

def outArguments (file : Text) : List Text := ["-f".toList, file, "-o".toList, "out".toList]

theorem all_or_nothing_partFiles :
    -- a malformed template, to be written over the part
    (CommandLine.parse bareEnvironment (outArguments "bad".toList) =
        .ok (partOptions "bad".toList (some ⟨"out".toList⟩) none) ∧
      (run partFiles bareEnvironment (outArguments "bad".toList)).exit = 1 ∧
      (run partFiles bareEnvironment (outArguments "bad".toList)).output = [] ∧
      (run partFiles bareEnvironment (outArguments "bad".toList)).files = partFiles) ∧
    -- a template that is printed
    (CommandLine.parse bareEnvironment ["-f".toList, "page".toList] =
        .ok (partOptions "page".toList none none) ∧
      (run partFiles bareEnvironment ["-f".toList, "page".toList]).files = partFiles ∧
      (run partFiles bareEnvironment ["-f".toList, "page".toList]).output =
        Text.unlines ["  x1".toList, "1".toList]) ∧
    -- a template that is written over its own part, through a link
    (CommandLine.parse bareEnvironment (outArguments "page".toList) =
        .ok (partOptions "page".toList (some ⟨"out".toList⟩) none) ∧
      (run partFiles bareEnvironment (outArguments "page".toList)).output = [] ∧
      ∃ location, partFiles.fileAt? ⟨"part".toList⟩ = some location ∧
        partFiles.Saves ⟨"out".toList⟩ (Text.unlines ["  x1".toList, "1".toList]) location
          (run partFiles bareEnvironment (outArguments "page".toList)).files) ∧
    -- the malformed template, listed
    CommandLine.parse bareEnvironment ("--list".toList :: outArguments "bad".toList) =
        .ok (partOptions "bad".toList (some ⟨"out".toList⟩) (some .plain)) ∧
      (run partFiles bareEnvironment ("--list".toList :: outArguments "bad".toList)).exit = 0 ∧
      (run partFiles bareEnvironment ("--list".toList :: outArguments "bad".toList)).files =
        partFiles := by
  have hbad : CommandLine.parse bareEnvironment (outArguments "bad".toList) =
      .ok (partOptions "bad".toList (some ⟨"out".toList⟩) none) := by decide +kernel
  have hprint : CommandLine.parse bareEnvironment ["-f".toList, "page".toList] =
      .ok (partOptions "page".toList none none) := by decide +kernel
  have hsave : CommandLine.parse bareEnvironment (outArguments "page".toList) =
      .ok (partOptions "page".toList (some ⟨"out".toList⟩) none) := by decide +kernel
  have hlist : CommandLine.parse bareEnvironment ("--list".toList :: outArguments "bad".toList) =
      .ok (partOptions "bad".toList (some ⟨"out".toList⟩) (some .plain)) := by decide +kernel
  have hpage : expandTemplate partFiles (baseOf partFiles (partOptions "page".toList none none))
      "page".toList = .ok ["  x1".toList, "1".toList] := by decide +kernel
  refine ⟨⟨hbad, ?_⟩, ⟨hprint, ?_⟩, ⟨hsave, ?_⟩, hlist, ?_⟩
  · have hexit : (run partFiles bareEnvironment (outArguments "bad".toList)).exit = 1 := by
      decide +kernel
    obtain ⟨-, hnothing, -⟩ := all_or_nothing hbad rfl
    exact ⟨hexit, hnothing hexit⟩
  · obtain ⟨-, -, hexpands, -⟩ := @all_or_nothing partFiles _ _ _ _ hprint rfl
    obtain ⟨hiff, hprinted, -⟩ := hexpands rfl
    obtain ⟨hfiles, lines, hexpand, houtput⟩ :=
      hprinted (hiff.2 ⟨_, hpage, fun _ h => by cases h⟩) rfl
    obtain rfl := Except.ok.inj (hpage.symm.trans hexpand)
    exact ⟨hfiles, houtput⟩
  · have hexit : (run partFiles bareEnvironment (outArguments "page".toList)).exit = 0 := by
      decide +kernel
    obtain ⟨-, -, hexpands, -⟩ := @all_or_nothing partFiles _ _ _ _ hsave rfl
    obtain ⟨-, -, hsaved⟩ := hexpands rfl
    obtain ⟨hnothing, lines, location, hexpand, hsaves⟩ := hsaved hexit _ rfl
    obtain rfl := Except.ok.inj (hpage.symm.trans hexpand)
    refine ⟨hnothing, location, ?_, hsaves⟩
    -- the link leads to the part, and the files are a tree
    have htree : partFiles.IsTree := by decide +kernel
    have hlink : partFiles.fileAt? ⟨"out".toList⟩ = partFiles.fileAt? ⟨"part".toList⟩ := by
      decide +kernel
    have hthere : partFiles.canonical? ⟨"out".toList⟩ ≠ none := by decide +kernel
    rcases hsaves.replaces_or_creates with hreplaces | ⟨hnone, -⟩
    · rw [← hlink]
      exact hsaves.replaces_file htree hreplaces
    · exact absurd hnone hthere
  · obtain ⟨-, -, -, hlisted⟩ := @all_or_nothing partFiles _ _ _ _ hlist rfl
    obtain ⟨hfiles, hiff, -⟩ := hlisted .plain rfl
    have hfile : partFiles.fileAt? (templatePath partFiles
        (partOptions "bad".toList (some ⟨"out".toList⟩) (some .plain))) =
          some [⟨"bad".toList, by decide⟩] := by decide +kernel
    exact ⟨hiff.2 ⟨_, "#var".toList, hfile, by decide +kernel⟩, hfiles⟩

end Program

end LineTemplate
