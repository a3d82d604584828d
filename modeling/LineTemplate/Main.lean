import LineTemplate.Program

/-!
# The program on a real disk

The outermost layer. It looks up on the disk the files that a run may ask for, lets
`Program.perform` decide on them, and prints or saves what comes out. Each location on the way
to a file is entered as it is found; a link is entered with the canonical path that it leads to.
-/

namespace LineTemplate

namespace Disk

/-- Enters the locations that the segments pass from a directory, as far as they exist. -/
partial def survey (files : FileSystem) (here : Location) : List Segment → IO FileSystem
  | [] => return files
  | .blank :: rest => survey files here rest
  | .current :: rest => survey files here rest
  | .parent :: rest => survey files here.dropLast rest
  | .name n :: rest => do
    let there := here ++ [n]
    let spelled := String.ofList there.path.text
    try
      let found ← IO.FS.realPath spelled
      if found.toString ≠ spelled then
        let target : Path := ⟨found.toString.toList⟩
        survey (files.put there (.link target)) [] (target.segments ++ rest)
      else
        match (← found.metadata).type with
        | .dir => survey (files.put there .directory) there rest
        | .file =>
          return files.put there (.file (Content.ofBytes (← IO.FS.readBinFile spelled)))
        | _ => return files
    catch _ => return files

def look (files : FileSystem) (path : Path) : IO FileSystem :=
  survey files (FileSystem.startOf path files.workingDirectory) path.segments

/-- The files that the lines of a template name. -/
def named (base : Path) (lines : List Text) : List Path :=
  lines.filterMap fun text =>
    match (Line.ofText text).directive with
    | .ok (.config file) => some (base.join file)
    | .ok (.inclusion file) => some (base.join file)
    | _ => none

/-- Enters the files that paths lead to, and all that these name. -/
partial def gather (base : Path) (files : FileSystem) (seen : List Path) : List Path → IO FileSystem
  | [] => return files
  | path :: rest => do
    if path ∈ seen then gather base files seen rest
    else
      let files ← look files path
      let lines := (files.readLines path).toOption.getD []
      gather base files (path :: seen) (named base lines ++ rest)

def start : IO FileSystem := do
  let here : Path := ⟨(← IO.currentDir).toString.toList⟩
  let names := here.segments.filterMap fun
    | .name n => some n
    | _ => none
  look ⟨[], names⟩ here

def report (outcome : Program.Outcome) : IO UInt32 := do
  IO.print (String.ofList outcome.output)
  IO.eprint (String.ofList outcome.errors)
  return outcome.exit.toUInt32

def runWith (files : FileSystem) (options : Options) : IO UInt32 := do
  let base := Program.baseOf files options
  let template := base.join options.file
  let files ←
    if options.listing.isSome then look files template else gather base files [] [template]
  let files ← (options.output.map (look files)).getD (pure files)
  let plan := Program.plan files options
  let outcome := Program.perform files plan
  match plan, outcome.exit with
  | .ok (.save path text), 0 =>
    try
      IO.FS.writeFile (String.ofList path.text) (String.ofList text)
      report outcome
    catch e =>
      IO.eprintln s!"Error: IO error: {e}"
      return 1
  | _, _ => report outcome

end Disk

end LineTemplate

open LineTemplate in
/-- Expands or lists the template that the arguments name. -/
def main (args : List String) : IO UInt32 := do
  let directory ← IO.getEnv "STE_DIRECTORY"
  let file ← IO.getEnv "STE_FILE"
  let environment : Environment := ⟨directory.map String.toList, file.map String.toList⟩
  let arguments := args.map String.toList
  let files ← Disk.start
  match CommandLine.parse environment arguments with
  | .error _ => Disk.report (Program.run files environment arguments)
  | .ok options => Disk.runWith files options
