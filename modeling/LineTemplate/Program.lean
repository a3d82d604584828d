import LineTemplate.Expansion
import LineTemplate.Help
import LineTemplate.Listing

/-!
# The program

A run takes a file system, an environment and arguments, and leaves an exit code, two texts and
a file system.

* **`Program.plan`** — what the options ask for: a text to print or to save, or an error. It
  reads files and changes none;
* **`Program.perform`** — carries a plan out. Saving is the only thing that changes a file, and
  a run that fails has printed nothing and changed nothing;
* **`Program.run`** — the whole program.
-/

namespace LineTemplate

namespace Program

/-- What a run is to do at its end. -/
inductive Effect where
  | print (text : Text)
  | save (path : Path) (text : Text)
deriving DecidableEq, Repr

/-- **What a run leaves behind:** its exit code, what it wrote to standard output and to
standard error, and the files. -/
structure Outcome where
  exit : Nat
  output : Text
  errors : Text
  files : FileSystem
deriving DecidableEq, Repr

def baseOf (files : FileSystem) (options : Options) : Path :=
  options.directory.getD files.workingDirectory.path

/-- **What the options ask for.** A listing is always printed, whatever the output file. -/
def plan (files : FileSystem) (options : Options) : Except Error Effect :=
  match options.listing with
  | some format =>
    match files.readLines ((baseOf files options).join options.file) with
    | .error e => .error (.read e)
    | .ok lines => .ok (.print (Listing.write format (Listing.scan lines)))
  | none =>
    match expandTemplate files (baseOf files options) options.file with
    | .error e => .error e
    | .ok lines =>
      match options.output with
      | none => .ok (.print (Text.unlines lines))
      | some path => .ok (.save path (Text.unlines lines))

def fail (files : FileSystem) (e : Error) : Outcome :=
  ⟨1, [], "Error: ".toList ++ e.message ++ ['\n'], files⟩

def perform (files : FileSystem) : Except Error Effect → Outcome
  | .error e => fail files e
  | .ok (.print text) => ⟨0, text, [], files⟩
  | .ok (.save path text) =>
    match files.write path text with
    | .error fault => fail files (.write fault)
    | .ok saved => ⟨0, [], [], saved⟩

/-- **Runs the program.** -/
def run (files : FileSystem) (environment : Environment) (arguments : List Text) : Outcome :=
  match CommandLine.parse environment arguments with
  | .error (.help full) => ⟨0, Help.text full, [], files⟩
  | .error .version => ⟨0, Help.version, [], files⟩
  | .error (.usage e) => ⟨2, [], e.message, files⟩
  | .ok options => perform files (plan files options)

end Program

end LineTemplate
