import LineTemplate.Listing

/-!
# The command line

Arguments are read from left to right, each for itself, and the first thing that ends the
reading decides: a usage error, or the wish for help or the version. What no argument sets the
environment may set, and what neither sets has a default.

* **`Switch`**, **`Setting`** — the options without and with a value;
* **`Draft`** — what the arguments read so far have set;
* **`Draft.read`** — reads arguments, one of which may be the value that a setting waits for;
* **`CommandLine.parse`** — the options of a run, or why there is none.

Short options may share one argument (`-vqfplain`); a value stands in the rest of the argument,
behind an `=`, or in the next argument. An argument that starts with `-` is no such value unless
it is `-` alone.
-/

namespace LineTemplate

/-- **The options of a run.** -/
structure Options where
  directory : Option Path
  file : Text
  output : Option Path
  listing : Option Listing.Format
  verbosity : Nat
  quiet : Bool
deriving DecidableEq, Repr

/-- The variables of the environment that stand for options. -/
structure Environment where
  directory : Option Text
  file : Option Text
deriving DecidableEq, Repr

inductive Switch where
  | verbose
  | quiet
  | help
  | version
deriving DecidableEq, Repr

/-- An option with a value, which `list` may go without. -/
inductive Setting where
  | directory
  | file
  | output
  | list
deriving DecidableEq, Repr

/-- **What is wrong with the arguments.** -/
inductive UsageError where
  | unexpectedArgument (argument : Text)
  | unexpectedValue (switch : Switch)
  | missingValue (setting : Setting)
  | invalidValue (setting : Setting) (value : Text)
  | repeatedSwitch (switch : Switch)
  | repeatedSetting (setting : Setting)
  | quietAndVerbose
deriving DecidableEq, Repr

/-- **Why arguments lead to no run:** they ask for help, in full or in short, or for the version,
or they are wrong. -/
inductive Stop where
  | help (full : Bool)
  | version
  | usage (e : UsageError)
deriving DecidableEq, Repr

namespace Switch

def longName : Switch → Text
  | .verbose => "verbose".toList
  | .quiet => "quiet".toList
  | .help => "help".toList
  | .version => "version".toList

def shortName : Switch → Char
  | .verbose => 'v'
  | .quiet => 'q'
  | .help => 'h'
  | .version => 'V'

def all : List Switch := [.verbose, .quiet, .help, .version]

def ofLong? (name : Text) : Option Switch := all.find? (·.longName = name)

def ofShort? (c : Char) : Option Switch := all.find? (·.shortName = c)

end Switch

namespace Setting

def longName : Setting → Text
  | .directory => "directory".toList
  | .file => "file".toList
  | .output => "output".toList
  | .list => "list".toList

def shortName? : Setting → Option Char
  | .directory => some 'd'
  | .file => some 'f'
  | .output => some 'o'
  | .list => none

def all : List Setting := [.directory, .file, .output, .list]

def ofLong? (name : Text) : Option Setting := all.find? (·.longName = name)

def ofShort? (c : Char) : Option Setting := all.find? (·.shortName? = some c)

end Setting

/-- **What the arguments read so far have set.** -/
structure Draft where
  directory : Option Text
  file : Option Text
  output : Option Text
  listing : Option Listing.Format
  verbosity : Nat
  quiet : Bool
deriving DecidableEq, Repr

namespace Draft

def blank : Draft := ⟨none, none, none, none, 0, false⟩

/-- Turns a switch on. Only `verbose` may be repeated; help is `full` under its long name. -/
def flip (draft : Draft) (full : Bool) : Switch → Except Stop Draft
  | .help => .error (.help full)
  | .version => .error .version
  | .verbose => .ok { draft with verbosity := draft.verbosity + 1 }
  | .quiet =>
    if draft.quiet then .error (.usage (.repeatedSwitch .quiet))
    else .ok { draft with quiet := true }

/-- Gives a setting its value, which it may get once. -/
def set (draft : Draft) (setting : Setting) (value : Text) : Except Stop Draft :=
  match setting with
  | .directory =>
    if value = [] then .error (.usage (.invalidValue .directory value))
    else if draft.directory.isSome then .error (.usage (.repeatedSetting .directory))
    else .ok { draft with directory := some value }
  | .file =>
    if draft.file.isSome then .error (.usage (.repeatedSetting .file))
    else .ok { draft with file := some value }
  | .output =>
    if value = [] then .error (.usage (.invalidValue .output value))
    else if draft.output.isSome then .error (.usage (.repeatedSetting .output))
    else .ok { draft with output := some value }
  | .list =>
    match Listing.Format.ofName? value with
    | none => .error (.usage (.invalidValue .list value))
    | some format =>
      if draft.listing.isSome then .error (.usage (.repeatedSetting .list))
      else .ok { draft with listing := some format }

/-- Does without the value that a setting still waits for: a listing is plain then. -/
def settle (draft : Draft) : Option Setting → Except Stop Draft
  | none => .ok draft
  | some .list => draft.set .list Listing.Format.plain.name
  | some setting => .error (.usage (.missingValue setting))

/-- Reads letters of short options. A letter of a setting takes the rest for its value, and lets
the setting wait if there is no rest. -/
def readShort (draft : Draft) : Text → Except Stop (Draft × Option Setting)
  | [] => .ok (draft, none)
  | c :: rest =>
    match Switch.ofShort? c, Setting.ofShort? c with
    | some switch, _ =>
      match draft.flip false switch with
      | .error stop => .error stop
      | .ok flipped => flipped.readShort rest
    | none, none => .error (.usage (.unexpectedArgument ['-', c]))
    | none, some setting =>
      match rest with
      | [] => .ok (draft, some setting)
      -- an `=` behind the letter is no part of the value
      | '=' :: value => (draft.set setting value).map (·, none)
      | value => (draft.set setting value).map (·, none)

def readLong (draft : Draft) (name : Text) (value : Option Text) :
    Except Stop (Draft × Option Setting) :=
  match Switch.ofLong? name, Setting.ofLong? name with
  | some switch, _ =>
    if value.isSome then .error (.usage (.unexpectedValue switch))
    else (draft.flip true switch).map (·, none)
  | none, none => .error (.usage (.unexpectedArgument ('-' :: '-' :: name)))
  | none, some setting =>
    match value with
    | none => .ok (draft, some setting)
    | some value => (draft.set setting value).map (·, none)

def readArgument (draft : Draft) : Text → Except Stop (Draft × Option Setting)
  | '-' :: '-' :: long =>
    match Text.upTo? '=' long with
    | none => draft.readLong long none
    | some name => draft.readLong name (some (long.drop (name.length + 1)))
  | '-' :: c :: rest => draft.readShort (c :: rest)
  | argument => .error (.usage (.unexpectedArgument argument))

def isValue (argument : Text) : Bool := argument.head? ≠ some '-' || argument = ['-']

/-- **Reads arguments**, the first of which may be the value that a setting waits for. Behind
`--` nothing is an option, and there is nothing but options. -/
def read (draft : Draft) (waiting : Option Setting) : List Text → Except Stop Draft
  | [] => draft.settle waiting
  | argument :: rest =>
    match waiting, isValue argument with
    | some setting, true =>
      match draft.set setting argument with
      | .error stop => .error stop
      | .ok filled => filled.read none rest
    | _, _ =>
      -- a setting that still waits goes without a value
      match draft.settle waiting with
      | .error stop => .error stop
      | .ok settled =>
        if argument = ['-', '-'] then
          match rest with
          | [] => .ok settled
          | extra :: _ => .error (.usage (.unexpectedArgument extra))
        else
          match settled.readArgument argument with
          | .error stop => .error stop
          | .ok (next, waitingNext) => next.read waitingNext rest

end Draft

namespace CommandLine

def defaultFile : Text := "build.yaml".toList

/-- Completes what the arguments set by the environment and the defaults. -/
def complete (environment : Environment) (draft : Draft) : Except Stop Options :=
  let directory := draft.directory.or environment.directory
  if directory = some [] then .error (.usage (.invalidValue .directory []))
  else if draft.quiet ∧ draft.verbosity ≠ 0 then .error (.usage .quietAndVerbose)
  else
    .ok {
      directory := directory.map Path.mk
      file := (draft.file.or environment.file).getD defaultFile
      output := draft.output.map Path.mk
      listing := draft.listing
      verbosity := draft.verbosity
      quiet := draft.quiet }

def parse (environment : Environment) (arguments : List Text) : Except Stop Options :=
  match Draft.blank.read none arguments with
  | .error stop => .error stop
  | .ok draft => complete environment draft

/-- The least severe events that are logged: errors if quiet, more with every `verbose`. Without
either the choice is left to the environment. -/
def logLevel (quiet : Bool) (verbosity : Nat) : Option Text :=
  if quiet then some "error".toList
  else
    match verbosity with
    | 0 => none
    | 1 => some "info".toList
    | 2 => some "debug".toList
    | _ => some "trace".toList

end CommandLine

end LineTemplate
