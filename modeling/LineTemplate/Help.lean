import LineTemplate.CommandLine

/-!
# What the program says of itself

The version, the help on the options, and the messages for arguments that cannot be read.
-/

namespace LineTemplate

namespace Help

/-- Lines of a fixed text, each with its line break. -/
def paragraph (lines : List String) : Text := Text.unlines (lines.map String.toList)

def version : Text := paragraph ["ste 0.1.0"]

def usage : Text :=
  paragraph
    ["Simple template engine that preserves indentation.",
     "",
     "Usage: ste [OPTIONS]",
     ""]

def options : Text :=
  paragraph
    ["Options:",
     "  -d, --directory <DIR>  The working directory where to find template files " ++
       "(defaults to the current directory) [env: STE_DIRECTORY=]",
     "  -f, --file <FILE>      The template file to process, relative to the working directory " ++
       "[env: STE_FILE=] [default: build.yaml]",
     "  -o, --output <FILE>    Output file (defaults to stdout)",
     "      --list [<FORMAT>]  List directives in the template instead of expanding it " ++
       "(optionally with format: plain, json) [possible values: plain, json]",
     "  -v, --verbose...       Increase verbosity (can be used multiple times)",
     "  -q, --quiet            Suppress all output except errors",
     "  -h, --help             Print help (see more with '--help')",
     "  -V, --version          Print version"]

def examples : Text :=
  paragraph
    ["",
     "Directives:",
     "  #config(vars.conf)    - Load #set lines from vars.conf",
     "  #set(name=\"value\")    - Bind name to value (one character is stripped from each end)",
     "  #include(part.yaml)   - Expand part.yaml here, indented like the directive",
     "  #var(name)            - Replace with the value of name (any number per line)",
     "",
     "Examples:",
     "  # Expand build.yaml from the current directory",
     "  ste",
     "  # Expand another template from another directory",
     "  ste --directory ci --file pipeline.yaml",
     "  # Save output to file",
     "  ste -f pipeline.yaml -o pipeline.out.yaml",
     "  # List the directives of a template",
     "  ste -f pipeline.yaml --list",
     "  # Same, as JSON for scripting",
     "  ste -f pipeline.yaml --list=json"]

/-- **The help**, in full with directives and examples. -/
def text (full : Bool) : Text := usage ++ options ++ (if full then examples else [])

end Help

def Switch.spelling (switch : Switch) : Text := "--".toList ++ switch.longName

def Setting.spelling (setting : Setting) : Text :=
  "--".toList ++ setting.longName ++
    match setting with
    | .directory => " <DIR>".toList
    | .file | .output => " <FILE>".toList
    | .list => " [<FORMAT>]".toList

def UsageError.reason : UsageError → Text
  | .unexpectedArgument argument => "unexpected argument '".toList ++ argument ++ "' found".toList
  | .unexpectedValue switch =>
    "unexpected value for '".toList ++ switch.spelling ++ "' found; no more were expected".toList
  | .missingValue setting =>
    "a value is required for '".toList ++ setting.spelling ++ "' but none was supplied".toList
  | .invalidValue setting value =>
    "invalid value '".toList ++ value ++ "' for '".toList ++ setting.spelling ++ "'".toList
  | .repeatedSwitch switch =>
    "the argument '".toList ++ switch.spelling ++ "' cannot be used multiple times".toList
  | .repeatedSetting setting =>
    "the argument '".toList ++ setting.spelling ++ "' cannot be used multiple times".toList
  | .quietAndVerbose =>
    "the argument '".toList ++ Switch.quiet.spelling ++ "' cannot be used with '".toList ++
      Switch.verbose.spelling ++ "...'".toList

/-- **The message** for arguments that cannot be read. -/
def UsageError.message (e : UsageError) : Text :=
  "error: ".toList ++ e.reason ++ "\n\n".toList ++
    Help.paragraph ["Usage: ste [OPTIONS]", "", "For more information, try '--help'."]

end LineTemplate
