import LineTemplate.Directive.Expression
import LineTemplate.FileSystem.Access

/-!
# Errors

Each error is a cause; what a user reads is made of it here.

* **`Fault`** — what can be wrong with one line of a template;
* **`LineError`** — a fault with the number of its line, counted from 1;
* **`Error`** — any failure of a run: of a line, of a file that no line names, or of the output.

A fault always has a kind of directive, so exactly the errors of lines have a location.
-/

namespace LineTemplate

/-- **What can be wrong with a line:** its directive is malformed, a variable has no value, an
included file is already being expanded, or a named file has no lines to give. -/
inductive Fault where
  | malformed (kind : Kind)
  | unbound (name : Text)
  | cycle (path : Path)
  | unloadable (kind : Kind) (file : Text) (cause : ReadError)
deriving DecidableEq, Repr

/-- **A fault and the line it is on.** -/
structure LineError where
  line : Nat
  fault : Fault
deriving DecidableEq, Repr

/-- **Any failure** of a run. -/
inductive Error where
  | line (e : LineError)
  | read (e : ReadError)
  | write (fault : PathFault)
deriving DecidableEq, Repr

def ReadError.decodingFailure : Text := "stream did not contain valid UTF-8".toList

def ReadError.message : ReadError → Text
  | .notFound path => "File not found: ".toList ++ path.text
  | .unreadable path => "Unable to read ".toList ++ path.text ++ ": ".toList ++ decodingFailure

def Fault.kind : Fault → Kind
  | .malformed kind => kind
  | .unbound _ => .reference
  | .cycle _ => .inclusion
  | .unloadable kind _ _ => kind

namespace LineError

def message (e : LineError) : Text :=
  let line := Text.decimal e.line
  match e.fault with
  | .malformed kind => "expecting ".toList ++ kind.expected ++ " for line ".toList ++ line
  | .unbound name =>
    "no value found for ".toList ++ Kind.reference.expression name ++ " at line ".toList ++ line
  | .cycle path =>
    "#include cycle detected at line ".toList ++ line ++ ": ".toList ++ path.text ++
      " is already being expanded".toList
  | .unloadable kind file cause =>
    kind.expression file ++ " at line ".toList ++ line ++ ": ".toList ++ cause.message

/-- Where the error is: the keyword at fault and the line's number. -/
def location (e : LineError) : Text :=
  e.fault.kind.keyword ++ " at line ".toList ++ Text.decimal e.line

end LineError

namespace Error

def message : Error → Text
  | .line e => e.message
  | .read e => e.message
  | .write fault => "IO error: ".toList ++ fault.message

def line? : Error → Option Nat
  | .line e => some e.line
  | .read _ | .write _ => none

def kind? : Error → Option Kind
  | .line e => some e.fault.kind
  | .read _ | .write _ => none

def location? : Error → Option Text
  | .line e => some e.location
  | .read _ | .write _ => none

def cause? : Error → Option Text
  | .line ⟨_, .unloadable _ _ cause⟩ => some cause.message
  | .read (.unreadable _) => some ReadError.decodingFailure
  | _ => none

end Error

end LineTemplate
