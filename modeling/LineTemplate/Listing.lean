import LineTemplate.Directive
import LineTemplate.Error
import LineTemplate.Json

/-!
# Listings of directives

A listing tells which directives stand in a template, without expanding it. It has an entry for
each line with a directive on it, in order; a malformed one is listed with its error and stops
nothing. `Listing.write` gives the text of a listing, in one of two formats.
-/

namespace LineTemplate

namespace Listing

/-- **An entry:** the line of a directive, its kind and indentation, and what the directive is
given, or the error if it is malformed. -/
structure Entry where
  line : Nat
  kind : Kind
  indentation : Nat
  arguments : Except LineError (List Text)

/-- The entry of the `n`-th line, if a directive is on it. -/
def entryOf? (n : Nat) (text : Text) : Option Entry :=
  let line := Line.ofText text
  line.kind?.map fun kind => {
    line := n
    kind := kind
    indentation := line.indentation
    arguments :=
      match line.directive with
      | .error kind => .error ⟨n, .malformed kind⟩
      | .ok directive => .ok directive.arguments }

def scan (lines : List Text) : List Entry :=
  (lines.zipIdx 1).filterMap fun (text, n) => entryOf? n text

inductive Format where
  | plain
  | json
deriving DecidableEq, Repr

def Format.name : Format → Text
  | .plain => "plain".toList
  | .json => "json".toList

def Format.ofName? (name : Text) : Option Format :=
  [Format.plain, .json].find? (·.name = name)

namespace Entry

def given (entry : Entry) : List Text :=
  match entry.arguments with
  | .ok arguments => arguments
  | .error _ => []

def error? (entry : Entry) : Option Text :=
  match entry.arguments with
  | .ok _ => none
  | .error e => some e.message

/-- The entry on one line: number, keyword, arguments and error. -/
def plain (entry : Entry) : Text :=
  Text.decimal entry.line ++ ": ".toList ++ entry.kind.keyword ++
    (if entry.given.isEmpty then [] else ' ' :: [',', ' '].intercalate entry.given) ++
    (match entry.error? with
      | none => []
      | some message => " (error: ".toList ++ message ++ [')'])

def json (entry : Entry) : Json :=
  .object <|
    [("line".toList, .number entry.line),
     ("kind".toList, .string entry.kind.name),
     ("indentation".toList, .number entry.indentation),
     ("arguments".toList, .array (entry.given.map .string))] ++
    (entry.error?.map fun message => ("error".toList, Json.string message)).toList

end Entry

def write (format : Format) (entries : List Entry) : Text :=
  match format with
  | .plain => entries.flatMap fun entry => entry.plain ++ ['\n']
  | .json => (Json.array (entries.map Entry.json)).pretty ++ ['\n']

end Listing

end LineTemplate
