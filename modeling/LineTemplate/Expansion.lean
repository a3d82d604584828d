import LineTemplate.Error
import LineTemplate.Scope

/-!
# Expansion of templates

A template is expanded line by line. Assignments, made by the file itself or loaded from
another one, bind variables for the lines behind them; references take the values; an inclusion
puts the expansion of another file in its place, moved to the right by its own indentation. The
first fault ends the expansion.

## The architecture

* **`Frame`** — what stays the same throughout one file: the files there are, the directory
  that file names are joined with, the inherited bindings, and the chain of files that are
  being expanded;
* **`Expanded`** — what lines amount to: the bindings behind them and the lines they produce;
* **`Frame.expandLine`** — one line. How an included file is expanded is a parameter, `nested`;
* **`Frame.expandFrom`** — lines in order, numbered;
* **`Frame.expandWithin`** — the expansion with at most `depth` files one inside the other. Each
  file on the chain is another regular file, so a depth of `FileSystem.fileCount` bounds
  nothing: what would go deeper includes a file that is being expanded already, and is reported
  as the cycle that it is;
* **`expandLines`**, **`expandFile`**, **`expandTemplate`** — the expansions that users start.

An included file inherits the bindings that the including file made itself, and only these; its
own bindings end with it.
-/

namespace LineTemplate

/-- **What stays the same throughout one file.** The chain holds the routes of the files being
expanded, innermost first. -/
structure Frame where
  files : FileSystem
  base : Path
  inherited : Bindings
  chain : List Route

/-- **What lines amount to:** the file's own bindings behind them, and the lines produced. -/
structure Expanded where
  own : Bindings
  output : List Text

/-- How the lines of an included file are expanded, given its frame, and the number of the
including line and the path in it for reports. -/
abbrev Nested := Frame → Nat → Path → List Text → Except LineError (List Text)

/-- **Substitution** puts values for references, one name after the other. A later name is
looked for in what earlier values brought in, too. -/
def substitute (values : List (Text × Text)) (text : Text) : Text :=
  values.foldl (fun text (name, value) =>
    Text.replaceAll (Kind.reference.expression name) value text) text

namespace Frame

def routeOf (frame : Frame) (path : Path) : Route := (frame.files.identity path).route

/-- **Loads assignments** from a file, each line of which has to hold one, wherever it stands. -/
def load (frame : Frame) (own : Bindings) (file : Text) : Except Fault Bindings :=
  match frame.files.readLines (frame.base.join file) with
  | .error cause => .error (.unloadable .config file cause)
  | .ok lines =>
    match lines.mapM Assignment.parse? with
    | none => .error (.malformed .assignment)
    | some as => .ok (own.assignAll as)

def refer (frame : Frame) (own : Bindings) (names : List Text) (text : Text) :
    Except Fault Text :=
  match (Scope.mk own frame.inherited).values names with
  | .error name => .error (.unbound name)
  | .ok values => .ok (substitute values text)

def child (frame : Frame) (own : Bindings) (path : Path) : Frame :=
  { frame with inherited := own, chain := frame.routeOf path :: frame.chain }

def includeFile (frame : Frame) (nested : Nested) (n : Nat) (own : Bindings) (file : Text) :
    Except LineError (List Text) :=
  let path := frame.base.join file
  if frame.routeOf path ∈ frame.chain then .error ⟨n, .cycle path⟩
  else
    match frame.files.readLines path with
    | .error cause => .error ⟨n, .unloadable .inclusion file cause⟩
    -- only a file that was read joins the chain
    | .ok lines => nested (frame.child own path) n path lines

/-- **Expands a line**, the `n`-th one of its file. -/
def expandLine (frame : Frame) (nested : Nested) (n : Nat) (own : Bindings) (text : Text) :
    Except LineError Expanded :=
  let line := Line.ofText text
  match line.directive with
  | .error kind => .error ⟨n, .malformed kind⟩
  | .ok .text => .ok ⟨own, [text]⟩
  | .ok (.assignment a) => .ok ⟨own.assign a, []⟩
  | .ok (.config file) =>
    match frame.load own file with
    | .error fault => .error ⟨n, fault⟩
    | .ok loaded => .ok ⟨loaded, []⟩
  | .ok (.references names) =>
    match frame.refer own names text with
    | .error fault => .error ⟨n, fault⟩
    | .ok written => .ok ⟨own, [written]⟩
  | .ok (.inclusion file) =>
    match frame.includeFile nested n own file with
    | .error e => .error e
    | .ok output => .ok ⟨own, output.map (Text.spaces line.indentation ++ ·)⟩

/-- **Expands lines** in order, the first of which is the `n`-th one of its file. -/
def expandFrom (frame : Frame) (nested : Nested) :
    (n : Nat) → (own : Bindings) → List Text → Except LineError Expanded
  | _, own, [] => .ok ⟨own, []⟩
  | n, own, text :: rest =>
    match frame.expandLine nested n own text with
    | .error e => .error e
    | .ok first =>
      match expandFrom frame nested (n + 1) first.own rest with
      | .error e => .error e
      | .ok others => .ok ⟨others.own, first.output ++ others.output⟩

/-- Lines are expanded in two parts as they are in one: the second part starts from the bindings
that the first one leaves. -/
theorem expandFrom_append (frame : Frame) (nested : Nested) (n : Nat) (own : Bindings)
    (front back : List Text) :
    frame.expandFrom nested n own (front ++ back) =
      match frame.expandFrom nested n own front with
      | .error e => .error e
      | .ok first =>
        match frame.expandFrom nested (n + front.length) first.own back with
        | .error e => .error e
        | .ok others => .ok ⟨others.own, first.output ++ others.output⟩ := by
  induction front generalizing n own with
  | nil =>
    simp only [List.nil_append, expandFrom, List.length_nil, Nat.add_zero]
    cases frame.expandFrom nested n own back <;> rfl
  | cons text rest ih =>
    simp only [List.cons_append, expandFrom, List.length_cons]
    cases frame.expandLine nested n own text with
    | error e => rfl
    | ok head =>
      -- the first line of the second part keeps its number
      have hshift : n + (rest.length + 1) = n + 1 + rest.length := by omega
      simp only [ih, hshift]
      cases frame.expandFrom nested (n + 1) head.own rest with
      | error e => rfl
      | ok first =>
        simp only
        cases frame.expandFrom nested (n + 1 + rest.length) first.own back with
        | error e => rfl
        | ok others => simp

/-- **Expands a file's lines** with at most `depth` files one inside the other below it. -/
def expandWithin : (depth : Nat) → Frame → List Text → Except LineError Expanded
  | 0, frame, lines => frame.expandFrom (fun _ n path _ => .error ⟨n, .cycle path⟩) 1 .empty lines
  | depth + 1, frame, lines =>
    frame.expandFrom (fun inner _ _ ls => (expandWithin depth inner ls).map Expanded.output)
      1 .empty lines

/-- **Expands a file's lines.** No file is included inside itself, so there are never more
files one inside the other than there are regular files. -/
def expand (frame : Frame) (lines : List Text) : Except LineError Expanded :=
  expandWithin frame.files.fileCount frame lines

end Frame

def expandLines (files : FileSystem) (base : Path) (inherited : Bindings) (lines : List Text) :
    Except LineError (List Text) :=
  ((Frame.mk files base inherited []).expand lines).map Expanded.output

/-- **Expands a file**, which is on the chain from the start. -/
def expandFile (files : FileSystem) (base : Path) (inherited : Bindings) (file : Text) :
    Except Error (List Text) :=
  let path := base.join file
  match files.readLines path with
  | .error e => .error (.read e)
  | .ok lines =>
    match (Frame.mk files base inherited [(files.identity path).route]).expand lines with
    | .error e => .error (.line e)
    | .ok expanded => .ok expanded.output

def expandTemplate (files : FileSystem) (base : Path) (file : Text) : Except Error (List Text) :=
  expandFile files base .empty file

end LineTemplate
