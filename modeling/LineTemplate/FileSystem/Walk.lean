import LineTemplate.FileSystem

/-!
# Walking a path

A path is walked segment by segment. Each location on the way must be a directory; `..` leads
to the directory above the one reached, never just to the text before it; a link is replaced
by its target, seen from the link's own directory. A walk follows forty links at most.

* **`Intent`** — whether the walk is to find what stands at its end, or may create it;
* **`FileSystem.walkWith`** — the walk up to the first link, which it hands over;
* **`FileSystem.walkFrom`** — the walk that follows a given number of links;
* **`FileSystem.walk`** — the walk of a path, from the root or the working directory.
-/

namespace LineTemplate

inductive PathFault where
  | missing
  | notADirectory
  | isADirectory
  | tooManyLinks
  | nameTooLong
  | nulInName
deriving DecidableEq, Repr

def PathFault.message : PathFault → Text
  | .missing => "No such file or directory (os error 2)".toList
  | .notADirectory => "Not a directory (os error 20)".toList
  | .isADirectory => "Is a directory (os error 21)".toList
  | .tooManyLinks => "Too many levels of symbolic links (os error 40)".toList
  | .nameTooLong => "File name too long (os error 36)".toList
  | .nulInName => "file name contained an unexpected NUL byte".toList

/-- What a walk is for: to find an entry, or to create a file where there is none. -/
inductive Intent where
  | find
  | create
deriving DecidableEq, Repr

/-- Where a walk ends: at an entry, or at a name that is still free in an existing directory. -/
inductive Spot where
  | existing (location : Location)
  | vacant (location : Location)
deriving DecidableEq, Repr

/-- The longest name of an entry, in bytes. -/
def longestName : Nat := 255

/-- The shortest path that is too long to open, in bytes. -/
def pathLimit : Nat := 4096

/-- How many links a walk may follow. -/
def linkLimit : Nat := 40

namespace FileSystem

def startOf (path : Path) (here : Location) : Location := if path.isAbsolute then [] else here

/-- **The walk up to the first link**, which `follow` takes over together with the segments
that are left. A file cannot be created under a name with a slash behind it. -/
def walkWith (files : FileSystem) (intent : Intent)
    (follow : Location → List Segment → Except PathFault Spot) :
    Location → List Segment → Except PathFault Spot
  | here, [] => .ok (.existing here)
  | here, segment :: rest =>
    if ¬ files.isDirectory here then .error .notADirectory
    else
      match segment with
      | .blank => walkWith files intent follow here rest
      | .current => walkWith files intent follow here rest
      -- the root is its own parent
      | .parent => walkWith files intent follow here.dropLast rest
      | .name n =>
        if intent = .create ∧ rest ≠ [] ∧ rest.all (· = .blank) then .error .isADirectory
        else if longestName < n.text.utf8Length then .error .nameTooLong
        else
          match files.entryAt? (here ++ [n]) with
          | none =>
            if intent = .create ∧ rest = [] then .ok (.vacant (here ++ [n])) else .error .missing
          | some (.link target) => follow (startOf target here) (target.segments ++ rest)
          | some _ => walkWith files intent follow (here ++ [n]) rest

/-- **The walk that follows at most `links` links.** -/
def walkFrom (files : FileSystem) (intent : Intent) :
    (links : Nat) → Location → List Segment → Except PathFault Spot
  | 0 => files.walkWith intent fun _ _ => .error .tooManyLinks
  | links + 1 => files.walkWith intent (files.walkFrom intent links)

/-- **The walk of a path.** The empty path leads nowhere, nor does one with a NUL. -/
def walk (files : FileSystem) (intent : Intent) (path : Path) : Except PathFault Spot :=
  if path.text = [] then .error .missing
  else if '\x00' ∈ path.text then .error .nulInName
  else files.walkFrom intent linkLimit (startOf path files.workingDirectory) path.segments

end FileSystem

end LineTemplate
