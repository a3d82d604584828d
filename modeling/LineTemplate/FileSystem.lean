import LineTemplate.Path

/-!
# File systems

A file system is a finite table of entries by location. A location's entry is a regular file,
a symbolic link or a directory; the root is a directory without being listed.

* **`FileSystem.entryAt?`** — what stands at a location;
* **`FileSystem.put`**, **`FileSystem.erase`** — the table after one change, with the laws
  `entryAt?_put` and `entryAt?_erase`;
* **`FileSystem.fileCount`** — how many regular files the table lists.

How a path leads to a location is the subject of `FileSystem.Walk`.
-/

namespace LineTemplate

/-- **What a regular file holds:** the characters of a text if its bytes are well-formed UTF-8,
and else nothing that could be read. -/
inductive Content where
  | text (text : Text)
  | binary
deriving DecidableEq, Repr

def Content.ofBytes (bytes : ByteArray) : Content :=
  match String.fromUTF8? bytes with
  | some s => .text s.toList
  | none => .binary

/-- What can stand at a location. A link's target is a path, seen from the link's directory. -/
inductive Entry where
  | file (content : Content)
  | link (target : Path)
  | directory
deriving DecidableEq, Repr

def Entry.isFile : Entry → Bool
  | .file _ => true
  | .link _ | .directory => false

/-- **A file system:** the entries by location, and the directory that relative paths start
from. Where a location is listed twice, the first entry counts. -/
structure FileSystem where
  entries : List (Location × Entry)
  workingDirectory : Location
deriving DecidableEq, Repr

namespace FileSystem

def entryAt? (files : FileSystem) (location : Location) : Option Entry :=
  if location = [] then some .directory
  else (files.entries.find? (·.1 = location)).map (·.2)

def isDirectory (files : FileSystem) (location : Location) : Bool :=
  files.entryAt? location = some .directory

def contentAt? (files : FileSystem) (location : Location) : Option Content :=
  match files.entryAt? location with
  | some (.file content) => some content
  | _ => none

def fileCount (files : FileSystem) : Nat := files.entries.countP (·.2.isFile)

def erase (files : FileSystem) (location : Location) : FileSystem :=
  { files with entries := files.entries.filter (·.1 ≠ location) }

def put (files : FileSystem) (location : Location) (entry : Entry) : FileSystem :=
  { files with entries := (location, entry) :: (files.erase location).entries }

/-! ## The table after a change -/

@[simp] theorem entryAt?_root (files : FileSystem) : files.entryAt? [] = some .directory := rfl

theorem entryAt?_erase (files : FileSystem) {location : Location} (h : location ≠ [])
    (other : Location) :
    (files.erase location).entryAt? other =
      if other = location then none else files.entryAt? other := by
  by_cases hroot : other = []
  · subst hroot; simp [Ne.symm h]
  · by_cases hsame : other = location
    · subst hsame
      simp [entryAt?, erase, hroot, List.find?_filter]
    · -- what was filtered out stood at another location
      have hfind : (files.entries.filter (·.1 ≠ location)).find? (·.1 = other) =
          files.entries.find? (·.1 = other) := by
        rw [List.find?_filter]
        congr 1
        funext e
        by_cases he : e.1 = other
        · simp [he, hsame]
        · simp [he]
      simp only [entryAt?, erase, hroot, hsame, if_false, hfind]

theorem entryAt?_put (files : FileSystem) {location : Location} (h : location ≠ []) (entry : Entry)
    (other : Location) :
    (files.put location entry).entryAt? other =
      if other = location then some entry else files.entryAt? other := by
  by_cases hsame : other = location
  · subst hsame; simp [entryAt?, put, h]
  · have herase := files.entryAt?_erase h other
    by_cases hroot : other = []
    · subst hroot; simp [Ne.symm h]
    · simp only [hsame, if_false] at herase ⊢
      rw [← herase]
      simp [entryAt?, put, hroot, Ne.symm hsame]

end FileSystem

end LineTemplate
