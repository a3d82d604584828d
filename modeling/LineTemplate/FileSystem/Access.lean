import LineTemplate.FileSystem.Walk
import LineTemplate.Text.Lines

/-!
# Reading, recognising and writing files

* **`FileSystem.readLines`** — the lines of the file that a path leads to, or why there are none;
* **`FileSystem.identity`** — one path for all spellings that lead to the same entry, the
  canonical one; a path that leads nowhere stands for itself;
* **`FileSystem.write`** — the file system after a text was written to a path.
-/

namespace LineTemplate

/-- **Why a file has no lines to give:** no regular file is there, or its bytes are no text. -/
inductive ReadError where
  | notFound (path : Path)
  | unreadable (path : Path)
deriving DecidableEq, Repr

namespace FileSystem

def canonical? (files : FileSystem) (path : Path) : Option Location :=
  match files.walk .find path with
  | .ok (.existing location) => some location
  | _ => none

/-- **The identity of a path:** its canonical path, or the path as given if there is none. -/
def identity (files : FileSystem) (path : Path) : Path :=
  ((files.canonical? path).map Location.path).getD path

/-- The location of the regular file that opening the path would open. -/
def fileAt? (files : FileSystem) (path : Path) : Option Location :=
  if path.text.utf8Length < pathLimit then
    (files.canonical? path).filter fun location => (files.contentAt? location).isSome
  else none

def content? (files : FileSystem) (path : Path) : Option Content :=
  (files.fileAt? path).bind files.contentAt?

def readText (files : FileSystem) (path : Path) : Except ReadError Text :=
  match files.content? path with
  | none => .error (.notFound path)
  | some .binary => .error (.unreadable path)
  | some (.text text) => .ok text

/-- **The lines of the file** that the path leads to. -/
def readLines (files : FileSystem) (path : Path) : Except ReadError (List Text) :=
  (files.readText path).map Text.lines

/-- **Writing.** The text becomes the whole content of the file that the path leads to, which
is created if only its name is missing. On a fault nothing has changed. -/
def write (files : FileSystem) (path : Path) (text : Text) : Except PathFault FileSystem :=
  if path.text.utf8Length < pathLimit then
    match files.walk .create path with
    | .error fault => .error fault
    | .ok (.vacant location) => .ok (files.put location (.file (.text text)))
    | .ok (.existing location) =>
      if files.isDirectory location then .error .isADirectory
      else .ok (files.put location (.file (.text text)))
  else .error .nameTooLong

/-! ## What a file that can be opened is -/

theorem fileAt?_eq_some_iff {files : FileSystem} {path : Path} {location : Location} :
    files.fileAt? path = some location ↔
      path.text.utf8Length < pathLimit ∧ files.canonical? path = some location ∧
        (files.contentAt? location).isSome := by
  unfold fileAt?
  split
  · next hshort => rw [Option.filter_eq_some_iff, and_iff_right hshort]
  · next hlong => exact ⟨fun h => (by cases h), fun h => absurd h.1 hlong⟩

theorem canonical?_of_fileAt? {files : FileSystem} {path : Path} {location : Location}
    (h : files.fileAt? path = some location) : files.canonical? path = some location :=
  (fileAt?_eq_some_iff.1 h).2.1

theorem identity_of_canonical? {files : FileSystem} {path : Path} {location : Location}
    (h : files.canonical? path = some location) : files.identity path = location.path := by
  rw [identity, h]
  rfl

theorem identity_of_canonical?_eq_none {files : FileSystem} {path : Path}
    (h : files.canonical? path = none) : files.identity path = path := by
  rw [identity, h]
  rfl

/-- All paths that open one file have one identity. -/
theorem identity_of_fileAt? {files : FileSystem} {path : Path} {location : Location}
    (h : files.fileAt? path = some location) : files.identity path = location.path :=
  identity_of_canonical? (canonical?_of_fileAt? h)

theorem readText_eq_ok_iff {files : FileSystem} {path : Path} {text : Text} :
    files.readText path = .ok text ↔ files.content? path = some (.text text) := by
  unfold readText
  split <;> simp_all

theorem readLines_eq_ok_iff {files : FileSystem} {path : Path} {lines : List Text} :
    files.readLines path = .ok lines ↔
      ∃ text, files.content? path = some (.text text) ∧ text.lines = lines := by
  unfold readLines
  cases h : files.readText path with
  | error e =>
    have hnone : ∀ text, files.content? path ≠ some (.text text) := fun text htext => by
      rw [readText_eq_ok_iff.2 htext] at h; cases h
    simp [Except.map, hnone]
  | ok text => simp [Except.map, readText_eq_ok_iff.1 h]

/-- Where there is no file to open, this is what is reported. -/
theorem readLines_of_fileAt?_eq_none {files : FileSystem} {path : Path}
    (h : files.fileAt? path = none) : files.readLines path = .error (.notFound path) := by
  unfold readLines readText content?
  rw [h]
  rfl

/-- A file that gives no lines is reported under the path that was to be read. -/
theorem cause_of_readLines_eq_error {files : FileSystem} {path : Path} {cause : ReadError}
    (h : files.readLines path = .error cause) :
    cause = .notFound path ∨ cause = .unreadable path := by
  unfold readLines readText at h
  cases hcontent : files.content? path with
  | none =>
    rw [hcontent] at h
    cases h
    exact Or.inl rfl
  | some content =>
    rw [hcontent] at h
    cases content with
    | binary => cases h; exact Or.inr rfl
    | text text => cases h

end FileSystem

end LineTemplate
