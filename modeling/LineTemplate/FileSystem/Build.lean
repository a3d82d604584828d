import LineTemplate.FileSystem.Access

/-!
# Building a file system

`FileSystem.place` puts any entry at a path and makes the directories that are missing on the
way there; `FileSystem.remove` takes a file or a link away. Both act on the last name of the
path itself: a link there is replaced or removed, not followed.
-/

namespace LineTemplate

namespace FileSystem

/-- The file system that holds one directory, the working directory, and those around it. -/
def bare (workingDirectory : Location) : FileSystem where
  entries := (List.range workingDirectory.length).map fun n =>
    (workingDirectory.take (n + 1), .directory)
  workingDirectory := workingDirectory

/-- Puts the entry where the segments lead from a directory, and makes missing directories. -/
def placeFrom (files : FileSystem) (entry : Entry) : Location → List Segment → FileSystem
  | _, [] => files
  | here, .blank :: rest => placeFrom files entry here rest
  | here, .current :: rest => placeFrom files entry here rest
  | here, .parent :: rest => placeFrom files entry here.dropLast rest
  | here, [.name n] => files.put (here ++ [n]) entry
  | here, .name n :: rest =>
    let there := here ++ [n]
    match files.entryAt? there with
    | none => placeFrom (files.put there .directory) entry there rest
    | some _ => placeFrom files entry ((files.canonical? there.path).getD there) rest

/-- **Placing an entry** at a path. -/
def place (files : FileSystem) (path : Path) (entry : Entry) : FileSystem :=
  files.placeFrom entry (startOf path files.workingDirectory) path.segments

/-- The file system that holds texts in its root, each under its name. -/
def ofTexts (texts : List (Text × Text)) : FileSystem :=
  texts.foldl (fun (files : FileSystem) (name, text) => files.place ⟨name⟩ (.file (.text text)))
    (bare [])

def remove (files : FileSystem) (path : Path) : FileSystem :=
  match path.segments.getLast? with
  | some (.name n) =>
    match files.walkFrom .find linkLimit (startOf path files.workingDirectory)
        path.segments.dropLast with
    | .ok (.existing here) => files.erase (here ++ [n])
    | _ => files
  | _ => files

end FileSystem

end LineTemplate
