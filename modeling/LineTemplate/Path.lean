import LineTemplate.Text

/-!
# Paths

A path is written text; what it leads to only a file system can say (`FileSystem.Walk`). Here
stands what its text alone decides.

* **`Name`** — the name of one entry of a directory: not empty, no slash, neither `.` nor `..`;
* **`Path.segments`** — the pieces between the slashes, each read as a `Segment`;
* **`Path.join`** — a file name as seen from a base directory;
* **`Path.route`** — the steps that a path takes. A slash at the end, repeated slashes and a
  `.` behind the start are no steps, so paths that differ in these have one route;
* **`Location`** — a place in the tree of directories, and its one canonical path.

`Location.route_path` reads a location back from its canonical path, so different locations
never share a route (`Location.route_path_inj`).
-/

namespace LineTemplate

def IsName (text : Text) : Prop := text ≠ [] ∧ text ≠ ['.'] ∧ text ≠ ['.', '.'] ∧ '/' ∉ text

instance (text : Text) : Decidable (IsName text) := by unfold IsName; infer_instance

/-- **The name of an entry** of a directory. -/
structure Name where
  text : Text
  isName : IsName text
deriving DecidableEq

instance : Repr Name := ⟨fun n _ => repr (String.ofList n.text)⟩

/-- What stands between two slashes of a path: nothing, `.`, `..` or a name. -/
inductive Segment where
  | blank
  | current
  | parent
  | name (n : Name)
deriving DecidableEq, Repr

namespace Segment

def ofText (text : Text) : Segment :=
  if h : IsName text then .name ⟨text, h⟩
  else if text = ['.', '.'] then .parent
  else if text = ['.'] then .current
  else .blank

def isStep : Segment → Bool
  | .blank | .current => false
  | .parent | .name _ => true

@[simp] theorem ofText_name (n : Name) : ofText n.text = .name n := by
  simp [ofText, n.isName]

end Segment

/-- **A path**, as written. -/
structure Path where
  text : Text
deriving DecidableEq, Repr

/-- The steps of a path: whether it starts at the root, and where it goes from there. -/
structure Route where
  absolute : Bool
  steps : List Segment
deriving DecidableEq, Repr

namespace Path

def isAbsolute (path : Path) : Bool := path.text.head? = some '/'

def segments (path : Path) : List Segment := (path.text.splitOn '/').map Segment.ofText

/-- **Joining** makes one path of a base directory and a file name. An absolute file name
stands for itself, and so does any file name if the base is empty. -/
def join (base : Path) (file : Text) : Path :=
  if file.head? = some '/' ∨ base.text = [] then ⟨file⟩
  else if base.text.getLast? = some '/' then ⟨base.text ++ file⟩
  else ⟨base.text ++ '/' :: file⟩

/-- **The route of a path**: of its segments only the steps count, and a `.` that a relative
path starts with. -/
def route (path : Path) : Route where
  absolute := path.isAbsolute
  steps :=
    match path.segments with
    -- an absolute path starts with a blank segment, so this one is relative
    | .current :: rest => .current :: rest.filter Segment.isStep
    | segments => segments.filter Segment.isStep

end Path

/-- **A location** in the tree of directories: the names on the way to it from the root. -/
abbrev Location := List Name

namespace Location

/-- The canonical path of a location: absolute, without `.`, `..` and spare slashes. -/
def path (location : Location) : Path := ⟨'/' :: ['/'].intercalate (location.map Name.text)⟩

theorem segments_path (location : Location) :
    location.path.segments =
      .blank :: if location = [] then [.blank] else location.map Segment.name := by
  -- the slash in front leaves a blank piece at the start
  have hsplit : location.path.text.splitOn '/' =
      [] :: (['/'].intercalate (location.map Name.text)).splitOn '/' := by
    simpa [path] using List.splitOn_append_cons_self (a := '/') ([] : Text)
      (['/'].intercalate (location.map Name.text))
  have hblank : Segment.ofText [] = .blank := rfl
  rw [Path.segments, hsplit, List.map_cons, hblank]
  by_cases h : location = []
  · subst h; rfl
  · rw [if_neg h, List.splitOn_intercalate '/' _ (by simpa using h)]
    · simp
    · -- no name has a slash in it, so no piece is split further
      intro text htext
      obtain ⟨n, -, rfl⟩ := List.mem_map.1 htext
      exact n.isName.2.2.2

theorem route_path (location : Location) :
    location.path.route = ⟨true, location.map Segment.name⟩ := by
  have habs : location.path.isAbsolute = true := by simp [Path.isAbsolute, path]
  simp only [Path.route, segments_path, habs]
  by_cases h : location = []
  · subst h; rfl
  · have hsteps : (location.map Segment.name).filter Segment.isStep = location.map Segment.name :=
      List.filter_eq_self.2 (by simp [Segment.isStep])
    simp [h, hsteps, Segment.isStep]

/-- Different locations have different routes. -/
theorem route_path_inj {a b : Location} : a.path.route = b.path.route ↔ a = b := by
  refine ⟨fun h => ?_, fun h => h ▸ rfl⟩
  rw [route_path, route_path, Route.mk.injEq] at h
  have hinj : Function.Injective Segment.name := fun m n hmn => Segment.name.inj hmn
  exact (List.map_inj_right (fun m n => @hinj m n)).1 h.2

end Location

end LineTemplate
