import LineTemplate.FileSystem.Access

/-!
# Reading what was written

Writing may create a file, and it follows links, so the name that is written to need not be the name
of the file that changes. Still the same path reads the text back: what is put in place at the end
of a walk turns no step of that walk aside.

## The architecture

* **`FileSystem.Leads`** — a walk as a relation, with one constructor for each kind of step, and
  `walkFrom_eq_ok_iff`, that it is the walk which is computed.
* **`Leads.isPrefix_of_link`** — a walk never ends at a link, unless it goes up to one.
* **`Leads.find_put`** — after a file was put where a walk ends, the walk finds that file.
* **`Leads.find`**, **`Leads.missing`** — what the path led to before.
* **`write_eq_ok_iff`** — what writing does.
* **`Saves`**, **`exists_saves_of_write`** — one file is created or replaced, and nothing else
  changes.
* **`readText_of_write`** — the headline.
-/

namespace LineTemplate

def Spot.location : Spot → Location
  | .existing location | .vacant location => location

/-- An entry that is no link, so that a walk need not go on from it. -/
def Entry.IsEnd (entry : Entry) : Prop := ∀ target, entry ≠ .link target

/-- A name with only slashes behind it is no name for a file that is to be created. -/
def Intent.Refuses (intent : Intent) (rest : List Segment) : Prop :=
  intent = .create ∧ rest ≠ [] ∧ rest.all (· = .blank)

instance (intent : Intent) (rest : List Segment) : Decidable (intent.Refuses rest) := by
  unfold Intent.Refuses; infer_instance

theorem Intent.not_refuses_find (rest : List Segment) : ¬ Intent.find.Refuses rest :=
  fun hrefuses => by cases hrefuses.1

namespace FileSystem

/-! ## Walks as a relation -/

/-- **The segments lead from a directory to a spot** over at most `links` links. -/
inductive Leads (files : FileSystem) (intent : Intent) :
    (links : Nat) → Location → List Segment → Spot → Prop where
  | arrive {links : Nat} {here : Location} : Leads files intent links here [] (.existing here)
  | stay {links : Nat} {here : Location} {segment : Segment} {rest : List Segment} {spot : Spot}
      (hdir : files.isDirectory here) (hstay : segment.isStep = false)
      (hrest : Leads files intent links here rest spot) :
      Leads files intent links here (segment :: rest) spot
  | ascend {links : Nat} {here : Location} {rest : List Segment} {spot : Spot}
      (hdir : files.isDirectory here) (hrest : Leads files intent links here.dropLast rest spot) :
      Leads files intent links here (.parent :: rest) spot
  | free {links : Nat} {here : Location} {n : Name} (hdir : files.isDirectory here)
      (hintent : intent = .create) (hlength : n.text.utf8Length ≤ longestName)
      (hnone : files.entryAt? (here ++ [n]) = none) :
      Leads files intent links here [.name n] (.vacant (here ++ [n]))
  | follow {links : Nat} {here : Location} {n : Name} {target : Path} {rest : List Segment}
      {spot : Spot} (hdir : files.isDirectory here) (hrefuses : ¬ intent.Refuses rest)
      (hlength : n.text.utf8Length ≤ longestName)
      (hlink : files.entryAt? (here ++ [n]) = some (.link target))
      (hrest : Leads files intent links (startOf target here) (target.segments ++ rest) spot) :
      Leads files intent (links + 1) here (.name n :: rest) spot
  | enter {links : Nat} {here : Location} {n : Name} {entry : Entry} {rest : List Segment}
      {spot : Spot} (hdir : files.isDirectory here) (hrefuses : ¬ intent.Refuses rest)
      (hlength : n.text.utf8Length ≤ longestName)
      (hentry : files.entryAt? (here ++ [n]) = some entry) (hlink : ∀ target, entry ≠ .link target)
      (hrest : Leads files intent links (here ++ [n]) rest spot) :
      Leads files intent links here (.name n :: rest) spot

variable {files : FileSystem} {intent : Intent}

/-- A walk up to the first link is in the relation, if what takes the link over is. -/
theorem leads_of_walkWith {links : Nat} {spot : Spot}
    {follow : Location → List Segment → Except PathFault Spot}
    (hfollow : ∀ {here segments}, follow here segments = .ok spot →
      ∃ fewer, links = fewer + 1 ∧ files.Leads intent fewer here segments spot)
    {here : Location} {segments : List Segment}
    (h : files.walkWith intent follow here segments = .ok spot) :
    files.Leads intent links here segments spot := by
  fun_induction walkWith files intent follow here segments with
  | case1 here =>
    cases h
    exact .arrive
  | case3 here rest hdir ih | case4 here rest hdir ih =>
    exact .stay (Classical.not_not.1 hdir) rfl (ih h)
  | case5 here rest hdir ih => exact .ascend (Classical.not_not.1 hdir) (ih h)
  | case8 here rest hdir n hrefuses hlength hnone hlast =>
    obtain ⟨hintent, rfl⟩ := hlast
    cases h
    exact .free (Classical.not_not.1 hdir) hintent (Nat.not_lt.1 hlength) hnone
  | case10 here rest hdir n hrefuses hlength target hlink =>
    obtain ⟨fewer, rfl, hrest⟩ := hfollow h
    exact .follow (Classical.not_not.1 hdir) hrefuses (Nat.not_lt.1 hlength) hlink hrest
  | case11 here rest hdir n hrefuses hlength entry hlink hentry ih =>
    exact .enter (Classical.not_not.1 hdir) hrefuses (Nat.not_lt.1 hlength) hentry hlink (ih h)
  | case2 | case6 | case7 | case9 => cases h

/-- The first step of a walk, however many links it may follow. -/
theorem walkFrom_cons (links : Nat) (here : Location) (segment : Segment) (rest : List Segment) :
    files.walkFrom intent links here (segment :: rest) =
      if ¬ files.isDirectory here then .error .notADirectory
      else
        match segment with
        | .blank => files.walkFrom intent links here rest
        | .current => files.walkFrom intent links here rest
        | .parent => files.walkFrom intent links here.dropLast rest
        | .name n =>
          if intent.Refuses rest then .error .isADirectory
          else if longestName < n.text.utf8Length then .error .nameTooLong
          else
            match files.entryAt? (here ++ [n]) with
            | none =>
              if intent = .create ∧ rest = [] then .ok (.vacant (here ++ [n]))
              else .error .missing
            | some (.link target) =>
              match links with
              | 0 => .error .tooManyLinks
              | fewer + 1 =>
                files.walkFrom intent fewer (startOf target here) (target.segments ++ rest)
            | some _ => files.walkFrom intent links (here ++ [n]) rest := by
  cases links <;> rfl

theorem Leads.walkFrom_eq {links : Nat} {here : Location} {segments : List Segment} {spot : Spot}
    (h : files.Leads intent links here segments spot) :
    files.walkFrom intent links here segments = .ok spot := by
  induction h with
  | @arrive links here => cases links <;> rfl
  | @stay _ _ segment _ _ hdir hstay _ ih =>
    cases segment with
    | blank | current => rw [walkFrom_cons, if_neg (not_not_intro hdir), ih]
    | parent | name n => cases hstay
  | ascend hdir _ ih => rw [walkFrom_cons, if_neg (not_not_intro hdir), ih]
  | free hdir hintent hlength hnone =>
    subst hintent
    have hrefuses : ¬ Intent.create.Refuses [] := fun h => h.2.1 rfl
    simp [walkFrom_cons, hdir, hrefuses, Nat.not_lt.2 hlength, hnone]
  | follow hdir hrefuses hlength hlink _ ih =>
    simp [walkFrom_cons, hdir, hrefuses, Nat.not_lt.2 hlength, hlink, ih]
  | @enter _ _ _ entry _ _ hdir hrefuses hlength hentry hlink _ ih =>
    cases entry with
    | link target => exact absurd rfl (hlink target)
    | file | directory =>
      simp [walkFrom_cons, hdir, hrefuses, Nat.not_lt.2 hlength, hentry, ih]

/-- **The relation is the walk.** -/
theorem walkFrom_eq_ok_iff {links : Nat} {here : Location} {segments : List Segment} {spot : Spot} :
    files.walkFrom intent links here segments = .ok spot ↔
      files.Leads intent links here segments spot := by
  refine ⟨fun h => ?_, Leads.walkFrom_eq⟩
  induction links generalizing here segments with
  | zero => exact leads_of_walkWith (fun hfollow => by cases hfollow) h
  | succ fewer ih => exact leads_of_walkWith (fun hfollow => ⟨fewer, rfl, ih hfollow⟩) h

theorem walk_eq_ok_iff {path : Path} {spot : Spot} :
    files.walk intent path = .ok spot ↔
      path.text ≠ [] ∧ '\x00' ∉ path.text ∧
        files.Leads intent linkLimit (startOf path files.workingDirectory) path.segments spot := by
  unfold walk
  split
  · next hempty => simp [hempty]
  · next hempty =>
    split
    · next hnul => simp [hnul]
    · next hnul => simp [hempty, hnul, walkFrom_eq_ok_iff]

/-- The canonical path of what a path leads to, as a walk. -/
theorem canonical?_eq_some_iff {path : Path} {location : Location} :
    files.canonical? path = some location ↔
      path.text ≠ [] ∧ '\x00' ∉ path.text ∧ files.Leads .find linkLimit
        (startOf path files.workingDirectory) path.segments (.existing location) := by
  rw [← walk_eq_ok_iff]
  unfold canonical?
  constructor
  · intro h
    split at h
    · next hwalk => rw [hwalk, Option.some.inj h]
    · cases h
  · intro h
    rw [h]

/-! ## What a walk ends at -/

theorem startOf_isPrefix (path : Path) (here : Location) : startOf path here <+: here := by
  unfold startOf
  split
  · exact List.nil_prefix
  · exact List.prefix_refl _

/-- A spot that is vacant is free. -/
theorem Leads.entryAt?_vacant {links : Nat} {here : Location} {segments : List Segment}
    {location : Location} (h : files.Leads intent links here segments (.vacant location)) :
    files.entryAt? location = none := by
  generalize hspot : Spot.vacant location = spot at h
  induction h with
  | arrive => cases hspot
  | free _ _ _ hnone =>
    cases hspot
    exact hnone
  | stay _ _ _ ih | ascend _ _ ih | follow _ _ _ _ _ ih | enter _ _ _ _ _ _ ih => exact ih hspot

/-- **A walk that ends at a link** has gone up to it from where it started, since a link that it
comes to it follows. -/
theorem Leads.isPrefix_of_link {links : Nat} {here : Location} {segments : List Segment}
    {spot : Spot} (h : files.Leads intent links here segments spot) {target : Path}
    (hlink : files.entryAt? spot.location = some (.link target)) : spot.location <+: here := by
  induction h with
  | arrive => exact List.prefix_refl _
  | stay _ _ _ ih => exact ih hlink
  | ascend _ _ ih => exact (ih hlink).trans (List.dropLast_prefix _)
  | free _ _ _ hnone => rw [Spot.location, hnone] at hlink; cases hlink
  | follow _ _ _ _ _ ih => exact (ih hlink).trans (startOf_isPrefix _ _)
  | enter _ _ _ hentry hnolink _ ih =>
    rcases List.prefix_concat_iff.1 (ih hlink) with heq | habove
    · rw [heq, hentry] at hlink
      exact absurd (Option.some.inj hlink) (hnolink target)
    · exact habove

/-! ## A file in place of what is no directory -/

section Put

variable {location : Location} (hplace : files.isDirectory location = false) (content : Content)

include hplace

theorem entryAt?_put_file (other : Location) :
    (files.put location (.file content)).entryAt? other =
      if other = location then some (.file content) else files.entryAt? other := by
  refine files.entryAt?_put ?_ (.file content) other
  rintro rfl
  cases hplace

/-- A directory stands somewhere else, so it is one still. -/
theorem isDirectory_put_file {here : Location} (h : files.isDirectory here) :
    (files.put location (.file content)).isDirectory here := by
  have hne : here ≠ location := by
    rintro rfl
    rw [hplace] at h
    cases h
  unfold isDirectory
  rw [entryAt?_put_file hplace, if_neg hne]
  exact h

end Put

/-- **A file that is put where a walk ends** is what the walk finds from then on. -/
theorem Leads.find_put {links : Nat} {here : Location} {segments : List Segment} {spot : Spot}
    (h : files.Leads .create links here segments spot)
    (hplace : files.isDirectory spot.location = false) (content : Content) :
    (files.put spot.location (.file content)).Leads .find links here segments
      (.existing spot.location) := by
  have hfind := Intent.not_refuses_find
  induction h with
  | arrive => exact .arrive
  | stay hdir hstay _ ih => exact .stay (isDirectory_put_file hplace _ hdir) hstay (ih hplace)
  | ascend hdir _ ih => exact .ascend (isDirectory_put_file hplace _ hdir) (ih hplace)
  | @free _ here n hdir _ hlength hnone =>
    have hentry := (entryAt?_put_file hplace content (here ++ [n])).trans (if_pos rfl)
    exact .enter (isDirectory_put_file hplace _ hdir) (hfind _) hlength hentry
      (fun _ heq => by cases heq) .arrive
  | @follow _ here n target _ spot hdir _ hlength hlink hrest ih =>
    -- the walk goes on from above the link, so the link is not where it ends
    have hne : here ++ [n] ≠ spot.location := by
      intro heq
      have habove := hrest.isPrefix_of_link (heq ▸ hlink)
      rw [← heq] at habove
      have hlonger := (habove.trans (startOf_isPrefix target here)).length_le
      rw [List.length_append, List.length_singleton] at hlonger
      omega
    have hentry := (entryAt?_put_file hplace content (here ++ [n])).trans (if_neg hne)
    exact .follow (isDirectory_put_file hplace _ hdir) (hfind _) hlength (hentry.trans hlink)
      (ih hplace)
  | @enter _ here n entry _ spot hdir _ hlength hentry hlink _ ih =>
    by_cases hend : here ++ [n] = spot.location
    · have hfile := (entryAt?_put_file hplace content (here ++ [n])).trans (if_pos hend)
      exact .enter (isDirectory_put_file hplace _ hdir) (hfind _) hlength hfile
        (fun _ heq => by cases heq) (ih hplace)
    · have hsame := (entryAt?_put_file hplace content (here ++ [n])).trans (if_neg hend)
      exact .enter (isDirectory_put_file hplace _ hdir) (hfind _) hlength (hsame.trans hentry)
        hlink (ih hplace)

/-! ## What was there before -/

/-- **A walk that may create a file** finds what is there already. -/
theorem Leads.find {links : Nat} {here : Location} {segments : List Segment} {location : Location}
    (h : files.Leads .create links here segments (.existing location)) :
    files.Leads .find links here segments (.existing location) := by
  have hfind := Intent.not_refuses_find
  generalize hspot : Spot.existing location = spot at h
  induction h with
  | arrive =>
    cases hspot
    exact .arrive
  | stay hdir hstay _ ih => exact .stay hdir hstay (ih hspot)
  | ascend hdir _ ih => exact .ascend hdir (ih hspot)
  | free => cases hspot
  | follow hdir _ hlength hlink _ ih => exact .follow hdir (hfind _) hlength hlink (ih hspot)
  | enter hdir _ hlength hentry hlink _ ih =>
    exact .enter hdir (hfind _) hlength hentry hlink (ih hspot)

/-- Where a walk would create a file, there is nothing to find. -/
theorem Leads.missing {links : Nat} {here : Location} {segments : List Segment}
    {location : Location} (h : files.Leads .create links here segments (.vacant location)) :
    files.walkFrom .find links here segments = .error .missing := by
  have hfind := Intent.not_refuses_find
  generalize hspot : Spot.vacant location = spot at h
  induction h with
  | arrive => cases hspot
  | @stay _ _ segment _ _ hdir hstay _ ih =>
    cases segment with
    | blank | current => rw [walkFrom_cons, if_neg (not_not_intro hdir), ih hspot]
    | parent | name n => cases hstay
  | ascend hdir _ ih => rw [walkFrom_cons, if_neg (not_not_intro hdir), ih hspot]
  | free hdir _ hlength hnone =>
    simp [walkFrom_cons, hdir, hfind, Nat.not_lt.2 hlength, hnone]
  | follow hdir _ hlength hlink _ ih =>
    simp [walkFrom_cons, hdir, hfind, Nat.not_lt.2 hlength, hlink, ih hspot]
  | @enter _ _ _ entry _ _ hdir _ hlength hentry hlink _ ih =>
    cases entry with
    | link target => exact absurd rfl (hlink target)
    | file | directory =>
      simp [walkFrom_cons, hdir, hfind, Nat.not_lt.2 hlength, hentry, ih hspot]

/-- **A tree:** the working directory is a directory, and so is whatever an entry stands in. -/
def IsTree (files : FileSystem) : Prop :=
  files.isDirectory files.workingDirectory ∧
    ∀ listed ∈ files.entries, files.isDirectory listed.1.dropLast

instance (files : FileSystem) : Decidable files.IsTree := by unfold IsTree; infer_instance

theorem IsTree.isDirectory_dropLast (h : files.IsTree) {location : Location} {entry : Entry}
    (hentry : files.entryAt? location = some entry) : files.isDirectory location.dropLast := by
  unfold entryAt? at hentry
  split at hentry
  · next hroot =>
    rw [hroot]
    rfl
  · obtain ⟨listed, hlisted, -⟩ := Option.map_eq_some_iff.1 hentry
    obtain rfl : listed.1 = location := by simpa using List.find?_some hlisted
    exact h.2 listed (List.mem_of_find?_eq_some hlisted)

/-- **In a tree a walk ends at a file or a directory,** since it starts from one. -/
theorem Leads.exists_isEnd (htree : files.IsTree) {links : Nat} {here : Location}
    {segments : List Segment} {location : Location}
    (h : files.Leads intent links here segments (.existing location))
    (hhere : ∃ entry, files.entryAt? here = some entry ∧ entry.IsEnd) :
    ∃ entry, files.entryAt? location = some entry ∧ entry.IsEnd := by
  have hdirectory : ∀ {there}, files.isDirectory there →
      ∃ entry, files.entryAt? there = some entry ∧ entry.IsEnd :=
    fun hdir => ⟨_, by simpa [isDirectory] using hdir, fun _ heq => by cases heq⟩
  generalize hspot : Spot.existing location = spot at h
  induction h with
  | arrive =>
    cases hspot
    exact hhere
  | stay _ _ _ ih => exact ih hhere hspot
  | ascend hdir _ ih =>
    obtain ⟨entry, hentry, -⟩ := hdirectory hdir
    exact ih (hdirectory (htree.isDirectory_dropLast hentry)) hspot
  | free => cases hspot
  | @follow _ here _ target _ _ hdir _ _ _ _ ih =>
    refine ih ?_ hspot
    unfold startOf
    split
    · exact hdirectory rfl
    · exact hdirectory hdir
  | enter _ _ _ hentry hlink _ ih => exact ih ⟨_, hentry, hlink⟩ hspot

/-! ## Writing and reading -/

/-- **What writing does:** it puts a file where the path leads, unless a directory is there. -/
theorem write_eq_ok_iff {path : Path} {text : Text} {saved : FileSystem} :
    files.write path text = .ok saved ↔
      path.text.utf8Length < pathLimit ∧ ∃ spot, files.walk .create path = .ok spot ∧
        files.isDirectory spot.location = false ∧
        saved = files.put spot.location (.file (.text text)) := by
  by_cases hlimit : path.text.utf8Length < pathLimit
  · rw [write, if_pos hlimit]
    cases hwalk : files.walk .create path with
    | error fault => simp
    | ok spot =>
      cases spot with
      | vacant location =>
        have hnone := (walk_eq_ok_iff.1 hwalk).2.2.entryAt?_vacant
        simp [hlimit, isDirectory, Spot.location, hnone, @eq_comm FileSystem saved]
      | existing location =>
        cases hdir : files.isDirectory location with
        | true => simp [hdir, Spot.location]
        | false => simp [hlimit, Spot.location, hdir, @eq_comm FileSystem saved]
  · rw [write, if_neg hlimit]
    exact ⟨fun h => (by cases h), fun h => absurd h.1 hlimit⟩

/-- **A text is saved under a path:** it is what the file at `location` holds, which the path
leads to, and nothing else has changed. -/
structure Saves (files : FileSystem) (path : Path) (text : Text) (location : Location)
    (saved : FileSystem) : Prop where
  /-- The path led there before, or the file is a new one. -/
  replaces_or_creates : files.canonical? path = some location ∨
    files.canonical? path = none ∧ files.entryAt? location = none
  /-- In a tree, what is replaced is a regular file. -/
  replaces_file : files.IsTree → files.canonical? path = some location →
    files.fileAt? path = some location
  denoted : saved.fileAt? path = some location
  content : saved.contentAt? location = some (.text text)
  elsewhere : ∀ other, other ≠ location → saved.entryAt? other = files.entryAt? other
  workingDirectory : saved.workingDirectory = files.workingDirectory

/-- In a tree, what a walk finds is a regular file unless it is a directory. -/
theorem IsTree.isSome_contentAt? (htree : files.IsTree) {path : Path} {location : Location}
    (h : files.canonical? path = some location) (hplace : files.isDirectory location = false) :
    (files.contentAt? location).isSome := by
  obtain ⟨-, -, hleads⟩ := canonical?_eq_some_iff.1 h
  have hstart : files.isDirectory (startOf path files.workingDirectory) := by
    unfold startOf
    split
    · rfl
    · exact htree.1
  obtain ⟨entry, hentry, hend⟩ := hleads.exists_isEnd htree
    ⟨_, by simpa [isDirectory] using hstart, fun _ heq => by cases heq⟩
  cases entry with
  | file content => simp [contentAt?, hentry]
  | link target => exact absurd rfl (hend target)
  | directory => simp [isDirectory, hentry] at hplace

/-- What a path has led to before a text was written to it. -/
theorem canonical?_of_walk_create {path : Path} {spot : Spot}
    (h : files.walk .create path = .ok spot) :
    files.canonical? path = some spot.location ∨
      files.canonical? path = none ∧ files.entryAt? spot.location = none := by
  obtain ⟨hempty, hnul, hleads⟩ := walk_eq_ok_iff.1 h
  cases spot with
  | existing location =>
    exact Or.inl (canonical?_eq_some_iff.2 ⟨hempty, hnul, hleads.find⟩)
  | vacant location =>
    refine Or.inr ⟨?_, hleads.entryAt?_vacant⟩
    unfold canonical? walk
    rw [if_neg hempty, if_neg hnul, hleads.missing]

/-- **Writing saves the text** under the path, or else it fails. -/
theorem exists_saves_of_write {path : Path} {text : Text} {saved : FileSystem}
    (h : files.write path text = .ok saved) :
    ∃ location, files.Saves path text location saved := by
  obtain ⟨hlimit, spot, hwalk, hplace, rfl⟩ := write_eq_ok_iff.1 h
  obtain ⟨hempty, hnul, hleads⟩ := walk_eq_ok_iff.1 hwalk
  have hcanonical : (files.put spot.location (.file (.text text))).canonical? path =
      some spot.location :=
    canonical?_eq_some_iff.2 ⟨hempty, hnul, hleads.find_put hplace (.text text)⟩
  have hcontent : (files.put spot.location (.file (.text text))).contentAt? spot.location =
      some (.text text) := by
    unfold contentAt?
    rw [entryAt?_put_file hplace, if_pos rfl]
  refine ⟨spot.location, canonical?_of_walk_create hwalk, fun htree hbefore => ?_, ?_, hcontent,
    fun other hother => ?_, rfl⟩
  · exact fileAt?_eq_some_iff.2 ⟨hlimit, hbefore, htree.isSome_contentAt? hbefore hplace⟩
  · exact fileAt?_eq_some_iff.2 ⟨hlimit, hcanonical, by rw [hcontent]; rfl⟩
  · rw [entryAt?_put_file hplace, if_neg hother]

/-- **What was written to a path is read from it.** -/
theorem readText_of_write {path : Path} {text : Text} {saved : FileSystem}
    (h : files.write path text = .ok saved) : saved.readText path = .ok text := by
  obtain ⟨location, hsaves⟩ := exists_saves_of_write h
  rw [readText_eq_ok_iff, content?, hsaves.denoted]
  exact hsaves.content

end FileSystem

end LineTemplate
