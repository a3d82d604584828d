import LineTemplate.Proofs.Saving
import LineTemplate.Proofs.Termination

/-!
# Inclusions of files that are not there

An inclusion is a cycle if its path has the route of a file that is being expanded. A path that
leads nowhere stands for itself, and its route leaves out spare slashes and dots. So a path that
spells the canonical path of a file being expanded, with a slash behind it, has that file's route:
it leads to no file, and is reported as a cycle all the same. No relative path does so, since
canonical paths are absolute.

## The architecture

* **`FileSystem.IsCanonical`** — a location that is reached by its names alone; every walk ends at
  one (`Leads.isCanonical`).
* **`leads_of_steps`**, **`not_leads_of_spare_end`** — where the steps of such a location lead, with
  spare segments among them or at their end.
* **`canonical?_eq_none_iff_of_route`** — so the route of a file leads nowhere if something spare
  stands at its end.
* **`Frame.TakenFor`** — a path without a file that is taken for a file being expanded;
  `takenFor_iff` says which paths these are.
* **`expandLine_of_missing`**, **`faulty_cycle_iff_of_reaches`** — what an inclusion reports.
* **`missing_file_reported_iff`** — the headline.
* **`not_missing_file_reported`** — a file that is not there, reported as a cycle.
-/

namespace LineTemplate

open Relation (ReflTransGen)

namespace FileSystem

variable {files : FileSystem}

/-! ## Locations that are reached by their names -/

/-- **A location is canonical** if its names lead there: what is on the way are directories, no link
is among them, and no name is too long. -/
def IsCanonical (files : FileSystem) (location : Location) : Prop :=
  ∀ front n, front ++ [n] <+: location → files.isDirectory front ∧
    n.text.utf8Length ≤ longestName ∧
      ∃ entry, files.entryAt? (front ++ [n]) = some entry ∧ entry.IsEnd

theorem IsCanonical.of_isPrefix {location above : Location} (h : files.IsCanonical location)
    (habove : above <+: location) : files.IsCanonical above :=
  fun front n hfront => h front n (hfront.trans habove)

theorem isCanonical_root : files.IsCanonical [] := by
  intro front n hfront
  simp at hfront

/-- **Walks end at canonical locations** if they start at one. -/
theorem Leads.isCanonical {links : Nat} {here : Location} {segments : List Segment}
    {location : Location} (h : files.Leads .find links here segments (.existing location))
    (hhere : files.IsCanonical here) : files.IsCanonical location := by
  generalize hspot : Spot.existing location = spot at h
  induction h with
  | arrive =>
    cases hspot
    exact hhere
  | stay _ _ _ ih => exact ih hhere hspot
  | ascend _ _ ih => exact ih (hhere.of_isPrefix (List.dropLast_prefix _)) hspot
  | free => cases hspot
  | follow _ _ _ _ _ ih => exact ih (hhere.of_isPrefix (startOf_isPrefix _ _)) hspot
  | @enter _ here n entry _ _ hdir _ hlength hentry hlink _ ih =>
    refine ih (fun front m hfront => ?_) hspot
    rcases List.prefix_concat_iff.1 hfront with heq | habove
    · obtain ⟨rfl, hm⟩ := List.append_inj' heq rfl
      cases hm
      exact ⟨hdir, hlength, entry, hentry, hlink⟩
    · exact hhere front m habove

theorem isCanonical_of_canonical? {path : Path} {location : Location}
    (h : files.canonical? path = some location)
    (hstart : files.IsCanonical (startOf path files.workingDirectory)) :
    files.IsCanonical location := by
  obtain ⟨-, -, hleads⟩ := canonical?_eq_some_iff.1 h
  exact hleads.isCanonical hstart

/-! ## Spare segments -/

/-- A segment in front of the steps of a location is spare, or the first one of its names. -/
theorem steps_cons_cases {segment : Segment} {rest : List Segment} {names : Location}
    (h : (segment :: rest).filter Segment.isStep = names.map Segment.name) :
    (segment.isStep = false ∧ rest.filter Segment.isStep = names.map Segment.name) ∨
      ∃ n others, segment = .name n ∧ names = n :: others ∧
        rest.filter Segment.isStep = others.map Segment.name := by
  cases segment with
  | blank | current => exact Or.inl ⟨rfl, h⟩
  | parent =>
    cases names with
    | nil => cases h
    | cons m others => cases h
  | name n =>
    rw [List.filter_cons_of_pos rfl] at h
    cases names with
    | nil => cases h
    | cons m others =>
      rw [List.map_cons, List.cons.injEq] at h
      cases h.1
      exact Or.inr ⟨n, others, rfl, rfl, h.2⟩

theorem getLast?_cons_of_getLast? {α : Type} {a b : α} {as : List α} (h : as.getLast? = some b) :
    (a :: as).getLast? = some b := by
  rw [List.getLast?_cons, h]
  rfl

/-- **The steps of a canonical location lead there,** with anything spare in front of the last one
of them. -/
theorem leads_of_steps (links : Nat) {here names : Location} {segments : List Segment}
    (h : files.IsCanonical (here ++ names))
    (hsteps : segments.filter Segment.isStep = names.map Segment.name)
    (hlast : ∀ segment, segments.getLast? = some segment → segment.isStep) :
    files.Leads .find links here segments (.existing (here ++ names)) := by
  induction segments generalizing here names with
  | nil =>
    obtain rfl : names = [] := List.map_eq_nil_iff.1 hsteps.symm
    rw [List.append_nil]
    exact .arrive
  | cons segment rest ih =>
    have hlast' : ∀ other, rest.getLast? = some other → other.isStep :=
      fun other hother => hlast other (getLast?_cons_of_getLast? hother)
    rcases steps_cons_cases hsteps with ⟨hspare, hrest⟩ | ⟨n, others, rfl, rfl, hrest⟩
    · cases hend : rest.getLast? with
      | none =>
        -- the spare segment would be the last one
        rw [List.getLast?_eq_none_iff.1 hend] at hlast
        rw [hlast segment rfl] at hspare
        cases hspare
      | some last =>
        have hmem : last ∈ names.map Segment.name := by
          rw [← hrest]
          exact List.mem_filter.2 ⟨List.mem_of_getLast? hend, hlast' last hend⟩
        cases names with
        | nil => cases hmem
        | cons n others =>
          have hdir := (h here n ⟨others, by simp⟩).1
          exact .stay hdir hspare (ih h hrest hlast')
    · obtain ⟨hdir, hlength, entry, hentry, hend⟩ := h here n ⟨others, by simp⟩
      have happend : here ++ n :: others = here ++ [n] ++ others := by simp
      rw [happend] at h ⊢
      exact .enter hdir (Intent.not_refuses_find rest) hlength hentry hend (ih h hrest hlast')

/-- **Nothing stands below a file,** so no walk goes on there, not even over a spare segment. -/
theorem not_leads_of_spare_end {links : Nat} {here names : Location} {segments : List Segment}
    {spot : Spot} (h : files.IsCanonical (here ++ names))
    (hfile : files.isDirectory (here ++ names) = false)
    (hsteps : segments.filter Segment.isStep = names.map Segment.name) {last : Segment}
    (hlast : segments.getLast? = some last) (hspare : last.isStep = false) :
    ¬ files.Leads .find links here segments spot := by
  induction segments generalizing here names with
  | nil => cases hlast
  | cons segment rest ih =>
    intro hleads
    rcases steps_cons_cases hsteps with ⟨hstay, hrest⟩ | ⟨n, others, rfl, rfl, hrest⟩
    · cases hleads with
      | stay hdir _ hbehind =>
        cases hend : rest.getLast? with
        | none =>
          -- the walk would have to look around in the file itself
          rw [List.getLast?_eq_none_iff.1 hend] at hrest
          obtain rfl : names = [] := List.map_eq_nil_iff.1 hrest.symm
          rw [List.append_nil, hdir] at hfile
          cases hfile
        | some other =>
          rw [getLast?_cons_of_getLast? hend] at hlast
          exact ih h hfile hrest (hend.trans hlast) hbehind
      | ascend | free | follow | enter => cases hstay
    · obtain ⟨_, _, entry, hentry, hend⟩ := h here n ⟨others, by simp⟩
      have happend : here ++ n :: others = here ++ [n] ++ others := by simp
      rw [happend] at h hfile
      cases hleads with
      | stay _ hstay => cases hstay
      | free _ hintent => cases hintent
      | follow _ _ _ hlink =>
        rw [hentry] at hlink
        exact absurd (Option.some.inj hlink) (hend _)
      | enter _ _ _ _ _ hbehind =>
        cases hrestend : rest.getLast? with
        | none =>
          rw [List.getLast?_eq_none_iff.1 hrestend] at hlast
          cases hlast
          cases hspare
        | some other =>
          rw [getLast?_cons_of_getLast? hrestend] at hlast
          exact ih h hfile hrest (hrestend.trans hlast) hbehind

/-! ## Paths with the route of a file -/

theorem filter_segments_of_route_eq {path : Path} {location : Location}
    (h : path.route = location.path.route) :
    path.isAbsolute ∧ path.segments.filter Segment.isStep = location.map Segment.name := by
  rw [Location.route_path] at h
  have habsolute : path.isAbsolute = true := congrArg Route.absolute h
  have hsteps : path.route.steps = location.map Segment.name := congrArg Route.steps h
  refine ⟨habsolute, ?_⟩
  unfold Path.route at hsteps
  dsimp only at hsteps
  split at hsteps
  · cases location <;> cases hsteps
  · exact hsteps

/-- **The route of a file leads nowhere** if and only if something spare stands at the end of the
path, names with a NUL apart. -/
theorem canonical?_eq_none_iff_of_route {path : Path} {location : Location}
    (h : files.IsCanonical location) (hfile : files.isDirectory location = false)
    (hroute : path.route = location.path.route) :
    files.canonical? path = none ↔
      '\x00' ∈ path.text ∨
        ∃ last, path.segments.getLast? = some last ∧ last.isStep = false := by
  obtain ⟨habsolute, hsteps⟩ := filter_segments_of_route_eq hroute
  have hstart : startOf path files.workingDirectory = [] := if_pos habsolute
  have hne : path.text ≠ [] := by
    intro hnil
    rw [Path.isAbsolute, hnil] at habsolute
    cases habsolute
  constructor
  · intro hnone
    by_cases hnul : '\x00' ∈ path.text
    · exact Or.inl hnul
    · refine Or.inr (Classical.byContradiction fun hspare => ?_)
      have hlast : ∀ segment, path.segments.getLast? = some segment → segment.isStep := by
        intro segment hsegment
        cases hstep : segment.isStep with
        | true => rfl
        | false => exact absurd ⟨segment, hsegment, hstep⟩ hspare
      have hleads : files.Leads .find linkLimit [] path.segments (.existing location) :=
        leads_of_steps linkLimit h hsteps hlast
      rw [canonical?_eq_some_iff.2 ⟨hne, hnul, hstart ▸ hleads⟩] at hnone
      cases hnone
  · intro hspare
    refine Option.eq_none_iff_forall_ne_some.2 fun other hother => ?_
    obtain ⟨-, hnul, hleads⟩ := canonical?_eq_some_iff.1 hother
    rw [hstart] at hleads
    rcases hspare with hmem | ⟨last, hlast, hstep⟩
    · exact hnul hmem
    · exact @not_leads_of_spare_end files _ [] location _ _ h hfile hsteps last hlast hstep hleads

end FileSystem

/-! ## Paths that are taken for files -/

/-- **A path is taken for a file** that is being expanded, although no file can be opened under it:
it leads nowhere and has the route of that file, or it leads there and is too long to open. -/
inductive Frame.TakenFor (frame : Frame) (path : Path) (location : Location) : Prop where
  | nowhere (hexpanded : location.path.route ∈ frame.chain)
      (hnone : frame.files.canonical? path = none) (hroute : path.route = location.path.route) :
      TakenFor frame path location
  | tooLong (hexpanded : location.path.route ∈ frame.chain)
      (hsome : frame.files.canonical? path = some location)
      (hlimit : pathLimit ≤ path.text.utf8Length) : TakenFor frame path location

/-- Canonical paths are absolute, so a relative path has the route of no file. -/
theorem Frame.not_takenFor_of_relative {frame : Frame} {path : Path}
    (hshort : path.text.utf8Length < pathLimit) (hrelative : path.isAbsolute = false) :
    ¬ ∃ location, frame.TakenFor path location := by
  rintro ⟨location, htaken⟩
  cases htaken with
  | nowhere _ _ hroute =>
    rw [(FileSystem.filter_segments_of_route_eq hroute).1] at hrelative
    cases hrelative
  | tooLong _ _ hlimit => omega

namespace Activation

variable {files : FileSystem} {base : Path} {inherited : Bindings} {root a : Activation}

/-- **What is being expanded has been opened** under some path. -/
theorem exists_fileAt?_of_mem_chain (hroot : Root files base inherited root)
    (hreach : ReflTransGen Calls root a) {route : Route} (hmem : route ∈ a.frame.chain) :
    ∃ location path, files.fileAt? path = some location ∧ location.path.route = route := by
  induction hreach with
  | refl =>
    cases hroot with
    | lines => cases hmem
    | file hread =>
      obtain ⟨location, text, hfile, -, -⟩ := FileSystem.exists_file_of_readLines hread
      rw [ofFile, List.mem_singleton, FileSystem.identity_of_fileAt? hfile] at hmem
      exact ⟨location, _, hfile, hmem.symm⟩
  | tail hcalls hcall ih =>
    have hfiles := (hroot.fileChain_of_reaches hcalls).1
    cases hcall with
    | inclusion _ _ hopens =>
      rcases List.mem_cons.1 hmem with rfl | houter
      · obtain ⟨location, text, hfile, -, -, hroute⟩ := hopens.exists_file
        exact ⟨location, _, hfiles ▸ hfile, hroute.symm⟩
      · exact ih houter

theorem base_eq_of_reaches (hroot : Root files base inherited root)
    (hreach : ReflTransGen Calls root a) : a.frame.base = base := by
  induction hreach with
  | refl => cases hroot <;> rfl
  | tail _ hcall ih => exact hcall.base_eq.trans ih

/-- **A path without a file** has a route on the chain if and only if it is taken for a file. -/
theorem routeOf_mem_chain_iff (hroot : Root files base inherited root)
    (hreach : ReflTransGen Calls root a) {path : Path} (hmissing : files.fileAt? path = none) :
    a.frame.routeOf path ∈ a.frame.chain ↔ ∃ location, a.frame.TakenFor path location := by
  obtain rfl := (hroot.fileChain_of_reaches hreach).1
  cases hcanonical : a.frame.files.canonical? path with
  | none =>
    have hroute : a.frame.routeOf path = path.route := by
      rw [Frame.routeOf, FileSystem.identity_of_canonical?_eq_none hcanonical]
    rw [hroute]
    constructor
    · intro hmem
      obtain ⟨location, _, -, heq⟩ := exists_fileAt?_of_mem_chain hroot hreach hmem
      exact ⟨location, .nowhere (heq ▸ hmem) hcanonical heq.symm⟩
    · rintro ⟨location, htaken⟩
      cases htaken with
      | nowhere hexpanded _ hroute => exact hroute ▸ hexpanded
      | tooLong _ hsome => rw [hcanonical] at hsome; cases hsome
  | some found =>
    have hroute : a.frame.routeOf path = found.path.route := by
      rw [Frame.routeOf, FileSystem.identity_of_canonical? hcanonical]
    rw [hroute]
    constructor
    · intro hmem
      obtain ⟨location, _, hfile, heq⟩ := exists_fileAt?_of_mem_chain hroot hreach hmem
      obtain rfl := Location.route_path_inj.1 heq
      have hcontent := (FileSystem.fileAt?_eq_some_iff.1 hfile).2.2
      -- a file is there, so it is the length that keeps it from being opened
      refine ⟨location, .tooLong hmem hcanonical (Nat.le_of_not_lt fun hshort => ?_)⟩
      rw [FileSystem.fileAt?_eq_some_iff.2 ⟨hshort, hcanonical, hcontent⟩] at hmissing
      cases hmissing
    · rintro ⟨location, htaken⟩
      cases htaken with
      | nowhere _ hnone => rw [hcanonical] at hnone; cases hnone
      | tooLong hexpanded hsome =>
        rw [hcanonical] at hsome
        cases hsome
        exact hexpanded

theorem routeOf_mem_chain_cases (hroot : Root files base inherited root)
    (hreach : ReflTransGen Calls root a) (path : Path) :
    a.frame.routeOf path ∈ a.frame.chain ↔ ∃ location,
      (files.fileAt? path = some location ∧ location.path.route ∈ a.frame.chain) ∨
        (files.fileAt? path = none ∧ a.frame.TakenFor path location) := by
  cases hfile : files.fileAt? path with
  | none =>
    rw [routeOf_mem_chain_iff hroot hreach hfile]
    simp
  | some location =>
    have hroute : a.frame.routeOf path = location.path.route := by
      rw [Frame.routeOf, (hroot.fileChain_of_reaches hreach).1,
        FileSystem.identity_of_fileAt? hfile]
    rw [hroute]
    simp

/-- What is being expanded is a file, and stands where its canonical path leads. -/
theorem isCanonical_of_mem_chain (hroot : Root files base inherited root)
    (hreach : ReflTransGen Calls root a)
    (hhere : files.canonical? files.workingDirectory.path = some files.workingDirectory)
    {location : Location} (hmem : location.path.route ∈ a.frame.chain) :
    files.IsCanonical location ∧ files.isDirectory location = false := by
  obtain ⟨opened, path, hfile, hroute⟩ := exists_fileAt?_of_mem_chain hroot hreach hmem
  obtain rfl := Location.route_path_inj.1 hroute
  obtain ⟨-, hcanonical, hcontent⟩ := FileSystem.fileAt?_eq_some_iff.1 hfile
  have hworking : files.IsCanonical files.workingDirectory :=
    FileSystem.isCanonical_of_canonical? hhere FileSystem.isCanonical_root
  refine ⟨FileSystem.isCanonical_of_canonical? hcanonical
    (hworking.of_isPrefix (FileSystem.startOf_isPrefix _ _)), ?_⟩
  unfold FileSystem.contentAt? at hcontent
  unfold FileSystem.isDirectory
  split at hcontent
  · next hentry =>
    rw [hentry]
    rfl
  · cases hcontent

/-- **A path of a length that can be opened** is taken for a file if it has the route of one that is
being expanded and leads nowhere: something spare stands at its end, or a name holds a NUL. -/
theorem takenFor_iff (hroot : Root files base inherited root) (hreach : ReflTransGen Calls root a)
    (hhere : files.canonical? files.workingDirectory.path = some files.workingDirectory)
    {path : Path} (hshort : path.text.utf8Length < pathLimit) (location : Location) :
    a.frame.TakenFor path location ↔
      location.path.route ∈ a.frame.chain ∧ path.route = location.path.route ∧
        ('\x00' ∈ path.text ∨
          ∃ last, path.segments.getLast? = some last ∧ last.isStep = false) := by
  have hfiles : a.frame.files = files := (hroot.fileChain_of_reaches hreach).1
  constructor
  · intro htaken
    cases htaken with
    | nowhere hexpanded hnone hroute =>
      obtain ⟨hcanonical, hfile⟩ := isCanonical_of_mem_chain hroot hreach hhere hexpanded
      rw [hfiles] at hnone
      exact ⟨hexpanded, hroute,
        (FileSystem.canonical?_eq_none_iff_of_route hcanonical hfile hroute).1 hnone⟩
    | tooLong _ _ hlimit => omega
  · rintro ⟨hexpanded, hroute, hspare⟩
    obtain ⟨hcanonical, hfile⟩ := isCanonical_of_mem_chain hroot hreach hhere hexpanded
    refine .nowhere hexpanded ?_ hroute
    rw [hfiles]
    exact (FileSystem.canonical?_eq_none_iff_of_route hcanonical hfile hroute).2 hspare

/-! ## What an inclusion reports -/

theorem expandLine_of_missing (hroot : Root files base inherited root)
    (hreach : ReflTransGen Calls root a) {text file : Text}
    (hd : (Line.ofText text).directive = .ok (.inclusion file))
    (hmissing : files.fileAt? (base.join file) = none) (nested : Nested) (n : Nat)
    (own : Bindings) :
    (a.frame.expandLine nested n own text =
        .error ⟨n, .unloadable .inclusion file (.notFound (base.join file))⟩ ↔
      ¬ ∃ location, a.frame.TakenFor (base.join file) location) ∧
    (a.frame.expandLine nested n own text = .error ⟨n, .cycle (base.join file)⟩ ↔
      ∃ location, a.frame.TakenFor (base.join file) location) := by
  have hbase : a.frame.base = base := base_eq_of_reaches hroot hreach
  have hfiles : a.frame.files = files := (hroot.fileChain_of_reaches hreach).1
  rw [← routeOf_mem_chain_iff hroot hreach hmissing]
  by_cases hmem : a.frame.routeOf (base.join file) ∈ a.frame.chain
  · have hcycle : a.frame.Faulty own text (.cycle (base.join file)) :=
      Frame.faulty_cycle_iff.2 ⟨file, hd, by rw [hbase], hmem⟩
    rw [hcycle.expandLine_eq]
    simp [hmem]
  · have hread := FileSystem.readLines_of_fileAt?_eq_none hmissing
    have hunread : a.frame.Faulty own text
        (.unloadable .inclusion file (.notFound (base.join file))) := by
      subst hbase hfiles
      exact .unreadable hd hmem hread
    rw [hunread.expandLine_eq]
    simp [hmem]

theorem faulty_cycle_iff_of_reaches (hroot : Root files base inherited root)
    (hreach : ReflTransGen Calls root a) {text file : Text}
    (hd : (Line.ofText text).directive = .ok (.inclusion file)) (own : Bindings) (path : Path) :
    a.frame.Faulty own text (.cycle path) ↔
      path = base.join file ∧ ∃ location,
        (files.fileAt? path = some location ∧ location.path.route ∈ a.frame.chain) ∨
          (files.fileAt? path = none ∧ a.frame.TakenFor path location) := by
  rw [Frame.faulty_cycle_iff, routeOf_mem_chain_cases hroot hreach,
    base_eq_of_reaches hroot hreach, hd]
  constructor
  · rintro ⟨other, hother, rfl, hmem⟩
    cases hother
    exact ⟨rfl, hmem⟩
  · rintro ⟨rfl, hmem⟩
    exact ⟨file, rfl, rfl, hmem⟩

/-! ## The headline -/

/-- **A file that is not there is reported as missing,** under the name and the path that the line
gives, unless the path is taken for a file that is being expanded; then it is reported as a cycle.
No other inclusion is reported as a cycle than one of a file that is being expanded. A relative path
of a length that can be opened is never taken for a file. An absolute one is if it spells the
canonical path of a file that is being expanded with something spare at its end, names with a NUL
apart. -/
theorem missing_file_reported_iff (hroot : Root files base inherited root)
    (hreach : ReflTransGen Calls root a) {text file : Text}
    (hd : (Line.ofText text).directive = .ok (.inclusion file)) :
    (files.fileAt? (base.join file) = none → ∀ nested n own,
      (a.frame.expandLine nested n own text =
          .error ⟨n, .unloadable .inclusion file (.notFound (base.join file))⟩ ↔
        ¬ ∃ location, a.frame.TakenFor (base.join file) location) ∧
      (a.frame.expandLine nested n own text = .error ⟨n, .cycle (base.join file)⟩ ↔
        ∃ location, a.frame.TakenFor (base.join file) location)) ∧
    (∀ own path, a.frame.Faulty own text (.cycle path) ↔
      path = base.join file ∧ ∃ location,
        (files.fileAt? path = some location ∧ location.path.route ∈ a.frame.chain) ∨
          (files.fileAt? path = none ∧ a.frame.TakenFor path location)) ∧
    ((base.join file).text.utf8Length < pathLimit →
      ((base.join file).isAbsolute = false →
        ¬ ∃ location, a.frame.TakenFor (base.join file) location) ∧
      (files.canonical? files.workingDirectory.path = some files.workingDirectory →
        ∀ location, a.frame.TakenFor (base.join file) location ↔
          location.path.route ∈ a.frame.chain ∧
            (base.join file).route = location.path.route ∧
              ('\x00' ∈ (base.join file).text ∨ ∃ last,
                (base.join file).segments.getLast? = some last ∧ last.isStep = false))) := by
  refine ⟨fun hmissing nested n own => ?_, fun own path => ?_, fun hshort => ⟨?_, fun hhere => ?_⟩⟩
  · exact expandLine_of_missing hroot hreach hd hmissing nested n own
  · exact faulty_cycle_iff_of_reaches hroot hreach hd own path
  · exact Frame.not_takenFor_of_relative hshort
  · exact takenFor_iff hroot hreach hhere hshort

/-- Two files in the root directory, which is the working directory, too. -/
def slashFiles : FileSystem :=
  FileSystem.ofTexts [(['a'], "#include(a/)".toList), (['b'], "text".toList)]

/-- The expansion of the first file, with the given base directory. -/
def slashRoot (base : Path) : Activation :=
  .ofFile slashFiles base .empty (base.join ['a']) ["#include(a/)".toList]

theorem missing_file_reported_iff_slashFiles :
    -- the base directory is absolute, so a slash behind the name makes a cycle of it
    (∀ nested n own, (slashRoot ⟨['/']⟩).frame.expandLine nested n own "#include(a/)".toList =
      .error ⟨n, .cycle ⟨"/a/".toList⟩⟩) ∧
    -- the other file is not being expanded
    (∀ nested n own, (slashRoot ⟨['/']⟩).frame.expandLine nested n own "#include(b/)".toList =
      .error ⟨n, .unloadable .inclusion "b/".toList (.notFound ⟨"/b/".toList⟩)⟩) ∧
    -- the base directory is relative
    ∀ nested n own, (slashRoot ⟨['.']⟩).frame.expandLine nested n own "  #include(a/.)".toList =
      .error ⟨n, .unloadable .inclusion "a/.".toList (.notFound ⟨"./a/.".toList⟩)⟩ := by
  have hroot : Root slashFiles ⟨['/']⟩ .empty (slashRoot ⟨['/']⟩) :=
    @Root.file slashFiles ⟨['/']⟩ .empty ['a'] _ (by decide +kernel)
  have hrelative : Root slashFiles ⟨['.']⟩ .empty (slashRoot ⟨['.']⟩) :=
    @Root.file slashFiles ⟨['.']⟩ .empty ['a'] _ (by decide +kernel)
  refine ⟨fun nested n own => ?_, fun nested n own => ?_, fun nested n own => ?_⟩
  · have hd : (Line.ofText "#include(a/)".toList).directive = .ok (.inclusion "a/".toList) := by
      decide +kernel
    obtain ⟨hmissing, -, htaken⟩ := missing_file_reported_iff hroot .refl hd
    refine (hmissing (by decide +kernel) nested n own).2.2 ⟨[⟨['a'], by decide⟩], ?_⟩
    refine ((htaken (by decide +kernel)).2 (by decide +kernel) _).2 ⟨by decide +kernel, ?_, ?_⟩
    · decide +kernel
    · exact Or.inr ⟨.blank, by decide +kernel, rfl⟩
  · have hd : (Line.ofText "#include(b/)".toList).directive = .ok (.inclusion "b/".toList) := by
      decide +kernel
    obtain ⟨hmissing, -, htaken⟩ := missing_file_reported_iff hroot .refl hd
    refine (hmissing (by decide +kernel) nested n own).1.2 ?_
    rintro ⟨location, hlocation⟩
    obtain ⟨hexpanded, hroute, -⟩ :=
      ((htaken (by decide +kernel)).2 (by decide +kernel) location).1 hlocation
    rw [← hroute] at hexpanded
    exact absurd hexpanded (by decide +kernel)
  · have hd : (Line.ofText "  #include(a/.)".toList).directive =
        .ok (.inclusion "a/.".toList) := by decide +kernel
    obtain ⟨hmissing, -, htaken⟩ := missing_file_reported_iff hrelative .refl hd
    exact (hmissing (by decide +kernel) nested n own).1.2
      ((htaken (by decide +kernel)).1 (by decide +kernel))

/-- **A file that is not there is reported as a cycle,** with an absolute base directory. -/
theorem not_missing_file_reported :
    ¬ ∀ (files : FileSystem) (base : Path) (inherited : Bindings) (root a : Activation)
      (nested : Nested) (n : Nat) (own : Bindings) (text file : Text),
      Root files base inherited root → ReflTransGen Calls root a →
        (Line.ofText text).directive = .ok (.inclusion file) →
        files.fileAt? (base.join file) = none →
          a.frame.expandLine nested n own text =
            .error ⟨n, .unloadable .inclusion file (.notFound (base.join file))⟩ := by
  intro hall
  have hroot : Root slashFiles ⟨['/']⟩ .empty (slashRoot ⟨['/']⟩) :=
    @Root.file slashFiles ⟨['/']⟩ .empty ['a'] _ (by decide +kernel)
  have hd : (Line.ofText "#include(a/)".toList).directive = .ok (.inclusion "a/".toList) := by
    decide +kernel
  have hcycle : (slashRoot ⟨['/']⟩).frame.Faulty .empty "#include(a/)".toList
      (.cycle ⟨"/a/".toList⟩) :=
    Frame.faulty_cycle_iff.2 ⟨_, hd, by decide, by decide +kernel⟩
  have hmissing := hall _ _ _ _ _ .full 1 .empty _ _ hroot .refl hd (by decide +kernel)
  rw [hcycle.expandLine_eq] at hmissing
  cases hmissing

end Activation

end LineTemplate
