import LineTemplate.FileSystem.Build
import LineTemplate.Proofs.Activation

/-!
# Expansion ends

Whatever files include one another, an expansion comes to an end: the activations of one run are
well-founded, and there are never more of them one inside the other than there are regular
files, the lines that the run starts with apart.

## The architecture

* **`FileChain`** — a chain that holds distinct regular files, each by its canonical path.
* **`Calls.fileChain`** — an activation that is called has such a chain if the calling one has.
* **`Root.fileChain_of_reaches`** — so every activation of a run has one.
* **`expansion_wellFounded`** — the headline: no endless descent, the bound on the chain, and a
  bound on the depth that no run ever notices.
-/

namespace LineTemplate

open Relation (ReflTransGen)

/-! ## Chains of files -/

/-- **A chain of files:** distinct regular files, each known by its one canonical path. -/
def FileChain (files : FileSystem) (chain : List Route) : Prop :=
  ∃ locations : List Location, locations.Nodup ∧
    (∀ location ∈ locations, location ∈ files.regularFiles) ∧
    chain = locations.map fun location => location.path.route

theorem FileChain.nil (files : FileSystem) : FileChain files [] :=
  ⟨[], List.nodup_nil, by simp, rfl⟩

theorem FileChain.cons {files : FileSystem} {chain : List Route} (h : FileChain files chain)
    {location : Location} (hfile : location ∈ files.regularFiles)
    (hfresh : location.path.route ∉ chain) :
    FileChain files (location.path.route :: chain) := by
  obtain ⟨locations, hnodup, hfiles, rfl⟩ := h
  refine ⟨location :: locations, ?_, ?_, rfl⟩
  · -- a location that is listed already would have its route on the chain
    refine List.nodup_cons.2 ⟨fun hmem => hfresh ?_, hnodup⟩
    exact List.mem_map.2 ⟨location, hmem, rfl⟩
  · intro other hother
    rcases List.mem_cons.1 hother with rfl | hmem
    · exact hfile
    · exact hfiles other hmem

theorem FileChain.nodup {files : FileSystem} {chain : List Route} (h : FileChain files chain) :
    chain.Nodup := by
  obtain ⟨locations, hnodup, -, rfl⟩ := h
  have hinj : Function.Injective fun location : Location => location.path.route :=
    fun _ _ heq => Location.route_path_inj.1 heq
  exact hnodup.map hinj

theorem FileChain.length_le {files : FileSystem} {chain : List Route}
    (h : FileChain files chain) : chain.length ≤ files.regularFiles.card := by
  obtain ⟨locations, hnodup, hfiles, rfl⟩ := h
  rw [List.length_map, ← List.toFinset_card_of_nodup hnodup]
  apply Finset.card_le_card
  intro location hmem
  exact hfiles location (List.mem_toFinset.1 hmem)

namespace Activation

/-! ## One call -/

theorem Calls.files_eq {a b : Activation} (h : a.Calls b) : b.frame.files = a.frame.files := by
  cases h
  rfl

theorem Calls.base_eq {a b : Activation} (h : a.Calls b) : b.frame.base = a.frame.base := by
  cases h
  rfl

theorem Calls.card_unopened_lt {a b : Activation} (h : a.Calls b) :
    b.frame.unopened.card < a.frame.unopened.card := by
  cases h with
  | inclusion _ _ hopens => exact hopens.card_unopened_lt _

theorem Calls.fileChain {a b : Activation} (h : a.Calls b)
    (hchain : FileChain a.frame.files a.frame.chain) :
    FileChain b.frame.files b.frame.chain := by
  cases h with
  | inclusion _ _ hopens =>
    obtain ⟨location, text, -, htext, -, hroute⟩ := hopens.exists_file
    simp only [Frame.child, hroute]
    apply hchain.cons
    · rw [FileSystem.mem_regularFiles, htext]
      rfl
    · rw [← hroute]
      exact hopens.fresh

/-! ## A whole run -/

theorem Root.files_eq {files : FileSystem} {base : Path} {inherited : Bindings} {root : Activation}
    (h : Root files base inherited root) : root.frame.files = files := by
  cases h <;> rfl

theorem Root.fileChain {files : FileSystem} {base : Path} {inherited : Bindings}
    {root : Activation} (h : Root files base inherited root) :
    FileChain files root.frame.chain := by
  cases h with
  | lines => exact .nil files
  | file hread =>
    -- the root file, too, is registered under its canonical path
    obtain ⟨location, text, hfile, htext, -⟩ := FileSystem.exists_file_of_readLines hread
    simp only [ofFile, FileSystem.identity_of_fileAt? hfile]
    exact (FileChain.nil files).cons (FileSystem.mem_regularFiles.2 (by rw [htext]; rfl)) (by simp)

/-- Every activation of a run sees the same files, and has a chain of files. -/
theorem Root.fileChain_of_reaches {files : FileSystem} {base : Path} {inherited : Bindings}
    {root a : Activation} (hroot : Root files base inherited root)
    (hreach : ReflTransGen Calls root a) :
    a.frame.files = files ∧ FileChain files a.frame.chain := by
  induction hreach with
  | refl => exact ⟨hroot.files_eq, hroot.fileChain⟩
  | tail _ hcall ih =>
    obtain ⟨hfiles, hchain⟩ := ih
    have hfiles' := hcall.files_eq.trans hfiles
    refine ⟨hfiles', ?_⟩
    rw [← hfiles']
    exact hcall.fileChain (by rw [hfiles]; exact hchain)

/-- **Expansion always ends.** No activation starts an endless sequence of calls. Each activation
of a run holds a chain of distinct regular files, with distinct canonical paths, so the chain is
never longer than there are such files; and a run that may go one level deeper than that gives, to
whatever larger depth it may go and whatever would happen below, the result of the run that has no
bound. -/
theorem expansion_wellFounded (files : FileSystem) (base : Path) (inherited : Bindings) :
    (WellFounded fun inner outer : Activation => outer.Calls inner) ∧
    (∀ frame : Frame, ∀ lines,
      frame.expand lines = frame.expandFrom (fun inner _ _ ls =>
        (inner.expand ls).map Expanded.output) 1 .empty lines) ∧
    ∀ root, Root files base inherited root →
      (∀ a, ReflTransGen Calls root a →
        FileChain files a.frame.chain ∧ a.frame.chain.Nodup ∧
          a.frame.chain.length ≤ files.regularFiles.card) ∧
      ∀ (beyond : Nested) (bound : Nat), files.regularFiles.card < bound → ∀ n path,
        Nested.upTo beyond bound root.frame n path root.lines =
          root.result.map Expanded.output := by
  refine ⟨?_, fun frame lines => frame.expand_eq_run lines, fun root hroot => ⟨?_, ?_⟩⟩
  · exact Subrelation.wf Calls.card_unopened_lt
      (measure fun a : Activation => a.frame.unopened.card).wf
  · intro a hreach
    obtain ⟨-, hchain⟩ := hroot.fileChain_of_reaches hreach
    exact ⟨hchain, hchain.nodup, hchain.length_le⟩
  · intro beyond bound hbound n path
    -- one level of the bound is spent on the root itself
    obtain ⟨depth, rfl⟩ : ∃ depth, bound = depth + 1 := ⟨bound - 1, by omega⟩
    have hcard : root.frame.unopened.card ≤ depth := by
      have hle := root.frame.card_unopened_le
      rw [hroot.files_eq] at hle
      omega
    simp only [Nested.upTo, result]
    rw [Frame.expandFrom_upTo_eq_run hcard, Frame.expand_eq_run]

/-- Two files that include each other, one of them under the name of a link. -/
def mutualFiles : FileSystem :=
  (FileSystem.ofTexts [(['a'], "#include(b)".toList),
    (['b'], "text\n  #include(c)".toList)]).place ⟨['c']⟩ (.link ⟨['a']⟩)

def mutualRoot : Activation :=
  .ofFile mutualFiles ⟨['.']⟩ .empty (Path.join ⟨['.']⟩ ['a']) ["#include(b)".toList]

def mutualInner : Activation where
  frame := mutualRoot.frame.child .empty (Path.join ⟨['.']⟩ ['b'])
  lines := ["text".toList, "  #include(c)".toList]

theorem expansion_wellFounded_mutual :
    (Root mutualFiles ⟨['.']⟩ .empty mutualRoot ∧ ReflTransGen Calls mutualRoot mutualInner ∧
      mutualFiles.regularFiles.card < 3) ∧
    (mutualInner.frame.chain.Nodup ∧
      mutualInner.frame.chain.length ≤ mutualFiles.regularFiles.card) ∧
    Nested.upTo .cycle 3 mutualRoot.frame 1 ⟨['a']⟩ mutualRoot.lines =
      mutualRoot.result.map Expanded.output := by
  have hroot : Root mutualFiles ⟨['.']⟩ .empty mutualRoot := .file (by decide +kernel)
  have hcall : Calls mutualRoot mutualInner := by
    refine @Calls.inclusion _ [] [] _ _ _ ⟨.empty, []⟩ rfl ?_ ⟨?_, ?_⟩
    all_goals decide +kernel
  have hcard : mutualFiles.regularFiles.card < 3 := by decide +kernel
  obtain ⟨-, -, hrun⟩ := expansion_wellFounded mutualFiles ⟨['.']⟩ .empty
  obtain ⟨hchain, hbound⟩ := hrun mutualRoot hroot
  exact ⟨⟨hroot, .single hcall, hcard⟩, (hchain mutualInner (.single hcall)).2,
    hbound .cycle 3 hcard 1 ⟨['a']⟩⟩

end Activation

end LineTemplate
