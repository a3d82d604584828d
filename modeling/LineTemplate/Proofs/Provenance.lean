import LineTemplate.Proofs.Loading
import LineTemplate.Proofs.LastAssignment

/-!
# Where bindings come from

Every binding that is made in a run was read off a line: a line that assigns it, or a line of a file
that is loaded. It is handed down to included files, and never changed on the way. So what all
assignments have in common all bindings have, at every point of a run, however deep.

## The architecture

* **`Bindings.All`** — all bindings have a property.
* **`exists_parse?_of_mem_assignments`** — the line that an assignment was read off.
* **`Activation.Binds`** — the bindings that an activation has made at some point: between two of
  its lines, or halfway through a file that a line loads. They come from the assignments of its
  lines (`Binds.exists_assignAll`).
* **`Supplies`** — lines that assign only what has a property, and open no other lines.
* **`Activation.Supplied`** — an activation of such lines that has inherited nothing else, and
  `Supplied.reaches`, that all below it are the same.
* **`Supplied.all_of_binds`** — so all that it binds has the property.
-/

namespace LineTemplate

open Relation (ReflTransGen)

/-! ## Properties of bindings -/

/-- **All bindings have a property.** -/
def Bindings.All (bindings : Bindings) (p : Assignment → Prop) : Prop :=
  ∀ name value, bindings.find? name = some value → p ⟨name, value⟩

theorem Bindings.all_empty (p : Assignment → Prop) : Bindings.empty.All p :=
  fun _ _ h => by cases h

theorem Bindings.All.assign {bindings : Bindings} {p : Assignment → Prop} (h : bindings.All p)
    {a : Assignment} (ha : p a) : (bindings.assign a).All p := by
  intro name value hvalue
  rw [Bindings.find?_assign] at hvalue
  split at hvalue
  · next hname =>
    cases hvalue
    rw [hname]
    exact ha
  · exact h name value hvalue

theorem Bindings.All.assignAll {bindings : Bindings} {p : Assignment → Prop}
    (h : bindings.All p) {as : List Assignment} (has : ∀ a ∈ as, p a) :
    (bindings.assignAll as).All p := by
  induction as generalizing bindings with
  | nil => exact h
  | cons a rest ih =>
    exact ih (h.assign (has a List.mem_cons_self)) fun b hb => has b (List.mem_cons_of_mem a hb)

theorem Bindings.All.lookup {own inherited : Bindings} {p : Assignment → Prop} (hown : own.All p)
    (hinherited : inherited.All p) {name value : Text}
    (h : (Scope.mk own inherited).lookup name = some value) : p ⟨name, value⟩ := by
  rcases Option.or_eq_some_iff.1 h with hvalue | ⟨-, hvalue⟩
  · exact hown name value hvalue
  · exact hinherited name value hvalue

/-! ## The lines that assignments are read off -/

/-- **An assignment is read off a line:** one of the lines themselves, or a line of a file. -/
theorem exists_parse?_of_mem_assignments {files : FileSystem} {base : Path} {lines : List Text}
    {a : Assignment} (h : a ∈ assignments files base lines) :
    ∃ line, Assignment.parse? line = some a ∧
      (line ∈ lines ∨ ∃ path loaded, files.readLines path = .ok loaded ∧ line ∈ loaded) := by
  obtain ⟨text, htext, ha⟩ := List.mem_flatMap.1 h
  unfold lineAssignments at ha
  split at ha
  · next b hd =>
    obtain rfl := List.mem_singleton.1 ha
    have hkind : (Line.ofText text).kind? = some .assignment := (Line.kind?_of_directive hd).symm
    -- the body is searched here, but the whole line would do
    simp only [Line.directive, hkind, Line.directiveOf?] at hd
    cases hparse : Assignment.parse? (Line.ofText text).body with
    | none => rw [hparse] at hd; cases hd
    | some c =>
      rw [hparse] at hd
      cases hd
      rw [Assignment.parse?_body] at hparse
      exact ⟨text, hparse, Or.inl htext⟩
  · next file hd =>
    split at ha
    · next loaded hread =>
      obtain ⟨line, hline, hparse⟩ := List.mem_filterMap.1 ha
      exact ⟨line, hparse, Or.inr ⟨_, loaded, hread, hline⟩⟩
    · cases ha
  · cases ha

namespace Activation

/-! ## The bindings of an activation -/

/-- **An activation binds** `own` at some point of its run: in front of one of its lines or behind
all of them, or while one of them loads a file and has come to some line of it. -/
inductive Binds (a : Activation) : Bindings → Prop where
  | between {front back : List Text} {first : Expanded} (hlines : a.lines = front ++ back)
      (hfront : a.frame.run 1 .empty front = .ok first) : Binds a first.own
  | loading {front back before after : List Text} {text file : Text} {first : Expanded}
      {as : List Assignment} (hlines : a.lines = front ++ text :: back)
      (hfront : a.frame.run 1 .empty front = .ok first)
      (hd : (Line.ofText text).directive = .ok (.config file))
      (hread : a.frame.files.readLines (a.frame.base.join file) = .ok (before ++ after))
      (hparse : before.mapM Assignment.parse? = some as) : Binds a (first.own.assignAll as)

theorem ComesTo.binds {a : Activation} {n : Nat} {own : Bindings} {text : Text}
    (h : a.ComesTo n own text) : a.Binds own := by
  obtain ⟨front, back, first, hlines, hfront, rfl, -⟩ := h
  exact .between hlines hfront

/-- **All bindings come from assignments** of the activation's lines. -/
theorem Binds.exists_assignAll {a : Activation} {own : Bindings} (h : a.Binds own) :
    ∃ as, (∀ b ∈ as, b ∈ assignments a.frame.files a.frame.base a.lines) ∧
      own = Bindings.empty.assignAll as := by
  cases h with
  | @between front back first hlines hfront =>
    refine ⟨assignments a.frame.files a.frame.base front, fun b hb => ?_,
      Frame.own_eq_of_expandFrom hfront⟩
    rw [hlines, assignments, List.flatMap_append]
    exact List.mem_append_left _ hb
  | @loading front back before after text file first as hlines hfront hd hread hparse =>
    refine ⟨assignments a.frame.files a.frame.base front ++ as, fun b hb => ?_, ?_⟩
    · -- the lines that were loaded so far are some of those that the line loads
      have hloaded : ∀ c ∈ as, c ∈ lineAssignments a.frame.files a.frame.base text := by
        intro c hc
        have hsome : some c ∈ before.map Assignment.parse? := by
          rw [map_eq_of_mapM_eq_some hparse]
          exact List.mem_map_of_mem hc
        obtain ⟨line, hline, hline'⟩ := List.mem_map.1 hsome
        simp only [lineAssignments, hd, hread]
        exact List.mem_filterMap.2 ⟨line, List.mem_append_left after hline, hline'⟩
      rw [hlines, assignments, List.flatMap_append, List.flatMap_cons]
      rcases List.mem_append.1 hb with hfrontMem | hmem
      · exact List.mem_append_left _ hfrontMem
      · exact List.mem_append_right _ (List.mem_append_left _ (hloaded b hmem))
    · rw [Bindings.assignAll_append, ← Frame.own_eq_of_expandFrom hfront]

end Activation

/-! ## What all assignments have in common -/

/-- **Lines that supply a property.** Of the lines that are `good` it is known that they assign only
what has the property `p`, and that the lines of each file that they include are good, too. -/
structure Supplies (files : FileSystem) (base : Path) (good : List Text → Prop)
    (p : Assignment → Prop) : Prop where
  opened : ∀ lines, good lines → ∀ text ∈ lines, ∀ file,
    (Line.ofText text).directive = .ok (.inclusion file) →
      ∀ inner, files.readLines (base.join file) = .ok inner → good inner
  assigned : ∀ lines, good lines → ∀ a ∈ assignments files base lines, p a

namespace Activation

variable {files : FileSystem} {base : Path} {good : List Text → Prop} {p : Assignment → Prop}

/-- **An activation of good lines** that has inherited only what has the property. -/
structure Supplied (files : FileSystem) (base : Path) (good : List Text → Prop)
    (p : Assignment → Prop) (a : Activation) : Prop where
  files_eq : a.frame.files = files
  base_eq : a.frame.base = base
  good_lines : good a.lines
  all_inherited : a.frame.inherited.All p

/-- **All that is bound has the property,** at every point. -/
theorem Supplied.all_of_binds {a : Activation} (h : Supplied files base good p a)
    (hsupplies : Supplies files base good p) {own : Bindings} (hbinds : a.Binds own) :
    own.All p := by
  obtain ⟨as, has, rfl⟩ := hbinds.exists_assignAll
  rw [h.files_eq, h.base_eq] at has
  exact (Bindings.all_empty p).assignAll fun b hb =>
    hsupplies.assigned a.lines h.good_lines b (has b hb)

/-- One call: the bindings made so far are what the called activation inherits. -/
theorem Supplied.calls {a b : Activation} (h : Supplied files base good p a)
    (hsupplies : Supplies files base good p) (hcall : a.Calls b) :
    Supplied files base good p b := by
  cases hcall with
  | @inclusion frame front back inner text file first hfront hd hopens =>
    have hread := hopens.read
    rw [h.files_eq, h.base_eq] at hread
    refine ⟨h.files_eq, h.base_eq, ?_, ?_⟩
    · exact hsupplies.opened _ h.good_lines text (by simp) file hd inner hread
    · exact h.all_of_binds hsupplies (.between rfl hfront)

theorem Supplied.reaches {a b : Activation} (h : Supplied files base good p a)
    (hsupplies : Supplies files base good p) (hreach : ReflTransGen Calls a b) :
    Supplied files base good p b := by
  induction hreach with
  | refl => exact h
  | tail _ hcall ih => exact ih.calls hsupplies hcall

end Activation

end LineTemplate
