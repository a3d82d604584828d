import LineTemplate.FileSystem.Build
import LineTemplate.Proofs.Substitution
import Mathlib.Data.List.Induction
import Mathlib.Data.List.Nodup

/-!
# When substitution is simultaneous

Names are replaced one after the other, each one wherever its reference stands by then. That may be
at a place where no reference was captured: a value can be completed to a reference by what stands
around it, and the name of one reference can end in another reference. So in general a line does not
become what it would if all captured references were replaced at once. Whether it does is a matter
of counting: at its turn, a name's reference must stand in the line as often as it was captured, and
no more often.

## The architecture

* **`Text.occurrences`** — how often one text stands in another, at whatever places.
* **`replaceAll_append_of_occurrences`** — what holds no occurrence is passed by a replacement.
* **`count_replaceAll_expression`** — each replacement takes one `)` out of the line, if the value
  brings none; so the parentheses that are left tell how often something was replaced.
* **`replaceAll_splice_iff`** — one name: only captured references are replaced if and only if there
  are no other ones.
* **`Text.OnlyCaptured`** — this for all names, each at its turn, and **`substitute_splice_iff`**.
* **`Text.onlyCaptured_of_closed`** — lines on which it is so for all values: each `)` closes a
  captured reference there, and no reference is in the name of another one.
* **`Frame.substitution_simultaneous_iff`** — the headline, and
  **`Frame.not_substitution_simultaneous`**, two lines that become something else.
-/

namespace LineTemplate

namespace Text

/-! ## Occurrences -/

/-- **How often a text stands in another one**, at whatever places. -/
def occurrences (needle : Text) : Text → Nat
  | [] => 0
  | c :: rest => occurrences needle rest + if needle.isPrefixOf (c :: rest) then 1 else 0

section Occurrences

variable {needle text : Text} {c : Char}

theorem occurrences_cons_of_isPrefix (h : needle <+: c :: text) :
    occurrences needle (c :: text) = occurrences needle text + 1 := by
  rw [occurrences, if_pos (List.isPrefixOf_iff_prefix.2 h)]

theorem occurrences_cons_of_not_isPrefix (h : ¬ needle <+: c :: text) :
    occurrences needle (c :: text) = occurrences needle text := by
  rw [occurrences, if_neg (fun hstart => h (List.isPrefixOf_iff_prefix.1 hstart)), Nat.add_zero]

theorem occurrences_le_append (needle front text : Text) :
    occurrences needle text ≤ occurrences needle (front ++ text) := by
  induction front with
  | nil => exact Nat.le_refl _
  | cons c rest ih => exact Nat.le_trans ih (Nat.le_add_right _ _)

theorem occurrences_lt_append_self (h : needle ≠ []) (text : Text) :
    occurrences needle text < occurrences needle (needle ++ text) := by
  obtain ⟨c, rest, rfl⟩ := List.exists_cons_of_ne_nil h
  have hstart : c :: rest <+: c :: (rest ++ text) := List.prefix_append (c :: rest) text
  rw [List.cons_append, occurrences_cons_of_isPrefix hstart]
  exact Nat.lt_succ_of_le (occurrences_le_append _ rest text)

theorem occurrences_append_of_not_isPrefix {front : Text}
    (h : ∀ left, left ≠ [] → left <:+ front → ¬ needle <+: left ++ text) :
    occurrences needle (front ++ text) = occurrences needle text := by
  induction front with
  | nil => rfl
  | cons c rest ih =>
    have hrest := ih fun left hne hleft => h left hne (hleft.trans (List.suffix_cons c rest))
    have hstart := h (c :: rest) (List.cons_ne_nil c rest) (List.suffix_refl _)
    rw [List.cons_append] at hstart ⊢
    rw [occurrences_cons_of_not_isPrefix hstart, hrest]

/-- A replacement passes a text in which no occurrence starts. -/
theorem replaceAll_append_of_occurrences {front : Text} (value : Text)
    (h : occurrences needle (front ++ text) = occurrences needle text) :
    replaceAll needle value (front ++ text) = front ++ replaceAll needle value text := by
  induction front with
  | nil => rfl
  | cons c rest ih =>
    have hle := occurrences_le_append needle rest text
    by_cases hstart : needle <+: c :: (rest ++ text)
    · rw [List.cons_append, occurrences_cons_of_isPrefix hstart] at h
      omega
    · rw [List.cons_append, occurrences_cons_of_not_isPrefix hstart] at h
      rw [List.cons_append, replaceAll_cons_of_not_isPrefix value hstart, ih h, List.cons_append]

end Occurrences

/-! ## Counting parentheses -/

section Count

variable {name : Text}

theorem count_expression (kind : Kind) (h : ')' ∉ name) :
    (kind.expression name).count ')' = 1 := by
  have hopening : ')' ∉ kind.opening := by cases kind <;> decide
  rw [Kind.expression, List.count_append, List.count_append, List.count_eq_zero_of_not_mem h,
    List.count_eq_zero_of_not_mem hopening]
  rfl

/-- No expression starts inside another one of the same name, behind its first character: the only
`)` of the one would have to stand in the other in front of its end. -/
theorem occurrences_expression_tail {kind : Kind} (h : ')' ∉ name) {front : Text}
    (hfront : ')' ∉ front) (hlength : front.length + 1 < (kind.expression name).length)
    (text : Text) :
    occurrences (kind.expression name) (front ++ ')' :: text) =
      occurrences (kind.expression name) text := by
  have hopening : ')' ∉ kind.opening := by cases kind <;> decide
  induction front with
  | nil =>
    refine occurrences_cons_of_not_isPrefix fun hstart => ?_
    rw [Kind.expression_eq_cons] at hstart
    exact absurd (List.cons_prefix_cons.1 hstart).1 (by decide)
  | cons c rest ih =>
    have hrest := ih (fun hmem => hfront (List.mem_cons_of_mem c hmem))
      (by rw [List.length_cons] at hlength; omega)
    rw [← hrest]
    refine occurrences_cons_of_not_isPrefix fun hstart => ?_
    have hinner : kind.opening ++ name <+: c :: (rest ++ ')' :: text) := by
      refine List.IsPrefix.trans ⟨[')'], ?_⟩ hstart
      rw [Kind.expression, List.append_assoc]
    have hparen : (c :: rest) ++ [')'] <+: c :: (rest ++ ')' :: text) :=
      ⟨text, by simp⟩
    have hshort : ((c :: rest) ++ [')']).length ≤ (kind.opening ++ name).length := by
      rw [Kind.length_expression] at hlength
      simp only [List.length_append, List.length_cons, List.length_nil] at hlength ⊢
      omega
    have hmem := (List.prefix_of_prefix_length_le hparen hinner hshort).subset
      (List.mem_append_right _ (List.mem_singleton_self ')'))
    exact (List.mem_append.1 hmem).elim hopening h

theorem occurrences_expression_append {kind : Kind} (h : ')' ∉ name) (text : Text) :
    occurrences (kind.expression name) (kind.expression name ++ text) =
      occurrences (kind.expression name) text + 1 := by
  have hshape : kind.expression name ++ text =
      '#' :: ((kind.name ++ '(' :: name) ++ ')' :: text) := by
    rw [Kind.expression_eq_cons]
    simp
  have hname : ')' ∉ kind.name ++ '(' :: name := by
    have hkind : ')' ∉ kind.name := by cases kind <;> decide
    simp [hkind, h]
  have hstart : kind.expression name <+: '#' :: ((kind.name ++ '(' :: name) ++ ')' :: text) :=
    ⟨text, hshape⟩
  rw [hshape, occurrences_cons_of_isPrefix hstart, occurrences_expression_tail h hname]
  rw [Kind.expression_eq_cons]
  simp

/-- **Each replacement takes one `)` away.** -/
theorem count_replaceAll_expression {kind : Kind} (h : ')' ∉ name) {value : Text}
    (hvalue : ')' ∉ value) (text : Text) :
    (replaceAll (kind.expression name) value text).count ')' +
      occurrences (kind.expression name) text = text.count ')' := by
  induction hn : text.length using Nat.strongRecOn generalizing text with
  | ind n ih =>
    cases text with
    | nil => rfl
    | cons c rest =>
      by_cases hstart : kind.expression name <+: c :: rest
      · obtain ⟨tail, htail⟩ := hstart
        have hlength : tail.length < n := by
          have hpos := Kind.length_expression kind name
          rw [← hn, ← htail, List.length_append]
          omega
        have htail' := ih _ hlength tail rfl
        rw [← htail, replaceAll_append_self value (kind.expression_ne_nil name),
          occurrences_expression_append h, List.count_append, List.count_append,
          List.count_eq_zero_of_not_mem hvalue, count_expression kind h]
        omega
      · have hrest := ih _ (by rw [← hn]; exact Nat.lt_succ_self _) rest rfl
        rw [replaceAll_cons_of_not_isPrefix value hstart, occurrences_cons_of_not_isPrefix hstart,
          List.count_cons, List.count_cons]
        omega

end Count

/-! ## One name at its turn -/

section Turn

variable {found : List (Piece Text)} {value : Text → Text} {done : List Text} {name : Text}

/-- A captured reference that has not been replaced yet stands in the line. -/
theorem count_hits_le_occurrences (hname : name ∉ done) :
    (hits found).count name ≤
      occurrences (Kind.reference.expression name) (splice (partly value done) found) := by
  induction found with
  | nil => exact Nat.le_refl _
  | cons piece rest ih =>
    cases piece with
    | plain c =>
      exact Nat.le_trans ih (occurrences_le_append _ [c] _)
    | hit other =>
      rw [splice_hit, hits_hit]
      by_cases heq : other = name
      · subst heq
        have hlt := occurrences_lt_append_self (Kind.expression_ne_nil .reference other)
          (splice (partly value done) rest)
        rw [partly_of_not_mem hname, List.count_cons_self]
        omega
      · rw [List.count_cons_of_ne heq]
        exact Nat.le_trans ih (occurrences_le_append _ _ _)

theorem replaceAll_splice_of_occurrences (hname : name ∉ done)
    (h : occurrences (Kind.reference.expression name) (splice (partly value done) found) =
      (hits found).count name) :
    replaceAll (Kind.reference.expression name) (value name) (splice (partly value done) found) =
      splice (partly value (name :: done)) found := by
  induction found with
  | nil => rfl
  | cons piece rest ih =>
    -- the rest has all its captured references, so the piece has no occurrence besides its own
    have hrest := @count_hits_le_occurrences rest value done name hname
    cases piece with
    | plain c =>
      have hle := occurrences_le_append (Kind.reference.expression name) [c]
        (splice (partly value done) rest)
      rw [splice_plain, hits_plain] at h
      rw [List.singleton_append] at hle
      rw [splice_plain, splice_plain, ← ih (by omega)]
      exact @replaceAll_append_of_occurrences _ (splice (partly value done) rest) [c] _
        (by rw [List.singleton_append]; omega)
    | hit other =>
      rw [splice_hit, hits_hit] at h
      rw [splice_hit, splice_hit]
      by_cases heq : other = name
      · subst heq
        have hlt := occurrences_lt_append_self (Kind.expression_ne_nil .reference other)
          (splice (partly value done) rest)
        rw [partly_of_not_mem hname, List.count_cons_self] at h
        rw [partly_of_not_mem hname, partly_of_mem List.mem_cons_self, ← ih (by omega),
          replaceAll_append_self _ (Kind.expression_ne_nil _ _)]
      · have hle := occurrences_le_append (Kind.reference.expression name)
          (partly value done other) (splice (partly value done) rest)
        rw [List.count_cons_of_ne heq] at h
        rw [partly_cons_of_ne heq, ← ih (by omega)]
        exact replaceAll_append_of_occurrences _ (by omega)

/-- A name that is done has lost one `)` for each captured reference. -/
theorem count_splice_partly (hname : name ∉ done) (hparen : ')' ∉ name)
    (hvalue : ')' ∉ value name) :
    (splice (partly value (name :: done)) found).count ')' + (hits found).count name =
      (splice (partly value done) found).count ')' := by
  induction found with
  | nil => rfl
  | cons piece rest ih =>
    cases piece with
    | plain c =>
      rw [splice_plain, splice_plain, hits_plain, List.count_cons, List.count_cons]
      omega
    | hit other =>
      rw [splice_hit, splice_hit, hits_hit, List.count_append, List.count_append]
      by_cases heq : other = name
      · subst heq
        rw [partly_of_not_mem hname, partly_of_mem List.mem_cons_self, List.count_cons_self,
          List.count_eq_zero_of_not_mem hvalue, count_expression .reference hparen]
        omega
      · rw [partly_cons_of_ne heq, List.count_cons_of_ne heq]
        omega

/-- **One name at its turn:** the captured references to it are replaced, and nothing else, if and
only if its reference stands nowhere else. -/
theorem replaceAll_splice_iff (hname : name ∉ done) (hparen : ')' ∉ name)
    (hvalue : ')' ∉ value name) :
    replaceAll (Kind.reference.expression name) (value name) (splice (partly value done) found) =
        splice (partly value (name :: done)) found ↔
      occurrences (Kind.reference.expression name) (splice (partly value done) found) =
        (hits found).count name := by
  refine ⟨fun h => ?_, replaceAll_splice_of_occurrences hname⟩
  have hreplaced := @count_replaceAll_expression name .reference hparen _ hvalue
    (splice (partly value done) found)
  have hcaptured := @count_splice_partly found value done name hname hparen hvalue
  rw [h] at hreplaced
  omega

/-! ## Lines that close no parentheses themselves -/

/-- Where all parentheses close captured references, no reference without a mark in its name starts
in front of them: the first `)` behind its start closes another one, whose mark it would hold. -/
theorem not_isPrefix_append_splice (hplain : .plain ')' ∉ found)
    (hinner : ∀ other, .hit other ∈ found → ')' ∉ other)
    (hvalue : ∀ other ∈ done, ')' ∉ value other) (hmark : '#' ∉ name) {front : Text}
    (hne : front ≠ []) (hfront : ')' ∉ front) :
    ¬ Kind.reference.expression name <+: front ++ splice (partly value done) found := by
  induction found generalizing front with
  | nil =>
    intro hstart
    have hmem : ')' ∈ front ++ [] := hstart.subset (by simp [Kind.expression])
    exact hfront (by simpa using hmem)
  | cons piece rest ih =>
    have hrest := @ih (fun hmem => hplain (List.mem_cons_of_mem piece hmem))
      fun other hmem => hinner other (List.mem_cons_of_mem piece hmem)
    cases piece with
    | plain c =>
      rw [splice_plain, List.append_cons]
      refine hrest (by simp) fun hmem => ?_
      rcases List.mem_append.1 hmem with hmem | hmem
      · exact hfront hmem
      · rw [List.mem_singleton.1 hmem] at hplain
        exact hplain List.mem_cons_self
    | hit other =>
      rw [splice_hit]
      by_cases hother : other ∈ done
      · rw [partly_of_mem hother, ← List.append_assoc]
        refine hrest (by simp [hne]) fun hmem => ?_
        exact (List.mem_append.1 hmem).elim hfront (hvalue other hother)
      · rw [partly_of_not_mem hother]
        intro hstart
        obtain ⟨c, behind, rfl⟩ := List.exists_cons_of_ne_nil hne
        rw [Kind.expression_eq_cons _ name, List.cons_append] at hstart
        obtain ⟨-, htail⟩ := List.cons_prefix_cons.1 hstart
        have hunmarked := Kind.not_mem_tail_expression .reference hmark
        -- up to and with the `)` of the other reference
        have hclosed : (behind ++ (Kind.reference.opening ++ other)) ++ [')'] <+:
            behind ++ (Kind.reference.expression other ++ splice (partly value done) rest) :=
          ⟨splice (partly value done) rest, by simp [Kind.expression]⟩
        have hopened : '#' ∈ (behind ++ (Kind.reference.opening ++ other)) ++ [')'] := by
          simp [Kind.opening, Kind.keyword]
        rcases List.prefix_or_prefix_of_prefix htail hclosed with hshort | hlong
        · rcases List.prefix_concat_iff.1 hshort with heq | hbefore
          · rw [heq] at hunmarked
            exact hunmarked hopened
          · have hmem := hbefore.subset (show ')' ∈ _ by simp)
            have hopening : ')' ∉ Kind.reference.opening := by decide
            simp only [List.mem_append, hinner other List.mem_cons_self, hopening, or_false] at hmem
            exact hfront (List.mem_cons_of_mem c hmem)
        · exact hunmarked (hlong.subset hopened)

/-- **Where all parentheses close captured references,** and no name has a mark, a reference stands
only where it was captured. -/
theorem occurrences_splice_of_closed (hplain : .plain ')' ∉ found)
    (hinner : ∀ other, .hit other ∈ found → ')' ∉ other ∧ '#' ∉ other)
    (hvalue : ∀ other ∈ done, ')' ∉ value other) (hname : name ∉ done) (hparen : ')' ∉ name)
    (hmark : '#' ∉ name) :
    occurrences (Kind.reference.expression name) (splice (partly value done) found) =
      (hits found).count name := by
  induction found with
  | nil => rfl
  | cons piece rest ih =>
    have hplain' : .plain ')' ∉ rest := fun hmem => hplain (List.mem_cons_of_mem piece hmem)
    have hinner' : ∀ other, .hit other ∈ rest → ')' ∉ other ∧ '#' ∉ other :=
      fun other hmem => hinner other (List.mem_cons_of_mem piece hmem)
    have hnone : ∀ {front : Text}, front ≠ [] → ')' ∉ front →
        ¬ Kind.reference.expression name <+: front ++ splice (partly value done) rest :=
      not_isPrefix_append_splice hplain' (fun other hmem => (hinner' other hmem).1) hvalue hmark
    have hrest := ih hplain' hinner'
    cases piece with
    | plain c =>
      have hchar : ')' ∉ [c] := by
        intro hmem
        rw [List.mem_singleton.1 hmem] at hplain
        exact hplain List.mem_cons_self
      rw [splice_plain, hits_plain, ← hrest]
      exact occurrences_cons_of_not_isPrefix (hnone (List.cons_ne_nil c []) hchar)
    | hit other =>
      obtain ⟨hotherParen, hotherMark⟩ := hinner other List.mem_cons_self
      rw [splice_hit, hits_hit]
      by_cases heq : other = name
      · subst heq
        rw [partly_of_not_mem hname, occurrences_expression_append hparen, hrest,
          List.count_cons_self]
      · rw [List.count_cons_of_ne heq, ← hrest]
        refine occurrences_append_of_not_isPrefix fun left hne hleft hstart => ?_
        by_cases hother : other ∈ done
        · rw [partly_of_mem hother] at hleft
          exact hnone hne (fun hmem => hvalue other hother (hleft.subset hmem)) hstart
        · rw [partly_of_not_mem hother, Kind.expression_eq_cons] at hleft
          rcases List.suffix_cons_iff.1 hleft with rfl | htail
          · rw [← Kind.expression_eq_cons] at hstart
            exact heq (Kind.eq_of_expression_isPrefix hparen hotherParen hstart).symm
          · -- behind its first character a reference has no mark
            obtain ⟨c, behind, rfl⟩ := List.exists_cons_of_ne_nil hne
            rw [Kind.expression_eq_cons] at hstart
            obtain ⟨rfl, -⟩ := List.cons_prefix_cons.1 hstart
            exact Kind.not_mem_tail_expression .reference hotherMark
              (htail.subset List.mem_cons_self)

end Turn

end Text

/-! ## All names, each at its turn -/

/-- **Only captured references are met:** at its turn, when the names in front of it have been
replaced where they were captured, each name's reference stands in the line as often as it was
captured. -/
def Text.OnlyCaptured (found : List (Piece Text)) (value : Text → Text) (names : List Text) :
    Prop :=
  ∀ front name back, names = front ++ name :: back →
    occurrences (Kind.reference.expression name) (splice (partly value front) found) =
      (hits found).count name

theorem nodup_eraseDups {α : Type} [BEq α] [LawfulBEq α] (xs : List α) : xs.eraseDups.Nodup := by
  induction xs using eraseDups_induction with
  | nil => exact List.nodup_nil
  | cons x rest ih =>
    rw [List.eraseDups_cons, List.nodup_cons, List.mem_eraseDups]
    exact ⟨by simp, ih⟩

section Names

variable {found : List (Text.Piece Text)} {value : Text → Text} {names : List Text}

theorem substitute_concat (front : List Text) (name text : Text) :
    substitute ((front ++ [name]).map fun name => (name, value name)) text =
      Text.replaceAll (Kind.reference.expression name) (value name)
        (substitute (front.map fun name => (name, value name)) text) := by
  rw [substitute, List.map_append, List.foldl_append]
  rfl

theorem Text.splice_partly_concat (front : List Text) (name : Text) :
    splice (partly value (front ++ [name])) found = splice (partly value (name :: front)) found :=
  splice_congr fun other _ => by
    have hsame : other ∈ front ++ [name] ↔ other ∈ name :: front := by simp [or_comm]
    simp only [partly, hsame]

/-- **All names, each at its turn:** behind each of them exactly the captured references to the
names so far stand as values, if and only if each one's reference stands nowhere else at its turn. -/
theorem substitute_splice_iff (hnodup : names.Nodup) (hparen : ∀ name ∈ names, ')' ∉ name)
    (hvalue : ∀ name ∈ names, ')' ∉ value name) :
    (∀ front back, names = front ++ back →
      substitute (front.map fun name => (name, value name))
          (Text.splice (Text.partly value []) found) =
        Text.splice (Text.partly value front) found) ↔
      Text.OnlyCaptured found value names := by
  have hnew : ∀ front name back, names = front ++ name :: back → name ∉ front := by
    rintro front name back rfl hold
    exact List.disjoint_of_nodup_append hnodup hold List.mem_cons_self
  constructor
  · intro h front name back hnames
    have hmem : name ∈ names := by rw [hnames]; simp
    have hbefore := h front (name :: back) hnames
    have hbehind := h (front ++ [name]) back (by rw [hnames, List.append_assoc]; rfl)
    rw [substitute_concat, hbefore, Text.splice_partly_concat] at hbehind
    exact (Text.replaceAll_splice_iff (hnew front name back hnames) (hparen name hmem)
      (hvalue name hmem)).1 hbehind
  · intro h front
    -- the last name of the front has its turn behind all others
    induction front using List.reverseRecOn with
    | nil => exact fun _ _ => rfl
    | append_singleton front name ih =>
      intro back hnames
      have hturn : names = front ++ name :: back := by rw [hnames, List.append_assoc]; rfl
      rw [substitute_concat, ih (name :: back) hturn, Text.splice_partly_concat]
      exact Text.replaceAll_splice_of_occurrences (hnew front name back hturn)
        (h front name back hturn)

end Names

/-- On a line whose parentheses all close captured references, and whose names have no marks, only
captured references are met, whatever values without `)` the names have. -/
theorem Text.onlyCaptured_of_closed (hplain : .plain ')' ∉ found)
    (hnames : ∀ name, name ∈ names ↔ .hit name ∈ found) (hnodup : names.Nodup)
    (hinner : ∀ name ∈ names, ')' ∉ name ∧ '#' ∉ name) (hvalue : ∀ name ∈ names, ')' ∉ value name) :
    OnlyCaptured found value names := by
  rintro front name back rfl
  have hmem : name ∈ front ++ name :: back := by simp
  have hnew : name ∉ front :=
    fun hold => List.disjoint_of_nodup_append hnodup hold List.mem_cons_self
  obtain ⟨hparen, hmark⟩ := hinner name hmem
  exact occurrences_splice_of_closed hplain
    (fun other hother => hinner other ((hnames other).2 hother))
    (fun other hother => hvalue other (List.mem_append_left _ hother)) hnew hparen hmark

namespace Frame

/-! ## The headline -/

/-- **References with values** put out what substitution makes of their line. -/
theorem expandLine_of_lookup {frame : Frame} {nested : Nested} {n : Nat} {own : Bindings}
    {text : Text} {names : List Text} (hd : (Line.ofText text).directive = .ok (.references names))
    {value : Text → Text}
    (hbound : ∀ name ∈ names, (Scope.mk own frame.inherited).lookup name = some (value name)) :
    frame.expandLine nested n own text =
      .ok ⟨own, [substitute (names.map fun name => (name, value name)) text]⟩ := by
  refine Yields.expandLine_eq (.references hd (refer_eq_ok_iff.2 ⟨fun name hname => ?_, ?_⟩))
  · rw [hbound name hname]
    rfl
  · refine congrArg (substitute · text) (List.map_congr_left fun name hname => ?_)
    rw [hbound name hname]
    rfl

/-- **When substitution is simultaneous.** On a line of references whose names all have values, with
no `)` in them, the names are replaced in order of their first appearance. Behind each of them the
line is the original one with the values in the places of exactly those captured references whose
names have been replaced, if and only if at its turn each name's reference stands in the line
exactly as often as it was captured. Then the line that is put out is the original one with all
captured references replaced at once. And this is so whatever the values are, if each `)` on the
line closes a captured reference and no captured name has a `#`. -/
theorem substitution_simultaneous_iff {frame : Frame} {own : Bindings} {text : Text}
    {names : List Text} (hd : (Line.ofText text).directive = .ok (.references names))
    {value : Text → Text}
    (hbound : ∀ name ∈ names, (Scope.mk own frame.inherited).lookup name = some (value name))
    (hvalue : ∀ name ∈ names, ')' ∉ value name) :
    ((∀ front back, names = front ++ back →
        substitute (front.map fun name => (name, value name)) text =
          Text.splice (Text.partly value front) text.referencePieces) ↔
      Text.OnlyCaptured text.referencePieces value names) ∧
    (Text.OnlyCaptured text.referencePieces value names →
      ∀ nested n, frame.expandLine nested n own text =
        .ok ⟨own, [Text.splice value text.referencePieces]⟩) ∧
    (.plain ')' ∉ text.referencePieces → (∀ name ∈ names, '#' ∉ name) →
      Text.OnlyCaptured text.referencePieces value names) := by
  have hparen : ∀ name ∈ names, ')' ∉ name :=
    fun name hname => Text.not_mem_of_hit_mem ((Text.mem_names_iff hd).1 hname)
  have hnodup : names.Nodup := by
    rw [Line.eq_eraseDups_of_directive hd]
    exact nodup_eraseDups _
  have hturns := @substitute_splice_iff text.referencePieces value names hnodup hparen hvalue
  have hstart : Text.splice (Text.partly value []) text.referencePieces = text :=
    Text.splice_referencePieces text
  rw [hstart] at hturns
  refine ⟨hturns, fun hcount nested n => ?_, fun hplain hmark => ?_⟩
  · have hall : Text.splice (Text.partly value names) text.referencePieces =
        Text.splice value text.referencePieces :=
      Text.splice_congr fun name hname => Text.partly_of_mem ((Text.mem_names_iff hd).2 hname)
    rw [expandLine_of_lookup hd hbound, hturns.2 hcount names [] (List.append_nil names).symm, hall]
  · exact Text.onlyCaptured_of_closed hplain (fun _ => Text.mem_names_iff hd) hnodup
      (fun name hname => ⟨hparen name hname, hmark name hname⟩) hvalue

/-- A value that opens a reference, and one of a name behind it. -/
def openingBindings : Bindings :=
  Bindings.empty.assignAll [⟨['a'], "#var(".toList⟩, ⟨['b'], ['1']⟩]

theorem substitution_simultaneous_iff_openingBindings :
    (Line.ofText "#var(a)#var(b)#var(a)".toList).directive = .ok (.references [['a'], ['b']]) ∧
    ∀ (frame : Frame) nested n,
      frame.expandLine nested n openingBindings "#var(a)#var(b)#var(a)".toList =
        .ok ⟨openingBindings, ["#var(1#var(".toList]⟩ := by
  have hd : (Line.ofText "#var(a)#var(b)#var(a)".toList).directive =
      .ok (.references [['a'], ['b']]) := by decide +kernel
  refine ⟨hd, fun frame nested n => ?_⟩
  have hbound : ∀ name ∈ [['a'], ['b']], (Scope.mk openingBindings frame.inherited).lookup name =
      some ((openingBindings.find? name).getD []) := by
    intro name hname
    simp only [List.mem_cons, List.not_mem_nil, or_false] at hname
    rcases hname with rfl | rfl <;> rfl
  obtain ⟨-, hline, hclosed⟩ := substitution_simultaneous_iff hd hbound (by decide)
  exact hline (hclosed (by decide +kernel) (by decide)) nested n

/-- **Not always simultaneous:** a value that is completed to a reference behind it, and a name that
ends in a reference to another one. The lines that are put out are not the original ones with the
captured references replaced. -/
theorem not_substitution_simultaneous :
    (expandLines (FileSystem.ofTexts []) ⟨['.']⟩ .empty
        ["#set(a=\"#var(b\")".toList, "#set(b=\"X\")".toList, "#var(a))#var(b)".toList] =
        .ok ["XX".toList] ∧
      Text.splice (fun name => if name = ['a'] then "#var(b".toList else ['X'])
        (Text.referencePieces "#var(a))#var(b)".toList) = "#var(b)X".toList) ∧
    expandLines (FileSystem.ofTexts []) ⟨['.']⟩ .empty
        ["#set(x=\"1\")".toList, "#set(#var(x=\"2\")".toList, "#var(x)#var(#var(x)".toList] =
        .ok ["1#var(1".toList] ∧
      Text.splice (fun name => if name = ['x'] then ['1'] else ['2'])
        (Text.referencePieces "#var(x)#var(#var(x)".toList) = "12".toList := by
  refine ⟨⟨?_, ?_⟩, ?_, ?_⟩
  all_goals decide +kernel

end Frame

end LineTemplate
