import LineTemplate.Proofs.FirstFault
import LineTemplate.Proofs.Matches
import Mathlib.Data.List.Nodup

/-!
# The names on a line of references

A line of references names what stands between the parentheses of its matches: those that a search
from the left comes to, on the whole line, so that a reference inside a name is none. Each name
counts once, where it appears first. The line is malformed if there is no match at all, which is to
say that no `)` stands anywhere behind a `#var(`. A line that is not malformed puts out one line if
all its names have values; if not, it fails with the first name that has none.

## The architecture

* **`FirstAppearances`** — a list without its repetitions, described by positions. There is one for
  each list (`FirstAppearances.unique`), and leaving out repetitions gives it
  (`firstAppearances_eraseDups`).
* **`Kind.Completed`** — a `)` stands anywhere behind an opening; then there is a candidate
  (`exists_candidate_iff`), and a match (`Matches.eq_nil_iff`).
* **`Kind.Matches.expressions_eq`** — the search reads the inner texts of the matches, in order.
* **`Scope.FirstUnbound`** — the first name without a value, and **`refers_or_unbound`**, what the
  line comes to in either case.
* **`references_line_exact`** — the headline.
-/

namespace LineTemplate

/-! ## Elements at their first appearance -/

/-- **The elements of a list at their first appearance:** each one once, and one that appears before
another stands before it. -/
structure FirstAppearances {α : Type} [BEq α] (all names : List α) : Prop where
  nodup : names.Nodup
  mem_iff : ∀ a, a ∈ names ↔ a ∈ all
  ordered : names.Pairwise fun a b => all.idxOf a < all.idxOf b

/-- The elements and their order are given, so there is no choice. -/
theorem FirstAppearances.unique {α : Type} [BEq α] {all names names' : List α}
    (h : FirstAppearances all names) (h' : FirstAppearances all names') : names = names' := by
  have hperm : names.Perm names' :=
    (List.perm_ext_iff_of_nodup h.nodup h'.nodup).2 fun a => (h.mem_iff a).trans (h'.mem_iff a).symm
  exact hperm.eq_of_pairwise (fun _ _ _ _ hlt hgt => absurd hlt (Nat.lt_asymm hgt)) h.ordered
    h'.ordered

section Appearances

variable {α : Type} [BEq α] [LawfulBEq α]

/-- Elements that are kept appear in the same order among all others. -/
theorem idxOf_lt_of_filter {p : α → Bool} {xs : List α} {a b : α} (ha : p a = true)
    (hb : p b = true) (h : (xs.filter p).idxOf a < (xs.filter p).idxOf b) :
    xs.idxOf a < xs.idxOf b := by
  induction xs with
  | nil => exact absurd h (Nat.lt_irrefl _)
  | cons x rest ih =>
    by_cases hkeep : p x = true
    · rw [List.filter_cons_of_pos hkeep] at h
      by_cases hxa : x = a
      · subst hxa
        have hne : x ≠ b := by
          rintro rfl
          exact Nat.lt_irrefl _ h
        rw [List.idxOf_cons_self, List.idxOf_cons_ne _ hne]
        exact Nat.succ_pos _
      · by_cases hxb : x = b
        · subst hxb
          rw [List.idxOf_cons_self] at h
          exact absurd h (Nat.not_lt_zero _)
        · rw [List.idxOf_cons_ne _ hxa, List.idxOf_cons_ne _ hxb] at h ⊢
          exact Nat.succ_lt_succ (ih (Nat.lt_of_succ_lt_succ h))
    · -- what is left out is neither of the two
      have hxa : x ≠ a := fun heq => hkeep (heq ▸ ha)
      have hxb : x ≠ b := fun heq => hkeep (heq ▸ hb)
      rw [List.filter_cons_of_neg hkeep] at h
      rw [List.idxOf_cons_ne _ hxa, List.idxOf_cons_ne _ hxb]
      exact Nat.succ_lt_succ (ih h)

theorem pairwise_idxOf_eraseDups (xs : List α) :
    xs.eraseDups.Pairwise fun a b => xs.idxOf a < xs.idxOf b := by
  induction xs using eraseDups_induction with
  | nil => exact List.Pairwise.nil
  | cons x rest ih =>
    rw [List.eraseDups_cons, List.pairwise_cons]
    have hkept : ∀ a ∈ (rest.filter fun a => !a == x).eraseDups, a ≠ x := by
      intro a ha
      simpa using (List.mem_filter.1 (List.mem_eraseDups.1 ha)).2
    refine ⟨fun a ha => ?_, ih.imp_of_mem fun {a b} ha hb hlt => ?_⟩
    · rw [List.idxOf_cons_self, List.idxOf_cons_ne _ (hkept a ha).symm]
      exact Nat.succ_pos _
    · have hrest := idxOf_lt_of_filter (by simpa using hkept a ha) (by simpa using hkept b hb) hlt
      rw [List.idxOf_cons_ne _ (hkept a ha).symm, List.idxOf_cons_ne _ (hkept b hb).symm]
      exact Nat.succ_lt_succ hrest

theorem firstAppearances_eraseDups (all : List α) : FirstAppearances all all.eraseDups where
  nodup := (pairwise_idxOf_eraseDups all).imp fun hlt heq => by
    rw [heq] at hlt
    exact Nat.lt_irrefl _ hlt
  mem_iff _ := List.mem_eraseDups
  ordered := pairwise_idxOf_eraseDups all

end Appearances

/-! ## Matches and what is read there -/

namespace Kind

variable {kind : Kind} {text : Text}

/-- **An opening is completed** in a text if a `)` stands anywhere behind one. -/
def Completed (kind : Kind) (text : Text) : Prop :=
  ∃ i j, kind.opening <+: text.drop i ∧ i + kind.opening.length ≤ j ∧ text[j]? = some ')'

/-- Where nothing is asked of the inner text, the first `)` behind an opening makes a candidate. -/
theorem exists_candidate_iff (hkind : kind ≠ .assignment) :
    (∃ m, kind.Candidate text m) ↔ kind.Completed text := by
  constructor
  · rintro ⟨m, h⟩
    exact ⟨m.start, m.stop, h.opens, h.behind, h.closes⟩
  · rintro ⟨i, j, ⟨tail, htail⟩, hle, hget⟩
    have htail' : tail = text.drop (i + kind.opening.length) := by
      rw [← List.drop_drop, ← htail, List.drop_left]
    have hmem : ')' ∈ tail := by
      obtain ⟨k, rfl⟩ := Nat.exists_eq_add_of_le hle
      rw [htail']
      exact List.mem_of_getElem? (by rw [List.getElem?_drop]; exact hget)
    obtain ⟨between, hbetween⟩ : ∃ between, Text.upTo? ')' tail = some between :=
      Option.ne_none_iff_exists'.1 (mt Text.upTo?_eq_none_iff.1 (not_not_intro hmem))
    obtain ⟨hparen, after, rfl⟩ := Text.eq_of_upTo? hbetween
    have hdrop : text.drop i = kind.expression between ++ after := by
      rw [← htail]
      simp [expression]
    exact ⟨_, (candidate_of_drop_eq hparen (fun h => absurd h hkind) hdrop).1⟩

theorem Matches.eq_nil_iff (hkind : kind ≠ .assignment) {ms : List Match}
    (h : kind.Matches text 0 ms) : ms = [] ↔ ¬ kind.Completed text := by
  rw [← exists_candidate_iff hkind]
  cases h with
  | none hnone => exact iff_of_true rfl fun ⟨m, hm⟩ => hnone m (Nat.zero_le _) hm
  | first _ hcandidate => exact iff_of_false (List.cons_ne_nil _ _) fun hnot => hnot ⟨_, hcandidate⟩

/-- **The search reads the matches:** the inner text of each one, in order. -/
theorem Matches.expressions_eq (hkind : kind ≠ .assignment) {ms : List Match}
    (h : kind.Matches text 0 ms) : kind.expressions some text = ms.map (kind.inner text) := by
  obtain ⟨ms', hms', hhits⟩ := exists_matches (isSome_some_iff hkind) text 0
  obtain rfl := h.unique hms'
  rw [List.drop_zero] at hhits
  refine List.map_injective_iff.2 (Option.some_injective _) ?_
  rw [expressions, hhits, List.map_map]
  rfl

end Kind

namespace Line

variable {line : Line} {ms : List Match}

theorem references_eq_of_matches (h : Kind.reference.Matches line.text 0 ms) :
    line.references = (ms.map (Kind.reference.inner line.text)).eraseDups := by
  rw [references, h.expressions_eq (by decide)]

theorem directive_of_matches_nil (hkind : line.kind? = some .reference)
    (h : Kind.reference.Matches line.text 0 []) : line.directive = .error .reference := by
  have hnames : line.references = [] := references_eq_of_matches h
  simp [directive, hkind, directiveOf?, hnames]

theorem directive_of_matches (hkind : line.kind? = some .reference)
    (h : Kind.reference.Matches line.text 0 ms) (hne : ms ≠ []) :
    line.directive =
      .ok (.references (ms.map (Kind.reference.inner line.text)).eraseDups) := by
  have hnames := references_eq_of_matches h
  obtain ⟨m, rest, rfl⟩ := List.exists_cons_of_ne_nil hne
  have hsome : line.references ≠ [] := by
    rw [hnames, List.map_cons, List.eraseDups_cons]
    exact List.cons_ne_nil _ _
  rw [← hnames]
  simp [directive, hkind, directiveOf?, hsome]

end Line

/-! ## Values for the names -/

/-- **The first name without a value** among several ones. -/
def Scope.FirstUnbound (scope : Scope) (names : List Text) (name : Text) : Prop :=
  ∃ front back, names = front ++ name :: back ∧ (∀ other ∈ front, (scope.lookup other).isSome) ∧
    scope.lookup name = none

theorem Scope.firstUnbound_iff {scope : Scope} {names : List Text} {name : Text} :
    scope.FirstUnbound names name ↔ scope.values names = .error name := by
  rw [Scope.values_eq_error_iff, List.find?_eq_some_iff_append, FirstUnbound]
  constructor
  · rintro ⟨front, back, hnames, hfront, hname⟩
    refine ⟨by simp [hname], front, back, hnames, fun other hother => ?_⟩
    simpa using hfront other hother
  · rintro ⟨hname, front, back, hnames, hfront⟩
    refine ⟨front, back, hnames, fun other hother => ?_, by simpa using hname⟩
    simpa using hfront other hother

namespace Frame

variable {frame : Frame} {nested : Nested} {n : Nat} {own : Bindings}

/-- **References behind some lines:** one more line is put out if all names have values, and else
the first one without a value is reported. -/
theorem refers_or_unbound {lines : List Text} {whole : Expanded}
    (hlines : frame.expandFrom nested n own lines = .ok whole) {text : Text} {names : List Text}
    (hd : (Line.ofText text).directive = .ok (.references names)) :
    ((∀ name ∈ names, ((Scope.mk whole.own frame.inherited).lookup name).isSome) ∧
      ∃ written, frame.expandFrom nested n own (lines ++ [text]) =
        .ok ⟨whole.own, whole.output ++ [written]⟩) ∨
    ∃ name, (Scope.mk whole.own frame.inherited).FirstUnbound names name ∧
      frame.expandFrom nested n own (lines ++ [text]) =
        .error ⟨n + lines.length, .unbound name⟩ := by
  cases hrefer : frame.refer whole.own names text with
  | ok written =>
    have hline : frame.Yields nested (n + lines.length) whole.own text ⟨whole.own, [written]⟩ :=
      .references hd hrefer
    refine Or.inl ⟨(refer_eq_ok_iff.1 hrefer).1, written, ?_⟩
    exact expandFrom_append_eq_ok_iff.2 ⟨whole, ⟨whole.own, [written]⟩, hlines,
      expandFrom_cons_eq_ok_iff.2 ⟨_, ⟨whole.own, []⟩, hline, rfl, rfl⟩, rfl⟩
  | error fault =>
    obtain ⟨name, hvalues, rfl⟩ := refer_eq_error_iff.1 hrefer
    refine Or.inr ⟨name, Scope.firstUnbound_iff.2 hvalues, expandFrom_eq_error_iff.2 ?_⟩
    exact ⟨lines, text, [], whole, rfl, hlines, (Faulty.refer hd hrefer).expandLine_eq⟩

/-! ## The headline -/

/-- **What a line of references names and comes to.** On each such line the matches of references
are determined. The line is malformed if and only if no `)` stands anywhere behind a `#var(`; then
it fails as malformed under its own number, behind any lines that expand. Otherwise it names the
inner texts of the matches, each one once and in the order of first appearance; behind any lines
that expand it puts out one line more if all these names have values there, and if not, it fails
under its own number with the first of them that has none. -/
theorem references_line_exact {text : Text}
    (hkind : (Line.ofText text).kind? = some .reference) :
    ∃ ms, Kind.reference.Matches text 0 ms ∧
      (∀ ms', Kind.reference.Matches text 0 ms' → ms' = ms) ∧
      ((Line.ofText text).directive = .error .reference ↔ ¬ Kind.reference.Completed text) ∧
      (¬ Kind.reference.Completed text →
        ∀ (frame : Frame) nested n own lines whole,
          frame.expandFrom nested n own lines = .ok whole →
            frame.expandFrom nested n own (lines ++ [text]) =
              .error ⟨n + lines.length, .malformed .reference⟩) ∧
      (Kind.reference.Completed text →
        ∃ names, (Line.ofText text).directive = .ok (.references names) ∧
          FirstAppearances (ms.map (Kind.reference.inner text)) names ∧
          (∀ other, FirstAppearances (ms.map (Kind.reference.inner text)) other →
            other = names) ∧
          ∀ (frame : Frame) nested n own lines whole,
            frame.expandFrom nested n own lines = .ok whole →
              ((∀ name ∈ names, ((Scope.mk whole.own frame.inherited).lookup name).isSome) ∧
                ∃ written, frame.expandFrom nested n own (lines ++ [text]) =
                  .ok ⟨whole.own, whole.output ++ [written]⟩) ∨
              ∃ name, (Scope.mk whole.own frame.inherited).FirstUnbound names name ∧
                frame.expandFrom nested n own (lines ++ [text]) =
                  .error ⟨n + lines.length, .unbound name⟩) := by
  obtain ⟨ms, hms, -⟩ := Kind.exists_matches
    (Kind.isSome_some_iff (show Kind.reference ≠ .assignment by decide)) text 0
  have hnil := hms.eq_nil_iff (by decide)
  have hline : Kind.reference.Matches (Line.ofText text).text 0 ms := by rwa [Line.text_ofText]
  have hbad : ¬ Kind.reference.Completed text →
      (Line.ofText text).directive = .error .reference := by
    intro hnot
    obtain rfl := hnil.2 hnot
    exact Line.directive_of_matches_nil hkind hline
  have hgood : Kind.reference.Completed text → (Line.ofText text).directive =
      .ok (.references (ms.map (Kind.reference.inner text)).eraseDups) := by
    intro hcompleted
    have hd := Line.directive_of_matches hkind hline (mt hnil.1 (not_not_intro hcompleted))
    rwa [Line.text_ofText] at hd
  have hfirst := firstAppearances_eraseDups (ms.map (Kind.reference.inner text))
  refine ⟨ms, hms, fun ms' hms' => hms'.unique hms, ⟨fun herror hcompleted => ?_, hbad⟩,
    fun hnot frame nested n own lines whole hlines => ?_, fun hcompleted => ?_⟩
  · rw [hgood hcompleted] at herror
    cases herror
  · exact expandFrom_eq_error_iff.2 ⟨lines, text, [], whole, rfl, hlines,
      (Faulty.malformed (hbad hnot)).expandLine_eq⟩
  · refine ⟨_, hgood hcompleted, hfirst, fun other hother => hother.unique hfirst, ?_⟩
    intro frame nested n own lines whole hlines
    exact refers_or_unbound hlines (hgood hcompleted)

/-- A name twice, one with an opening inside, and an opening that is not completed. -/
def nestedNames : Text := "  #var(b)#var(#var(a)#var(b)#var(".toList

theorem references_line_exact_nestedNames :
    (Line.ofText nestedNames).kind? = some .reference ∧
    (Line.ofText nestedNames).directive = .ok (.references [['b'], "#var(a".toList]) ∧
    (∀ nested, expandFrom ⟨.ofTexts [], ⟨['.']⟩, .empty, []⟩ nested 1 .empty
      ["#set(b=\"1\")".toList, nestedNames] = .error ⟨2, .unbound "#var(a".toList⟩) ∧
    (Line.ofText "#var(a #var".toList).kind? = some .reference ∧
    ∀ (frame : Frame) nested n own,
      frame.expandFrom nested n own ["#var(a #var".toList] = .error ⟨n, .malformed .reference⟩ := by
  have hmatches : Kind.reference.Matches nestedNames 0 [⟨2, 8⟩, ⟨9, 20⟩, ⟨21, 27⟩] := by
    decide +kernel
  have hkind : (Line.ofText nestedNames).kind? = some .reference := by decide +kernel
  have hopen : (Line.ofText "#var(a #var".toList).kind? = some .reference := by decide +kernel
  have hset : (Line.ofText "#set(b=\"1\")".toList).directive =
      .ok (.assignment ⟨['b'], ['1']⟩) := by decide +kernel
  have hcompleted : Kind.reference.Completed nestedNames :=
    (Kind.exists_candidate_iff (by decide)).1 ⟨_, hmatches.candidate⟩
  obtain ⟨ms, -, hunique, -, -, hgood⟩ := references_line_exact hkind
  obtain rfl := hunique _ hmatches
  obtain ⟨names, hd, -, hothers, hline⟩ := hgood hcompleted
  have hvalue : ([⟨2, 8⟩, ⟨9, 20⟩, ⟨21, 27⟩].map (Kind.reference.inner nestedNames)).eraseDups =
      [['b'], "#var(a".toList] := by decide +kernel
  obtain rfl : [['b'], "#var(a".toList] = names :=
    hvalue.symm.trans (hothers _ (firstAppearances_eraseDups _))
  obtain ⟨-, -, -, -, hmalformed, -⟩ := references_line_exact hopen
  refine ⟨hkind, hd, fun nested => ?_, hopen, fun frame nested n own => ?_⟩
  · have hlines : expandFrom ⟨.ofTexts [], ⟨['.']⟩, .empty, []⟩ nested 1 .empty
        ["#set(b=\"1\")".toList] = .ok ⟨Bindings.empty.assign ⟨['b'], ['1']⟩, []⟩ :=
      expandFrom_cons_eq_ok_iff.2 ⟨_, ⟨_, []⟩, .assignment hset, rfl, rfl⟩
    rcases hline _ nested 1 .empty _ _ hlines with ⟨hall, -⟩ | ⟨name, hunbound, herror⟩
    · exact absurd (hall "#var(a".toList (by simp)) (by decide)
    · have hname : (Scope.mk (Bindings.empty.assign ⟨['b'], ['1']⟩) .empty).values
          [['b'], "#var(a".toList] = .error "#var(a".toList := by rfl
      cases (Scope.firstUnbound_iff.1 hunbound).symm.trans hname
      exact herror
  · have hnone : Kind.reference.Matches "#var(a #var".toList 0 [] := by decide +kernel
    exact hmalformed ((hnone.eq_nil_iff (by decide)).1 rfl) frame nested n own [] ⟨own, []⟩ rfl

end Frame

end LineTemplate
