import LineTemplate.Proofs.Step

/-!
# Substitution in clean texts

Substitution takes one name after the other, and looks for each in a text that it has already
rewritten. In a clean text every `#` starts a reference; if the values bring in no other `#`, then
those that are left at any time start the references that have not been replaced yet. So each name
finds its own references and nothing else, and all names together do what a single walk does.

## The architecture

* **`Text.referencePieces`** — the references in a text, and the characters between them.
* **`Text.Clean`** — each `#` is the first character of a reference; **`clean_iff`** says the same
  of the pieces, one by one.
* **`replaceAll_splice`** — one name is replaced, and no reference to another one is touched.
* **`substitute_splice`** — the names in order. What the induction carries is which names are
  done: their references stand as values, all others as they were read.
* **`substitute_of_clean`** — the whole substitution.
-/

namespace LineTemplate

namespace Text

/-- **The references in a text**, and the characters between them. -/
def referencePieces (text : Text) : List (Piece Text) :=
  pieces (Kind.reference.recognise some) 0 text

/-- **A clean text:** each `#` in it is the first character of a reference that is found there. -/
def Clean (text : Text) : Prop :=
  ∀ front back, text = front ++ '#' :: back → ∃ before name after,
    text.referencePieces = before ++ .hit name :: after ∧
      splice Kind.reference.expression before = front

/-- A piece with no `#` but the one that starts a reference. -/
def Piece.Unmarked : Piece Text → Prop
  | .plain c => c ≠ '#'
  | .hit name => '#' ∉ name

instance : DecidablePred Piece.Unmarked
  | .plain c => inferInstanceAs (Decidable (c ≠ '#'))
  | .hit name => inferInstanceAs (Decidable ('#' ∉ name))

theorem splice_referencePieces (text : Text) :
    splice Kind.reference.expression text.referencePieces = text :=
  Kind.splice_expression .reference text

theorem not_mem_of_hit_mem {text name : Text} (h : .hit name ∈ text.referencePieces) :
    ')' ∉ name := by
  obtain ⟨found, width, -, hread⟩ := exists_recognise_of_hit_mem h
  obtain ⟨inner, rest, hinner, hsome, -, -⟩ := Kind.eq_of_recognise hread
  cases hsome
  exact hinner

/-- The names on a line are those of its references. -/
theorem mem_names_iff {text : Text} {names : List Text} {name : Text}
    (h : (Line.ofText text).directive = .ok (.references names)) :
    name ∈ names ↔ .hit name ∈ text.referencePieces := by
  rw [Line.eq_eraseDups_of_directive h, List.mem_eraseDups]
  exact mem_hits

/-! ## Clean texts, piece by piece -/

/-- Two places of one list of pieces are the same if the text in front of the second one ends
inside the first piece. -/
theorem eq_of_append_cons_eq {write : Text → Text} (hne : ∀ a, write a ≠ [])
    {front back front' back' : List (Piece Text)} {piece piece' : Piece Text}
    (h : front ++ piece :: back = front' ++ piece' :: back')
    (hle : (splice write front).length ≤ (splice write front').length)
    (hlt : (splice write front').length < (splice write (front ++ [piece])).length) :
    front = front' ∧ piece = piece' := by
  have hcons : ∀ first others, (splice write (first :: others)).length =
      (splice write [first]).length + (splice write others).length := by
    intro first others
    rw [← List.singleton_append, splice_append, List.length_append]
  have hpos : ∀ first, 0 < (splice write [first]).length := by
    intro first
    cases first with
    | plain c => simp
    | hit a => simpa using List.length_pos_iff.2 (hne a)
  induction front generalizing front' with
  | nil =>
    cases front' with
    | nil => exact ⟨rfl, (List.cons.inj h).1⟩
    | cons first rest =>
      obtain ⟨rfl, -⟩ := List.cons.inj h
      rw [List.nil_append, hcons] at hlt
      omega
  | cons first rest ih =>
    cases front' with
    | nil =>
      have := hpos first
      rw [hcons, splice_nil, List.length_nil] at hle
      omega
    | cons first' rest' =>
      obtain ⟨rfl, htail⟩ := List.cons.inj h
      rw [List.cons_append, hcons first rest', hcons first (rest ++ [piece])] at hlt
      rw [hcons first rest, hcons first rest'] at hle
      obtain ⟨rfl, hpiece⟩ := ih htail (by omega) (by omega)
      exact ⟨rfl, hpiece⟩

theorem Clean.unmarked {text : Text} (h : text.Clean) {piece : Piece Text}
    (hmem : piece ∈ text.referencePieces) : piece.Unmarked := by
  obtain ⟨front, back, hpieces⟩ := List.append_of_mem hmem
  have htext : text = splice Kind.reference.expression front ++
      splice Kind.reference.expression (piece :: back) := by
    rw [← splice_append, ← hpieces, splice_referencePieces]
  have hlast : splice Kind.reference.expression (front ++ [piece]) =
      splice Kind.reference.expression front ++ splice Kind.reference.expression [piece] :=
    splice_append _ _ _
  -- a `#` elsewhere in the piece would have to start a piece of its own
  cases piece with
  | plain c =>
    rintro rfl
    obtain ⟨before, name, after, hsplit, hbefore⟩ := h _ _ htext
    obtain ⟨-, heq⟩ := eq_of_append_cons_eq (Kind.expression_ne_nil _) (hpieces.symm.trans hsplit)
      (Nat.le_of_eq (by rw [hbefore])) (by rw [hbefore, hlast]; simp)
    cases heq
  | hit name =>
    intro hmark
    obtain ⟨s, t, rfl⟩ := List.append_of_mem hmark
    have hinside : text = (splice Kind.reference.expression front ++ (Kind.reference.opening ++ s))
        ++ '#' :: (t ++ ')' :: splice Kind.reference.expression back) := by
      rw [htext]
      simp [Kind.expression]
    obtain ⟨before, other, after, hsplit, hbefore⟩ := h _ _ hinside
    obtain ⟨rfl, -⟩ := eq_of_append_cons_eq (Kind.expression_ne_nil _) (hpieces.symm.trans hsplit)
      (by rw [hbefore]; simp) (by rw [hbefore, hlast]; simp [Kind.expression])
    simp [Kind.opening] at hbefore

/-- In pieces without further marks, a `#` stands where a reference starts. -/
theorem exists_hit_of_splice_eq {found : List (Piece Text)}
    (h : ∀ piece ∈ found, piece.Unmarked) {front back : Text}
    (htext : splice Kind.reference.expression found = front ++ '#' :: back) :
    ∃ before name after, found = before ++ .hit name :: after ∧
      splice Kind.reference.expression before = front := by
  induction found generalizing front with
  | nil => simp at htext
  | cons piece rest ih =>
    have hrest := @ih fun other hother => h other (List.mem_cons_of_mem piece hother)
    have hpiece : piece.Unmarked := h piece List.mem_cons_self
    -- unless the piece itself starts at the `#`, the rest of the pieces has it
    suffices hsplit : (∃ name, piece = .hit name ∧ front = []) ∨
        ∃ behind, front = splice Kind.reference.expression [piece] ++ behind ∧
          splice Kind.reference.expression rest = behind ++ '#' :: back by
      rcases hsplit with ⟨name, rfl, rfl⟩ | ⟨behind, rfl, htail⟩
      · exact ⟨[], name, rest, rfl, rfl⟩
      · obtain ⟨before, name, after, rfl, rfl⟩ := hrest htail
        exact ⟨piece :: before, name, after, rfl, by rw [← splice_append]; rfl⟩
    cases piece with
    | plain c =>
      cases front with
      | nil => exact absurd (List.cons.inj htext).1 hpiece
      | cons d behind =>
        obtain ⟨rfl, htail⟩ := List.cons.inj htext
        exact Or.inr ⟨behind, rfl, htail⟩
    | hit name =>
      rw [splice_hit, Kind.expression_eq_cons] at htext
      cases front with
      | nil => exact Or.inl ⟨name, rfl, rfl⟩
      | cons d behind =>
        obtain ⟨rfl, htail⟩ := List.cons.inj htext
        have hname := Kind.not_mem_tail_expression .reference (show '#' ∉ name from hpiece)
        rw [splice_hit, splice_nil, List.append_nil, Kind.expression_eq_cons]
        rcases List.append_eq_append_iff.1 htail with ⟨m, rfl, hm⟩ | ⟨m, hm, hback⟩
        · exact Or.inr ⟨m, rfl, hm⟩
        · cases m with
          | nil => exact Or.inr ⟨[], by simpa using hm.symm, by simpa using hback.symm⟩
          | cons e m =>
            obtain ⟨rfl, -⟩ := List.cons.inj hback
            exact absurd (by rw [hm]; simp) hname

/-- **A text is clean** if none of its pieces has a further mark. -/
theorem clean_iff {text : Text} :
    text.Clean ↔ ∀ piece ∈ text.referencePieces, piece.Unmarked := by
  constructor
  · intro h piece hmem
    exact h.unmarked hmem
  · intro h front back htext
    exact exists_hit_of_splice_eq h ((splice_referencePieces text).trans htext)

/-! ## One name -/

/-- A search for one name passes a reference to another one. -/
theorem replaceAll_expression_append {name other : Text} (hname : ')' ∉ name)
    (hother : ')' ∉ other) (hmark : '#' ∉ other) (hne : name ≠ other) (value text : Text) :
    replaceAll (Kind.reference.expression name) value (Kind.reference.expression other ++ text) =
      Kind.reference.expression other ++
        replaceAll (Kind.reference.expression name) value text := by
  have hnot : ¬ Kind.reference.expression name <+: Kind.reference.expression other ++ text :=
    fun hstart => hne (Kind.eq_of_expression_isPrefix hname hother hstart)
  have hrest := Kind.not_mem_tail_expression .reference hmark
  rw [Kind.expression_eq_cons _ other, List.cons_append] at hnot ⊢
  rw [replaceAll_cons_of_not_isPrefix value hnot,
    replaceAll_append_of_not_mem value (Kind.head?_expression _ _) hrest, List.cons_append]

/-- How a reference stands while the names `done` have been replaced. -/
def partly (value : Text → Text) (done : List Text) (name : Text) : Text :=
  if name ∈ done then value name else Kind.reference.expression name

section Partly

variable {value : Text → Text} {done : List Text} {name : Text}

theorem partly_of_mem (h : name ∈ done) : partly value done name = value name := if_pos h

theorem partly_of_not_mem (h : name ∉ done) :
    partly value done name = Kind.reference.expression name :=
  if_neg h

theorem partly_cons_of_ne {other : Text} (h : other ≠ name) :
    partly value (name :: done) other = partly value done other := by
  simp only [partly, List.mem_cons, h, false_or]

end Partly

/-- **One name is replaced**, and all other references stand as they stood. -/
theorem replaceAll_splice {found : List (Piece Text)} (hfound : ∀ piece ∈ found, piece.Unmarked)
    (hinner : ∀ other, .hit other ∈ found → ')' ∉ other) {value : Text → Text} {done : List Text}
    (hvalue : ∀ other ∈ done, '#' ∉ value other) {name : Text} (hname : ')' ∉ name) :
    replaceAll (Kind.reference.expression name) (value name) (splice (partly value done) found) =
      splice (partly value (name :: done)) found := by
  have hhead := Kind.head?_expression .reference name
  induction found with
  | nil => rfl
  | cons piece rest ih =>
    have hrest := ih (fun other hmem => hfound other (List.mem_cons_of_mem piece hmem))
      fun other hmem => hinner other (List.mem_cons_of_mem piece hmem)
    have hpiece := hfound piece List.mem_cons_self
    cases piece with
    | plain c =>
      have hplain : '#' ∉ [c] := fun hmem => hpiece (List.mem_singleton.1 hmem).symm
      rw [splice_plain, splice_plain, ← List.singleton_append,
        replaceAll_append_of_not_mem _ hhead hplain, hrest]
      rfl
    | hit other =>
      have hother := hinner other List.mem_cons_self
      rw [splice_hit, splice_hit, ← hrest]
      by_cases heq : other = name
      · subst heq
        by_cases hdone : other ∈ done
        · rw [partly_of_mem hdone, partly_of_mem List.mem_cons_self,
            replaceAll_append_of_not_mem _ hhead (hvalue other hdone)]
        · rw [partly_of_not_mem hdone, partly_of_mem List.mem_cons_self,
            replaceAll_append_self _ (Kind.expression_ne_nil _ _)]
      · rw [partly_cons_of_ne heq]
        by_cases hdone : other ∈ done
        · rw [partly_of_mem hdone, replaceAll_append_of_not_mem _ hhead (hvalue other hdone)]
        · rw [partly_of_not_mem hdone,
            replaceAll_expression_append hname hother hpiece (Ne.symm heq)]

end Text

/-! ## All names -/

/-- **The invariant of the substitution:** references to the names that are done stand as values,
all others as they were read. -/
theorem substitute_splice {found : List (Text.Piece Text)}
    (hfound : ∀ piece ∈ found, piece.Unmarked) (hinner : ∀ other, .hit other ∈ found → ')' ∉ other)
    {value : Text → Text} {names done : List Text} (hnames : ∀ name ∈ names, ')' ∉ name)
    (hvalue : ∀ name ∈ names, '#' ∉ value name) (hdone : ∀ name ∈ done, '#' ∉ value name) :
    substitute (names.map fun name => (name, value name))
        (Text.splice (Text.partly value done) found) =
      Text.splice (Text.partly value (names.reverse ++ done)) found := by
  induction names generalizing done with
  | nil => rfl
  | cons name rest ih =>
    have hone := Text.replaceAll_splice hfound hinner hdone (hnames name List.mem_cons_self)
    have hnext : ∀ other ∈ name :: done, '#' ∉ value other := by
      intro other hother
      rcases List.mem_cons.1 hother with rfl | hmem
      · exact hvalue other List.mem_cons_self
      · exact hdone other hmem
    have hrest := ih (fun other hmem => hnames other (List.mem_cons_of_mem name hmem))
      (fun other hmem => hvalue other (List.mem_cons_of_mem name hmem)) hnext
    rw [List.reverse_cons, List.append_assoc, List.singleton_append, ← hrest, ← hone]
    rfl

/-- **Substitution in a clean text** is one walk: values without `#` take the places of the
references, and all else stays. -/
theorem substitute_of_clean {text : Text} (hclean : text.Clean) {names : List Text}
    (hnames : ∀ name, name ∈ names ↔ .hit name ∈ text.referencePieces) {value : Text → Text}
    (hvalue : ∀ name ∈ names, '#' ∉ value name) :
    substitute (names.map fun name => (name, value name)) text =
      Text.splice value text.referencePieces := by
  have hunmarked := Text.clean_iff.1 hclean
  have hinner : ∀ other, .hit other ∈ text.referencePieces → ')' ∉ other :=
    fun other => Text.not_mem_of_hit_mem
  calc substitute (names.map fun name => (name, value name)) text
      = substitute (names.map fun name => (name, value name))
          (Text.splice (Text.partly value []) text.referencePieces) := by
        -- as long as no name is done, the pieces give the text
        have hstart : Text.splice (Text.partly value []) text.referencePieces = text :=
          Text.splice_referencePieces text
        rw [hstart]
    _ = Text.splice (Text.partly value (names.reverse ++ [])) text.referencePieces :=
        substitute_splice hunmarked hinner (fun name hname => hinner name ((hnames name).1 hname))
          hvalue (by simp)
    _ = Text.splice value text.referencePieces := by
        apply Text.splice_congr
        intro name hname
        exact if_pos (by simpa using (hnames name).2 hname)

end LineTemplate
