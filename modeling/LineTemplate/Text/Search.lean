import LineTemplate.Text

/-!
# Leftmost search without overlaps

A search walks a text from the left. Where its recogniser finds an occurrence the whole
occurrence is one piece and the walk goes on behind it; every other character is a piece of
its own. So occurrences never overlap, and of two that do the left one counts.

* **`Text.pieces`** — the walk. Its argument `skip` counts the characters that still belong to
  the occurrence found last;
* `pieces_eq_drop` — that count does nothing but skip;
* `splice_pieces` — the walk loses nothing: with every occurrence written as it was read, the
  pieces give the text back;
* **`Text.replaceAll`** — every occurrence of a fixed text, replaced in one walk. It passes what
  cannot start the text (`replaceAll_append_of_not_mem`).
-/

namespace LineTemplate

namespace Text

/-- A piece of a searched text: an occurrence, as its recogniser reads it, or one character
outside all of them. -/
inductive Piece (α : Type) where
  | plain (c : Char)
  | hit (a : α)
deriving DecidableEq, Repr

/-- **The pieces of a text**, after `skip` characters of it. The recogniser looks at a text
from its first character on, and answers what it read there and how many characters wide the
occurrence is. -/
def pieces {α : Type} (recognise : Text → Option (α × Nat)) : (skip : Nat) → Text → List (Piece α)
  | _, [] => []
  | skip + 1, _ :: rest => pieces recognise skip rest
  | 0, c :: rest =>
    match recognise (c :: rest) with
    | some (a, width) => .hit a :: pieces recognise (width - 1) rest
    | none => .plain c :: pieces recognise 0 rest

def hits {α : Type} (found : List (Piece α)) : List α :=
  found.filterMap fun
    | .plain _ => none
    | .hit a => some a

/-- The text of the pieces, with every occurrence written as `write` says. -/
def splice {α : Type} (write : α → Text) (found : List (Piece α)) : Text :=
  found.flatMap fun
    | .plain c => [c]
    | .hit a => write a

def exactly (pattern : Text) (text : Text) : Option (Unit × Nat) :=
  if pattern.isPrefixOf text then some ((), pattern.length) else none

/-- **Replacement.** Every occurrence of the non-empty `pattern`, found from the left without
overlaps, becomes `value`; what a value brings in is not searched. -/
def replaceAll (pattern value text : Text) : Text :=
  splice (fun _ => value) (pieces (exactly pattern) 0 text)

/-! ## The walk, step by step -/

section Pieces

variable {α : Type} {recognise : Text → Option (α × Nat)}

@[simp] theorem pieces_nil (skip : Nat) : pieces recognise skip [] = [] := by
  cases skip <;> rfl

theorem pieces_eq_drop (skip : Nat) (text : Text) :
    pieces recognise skip text = pieces recognise 0 (text.drop skip) := by
  induction text generalizing skip with
  | nil => simp
  | cons c rest ih =>
    cases skip with
    | zero => rfl
    | succ skip => exact ih skip

theorem pieces_cons_of_none {c : Char} {rest : Text} (h : recognise (c :: rest) = none) :
    pieces recognise 0 (c :: rest) = .plain c :: pieces recognise 0 rest := by
  simp [pieces, h]

theorem pieces_of_some {text : Text} {a : α} {width : Nat} (hne : text ≠ []) (hw : 0 < width)
    (h : recognise text = some (a, width)) :
    pieces recognise 0 text = .hit a :: pieces recognise 0 (text.drop width) := by
  obtain ⟨c, rest, rfl⟩ := List.exists_cons_of_ne_nil hne
  obtain ⟨width, rfl⟩ : ∃ w, width = w + 1 := ⟨width - 1, by omega⟩
  simp [pieces, h, pieces_eq_drop width]

/-- Characters at which no occurrence starts are pieces of their own. -/
theorem pieces_append_of_none {front : Text}
    (h : ∀ c ∈ front, ∀ rest, recognise (c :: rest) = none) (text : Text) :
    pieces recognise 0 (front ++ text) = front.map .plain ++ pieces recognise 0 text := by
  induction front with
  | nil => rfl
  | cons c rest ih =>
    have hrest := ih fun d hd => h d (List.mem_cons_of_mem c hd)
    rw [List.cons_append, pieces_cons_of_none (h c List.mem_cons_self _), hrest]
    rfl

/-- What a walk hits its recogniser has read somewhere in the text. -/
theorem exists_recognise_of_hit_mem {skip : Nat} {text : Text} {a : α}
    (h : .hit a ∈ pieces recognise skip text) :
    ∃ found width, found <:+ text ∧ recognise found = some (a, width) := by
  induction text generalizing skip with
  | nil => simp at h
  | cons c rest ih =>
    have hrest : ∀ {skip}, .hit a ∈ pieces recognise skip rest →
        ∃ found width, found <:+ c :: rest ∧ recognise found = some (a, width) := by
      intro skip hmem
      obtain ⟨found, width, hsuffix, hread⟩ := ih hmem
      exact ⟨found, width, hsuffix.trans (List.suffix_cons c rest), hread⟩
    cases skip with
    | succ skip => exact hrest h
    | zero =>
      cases hread : recognise (c :: rest) with
      | none =>
        rw [pieces_cons_of_none hread] at h
        exact hrest (List.mem_of_ne_of_mem (by simp) h)
      | some found =>
        obtain ⟨b, width⟩ := found
        simp only [pieces, hread, List.mem_cons] at h
        rcases h with heq | hmem
        · cases heq
          exact ⟨_, width, List.suffix_refl _, hread⟩
        · exact hrest hmem

theorem mem_of_plain_mem {skip : Nat} {text : Text} {c : Char}
    (h : .plain c ∈ pieces recognise skip text) : c ∈ text := by
  induction text generalizing skip with
  | nil => simp at h
  | cons d rest ih =>
    cases skip with
    | succ skip => exact List.mem_cons_of_mem d (ih h)
    | zero =>
      cases hread : recognise (d :: rest) with
      | none =>
        rw [pieces_cons_of_none hread] at h
        rcases List.mem_cons.1 h with heq | hmem
        · cases heq
          exact List.mem_cons_self
        · exact List.mem_cons_of_mem d (ih hmem)
      | some found =>
        simp only [pieces, hread] at h
        exact List.mem_cons_of_mem d (ih (List.mem_of_ne_of_mem (by simp) h))

end Pieces

@[simp] theorem hits_nil {α : Type} : hits ([] : List (Piece α)) = [] := rfl

@[simp] theorem hits_plain {α : Type} (c : Char) (found : List (Piece α)) :
    hits (.plain c :: found) = hits found := rfl

@[simp] theorem hits_hit {α : Type} (a : α) (found : List (Piece α)) :
    hits (.hit a :: found) = a :: hits found := rfl

@[simp] theorem splice_nil {α : Type} (write : α → Text) : splice write [] = [] := rfl

@[simp] theorem splice_plain {α : Type} (write : α → Text) (c : Char) (found : List (Piece α)) :
    splice write (.plain c :: found) = c :: splice write found := rfl

@[simp] theorem splice_hit {α : Type} (write : α → Text) (a : α) (found : List (Piece α)) :
    splice write (.hit a :: found) = write a ++ splice write found := rfl

theorem splice_append {α : Type} (write : α → Text) (front back : List (Piece α)) :
    splice write (front ++ back) = splice write front ++ splice write back :=
  List.flatMap_append

@[simp] theorem hits_map_plain_append {α : Type} (text : Text) (found : List (Piece α)) :
    hits (text.map .plain ++ found) = hits found := by
  induction text with
  | nil => rfl
  | cons c rest ih => simpa using ih

@[simp] theorem splice_map_plain_append {α : Type} (write : α → Text) (text : Text)
    (found : List (Piece α)) :
    splice write (text.map .plain ++ found) = text ++ splice write found := by
  induction text with
  | nil => rfl
  | cons c rest ih => simpa using ih

@[simp] theorem mem_hits {α : Type} {a : α} {found : List (Piece α)} :
    a ∈ hits found ↔ .hit a ∈ found := by
  induction found with
  | nil => simp
  | cons piece rest ih => cases piece <;> simp [ih]

theorem splice_congr {α : Type} {write write' : α → Text} {found : List (Piece α)}
    (h : ∀ a, .hit a ∈ found → write a = write' a) : splice write found = splice write' found := by
  induction found with
  | nil => rfl
  | cons piece rest ih =>
    have hrest := ih fun a ha => h a (List.mem_cons_of_mem piece ha)
    cases piece with
    | plain c => rw [splice_plain, splice_plain, hrest]
    | hit a => rw [splice_hit, splice_hit, hrest, h a List.mem_cons_self]

theorem not_mem_splice {α : Type} {write : α → Text} {found : List (Piece α)} {c : Char}
    (hplain : .plain c ∉ found) (hwrite : ∀ a, .hit a ∈ found → c ∉ write a) :
    c ∉ splice write found := by
  intro hmem
  obtain ⟨piece, hpiece, hc⟩ := List.mem_flatMap.1 hmem
  cases piece with
  | plain d =>
    obtain rfl : c = d := List.mem_singleton.1 hc
    exact hplain hpiece
  | hit a => exact hwrite a hpiece hc

/-- **Nothing is lost.** If `write` gives back what the recogniser reads, then the pieces of a
text, written one after the other, are the text. -/
theorem splice_pieces {α : Type} {recognise : Text → Option (α × Nat)} {write : α → Text}
    (h : ∀ text a width, recognise text = some (a, width) → 0 < width ∧ write a = text.take width)
    (text : Text) : splice write (pieces recognise 0 text) = text := by
  -- an occurrence shortens the text by its width, so the induction is on the length
  induction hn : text.length using Nat.strongRecOn generalizing text with
  | ind n ih =>
    cases text with
    | nil => simp
    | cons c rest =>
      have hlen : rest.length + 1 = n := by simpa using hn
      cases hread : recognise (c :: rest) with
      | none =>
        rw [pieces_cons_of_none hread, splice_plain, ih rest.length (by omega) rest rfl]
      | some found =>
        obtain ⟨a, width⟩ := found
        obtain ⟨hpos, hwrite⟩ := h _ _ _ hread
        have hdrop : ((c :: rest).drop width).length < n := by simp; omega
        rw [pieces_of_some (by simp) hpos hread, splice_hit, ih _ hdrop _ rfl, hwrite,
          List.take_append_drop]

/-! ## Replacement -/

section Replacement

variable {pattern : Text} (value : Text)

/-- A search passes a text without the pattern's first character. -/
theorem replaceAll_append_of_not_mem {c : Char} (hhead : pattern.head? = some c) {front : Text}
    (h : c ∉ front) (text : Text) :
    replaceAll pattern value (front ++ text) = front ++ replaceAll pattern value text := by
  have hnone : ∀ d ∈ front, ∀ rest, exactly pattern (d :: rest) = none := by
    intro d hd rest
    obtain ⟨tail, rfl⟩ : ∃ tail, pattern = c :: tail := by
      cases pattern with
      | nil => cases hhead
      | cons b tail => cases hhead; exact ⟨tail, rfl⟩
    have hne : c ≠ d := by
      rintro rfl
      exact h hd
    simp [exactly, hne]
  rw [replaceAll, pieces_append_of_none hnone, splice_map_plain_append]
  rfl

/-- A replacement brings in the value, and no other character. -/
theorem mem_or_mem_of_mem_replaceAll {c : Char} {text : Text}
    (h : c ∈ replaceAll pattern value text) : c ∈ text ∨ c ∈ value := by
  by_cases hvalue : c ∈ value
  · exact Or.inr hvalue
  · refine Or.inl (Classical.not_not.1 fun hnot => ?_)
    exact not_mem_splice (fun hplain => hnot (mem_of_plain_mem hplain)) (fun _ _ => hvalue) h

theorem replaceAll_append_self (h : pattern ≠ []) (text : Text) :
    replaceAll pattern value (pattern ++ text) = value ++ replaceAll pattern value text := by
  have hread : exactly pattern (pattern ++ text) = some ((), pattern.length) := by
    simp [exactly]
  rw [replaceAll, pieces_of_some (by simp [h]) (List.length_pos_iff.2 h) hread, List.drop_left]
  rfl

theorem replaceAll_cons_of_not_isPrefix {c : Char} {text : Text} (h : ¬ pattern <+: c :: text) :
    replaceAll pattern value (c :: text) = c :: replaceAll pattern value text := by
  have hnone : exactly pattern (c :: text) = none := by
    simp [exactly, h]
  rw [replaceAll, pieces_cons_of_none hnone, splice_plain]
  rfl

end Replacement

end Text

end LineTemplate
