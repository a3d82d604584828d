import LineTemplate.Text

/-!
# White space

`Text.isBlank` is membership in the Unicode property White_Space: ten ranges, twenty-five
characters. `Text.trim` cuts the blanks off both ends of a text, and `Text.unquote` takes one
character more from each end of what is left.

A text is `Text.Trimmed` if trimming leaves it as it is (`trimmed_trim`, `trim_eq_self`).
-/

namespace LineTemplate

namespace Text

/-- The ranges of the Unicode property White_Space, both ends included. -/
def blankRanges : List (Nat × Nat) :=
  [(0x09, 0x0D), (0x20, 0x20), (0x85, 0x85), (0xA0, 0xA0), (0x1680, 0x1680),
   (0x2000, 0x200A), (0x2028, 0x2029), (0x202F, 0x202F), (0x205F, 0x205F), (0x3000, 0x3000)]

def isBlank (c : Char) : Bool :=
  blankRanges.any fun (first, last) => first ≤ c.toNat && c.toNat ≤ last

def trimStart (text : Text) : Text := text.dropWhile isBlank

def trimEnd (text : Text) : Text := (text.reverse.dropWhile isBlank).reverse

def trim (text : Text) : Text := trimEnd (trimStart text)

/-- **Unquoting** trims, then drops the first and the last character, whatever they are. A
text of fewer than two characters has nothing in between. -/
def unquote (text : Text) : Text := (trim text).tail.dropLast

/-! ## What trimming leaves -/

/-- **A trimmed text** starts and ends with no blank. -/
structure Trimmed (text : Text) : Prop where
  head : ∀ c, text.head? = some c → isBlank c = false
  last : ∀ c, text.getLast? = some c → isBlank c = false

theorem isBlank_of_head?_trimStart {text : Text} {c : Char}
    (h : (trimStart text).head? = some c) : isBlank c = false := by
  have hnot := List.head?_dropWhile_not isBlank text
  rw [trimStart] at h
  rw [h] at hnot
  exact hnot

theorem trimEnd_isPrefix (text : Text) : trimEnd text <+: text := by
  rw [← List.reverse_suffix, trimEnd, List.reverse_reverse]
  exact List.dropWhile_suffix isBlank

theorem trimmed_trim (text : Text) : (trim text).Trimmed where
  head c h := by
    obtain ⟨rest, hrest⟩ := trimEnd_isPrefix (trimStart text)
    have hstart : (trimStart text).head? = some c := by
      rw [trim] at h
      rw [← hrest, List.head?_append, h]
      rfl
    exact isBlank_of_head?_trimStart hstart
  last c h := by
    -- the end is trimmed as the start of the reversed text
    rw [trim, trimEnd, List.getLast?_reverse] at h
    exact isBlank_of_head?_trimStart h

theorem trimStart_eq_self {text : Text} (h : ∀ c, text.head? = some c → isBlank c = false) :
    trimStart text = text := by
  cases text with
  | nil => rfl
  | cons c rest => exact List.dropWhile_cons_of_neg (by simp [h c rfl])

theorem trim_eq_self {text : Text} (h : text.Trimmed) : trim text = text := by
  have hend : trimEnd text = text := by
    have hreverse : trimStart text.reverse = text.reverse :=
      trimStart_eq_self fun c hc => h.last c (by rwa [List.head?_reverse] at hc)
    calc trimEnd text
        = (trimStart text.reverse).reverse := rfl
      _ = text := by rw [hreverse, List.reverse_reverse]
  rw [trim, trimStart_eq_self h.head, hend]

theorem trim_subset (text : Text) : trim text ⊆ text := fun _ hc =>
  (List.dropWhile_suffix isBlank).subset ((trimEnd_isPrefix (trimStart text)).subset hc)

theorem unquote_subset (text : Text) : unquote text ⊆ text := fun _ hc =>
  trim_subset text (List.mem_of_mem_tail (List.dropLast_subset _ hc))

/-- What stands in quotation marks is what unquoting leaves. -/
theorem unquote_quoted (value : Text) : unquote ('"' :: (value ++ ['"'])) = value := by
  have htrimmed : Trimmed ('"' :: (value ++ ['"'])) := by
    refine ⟨fun c hc => ?_, fun c hc => ?_⟩
    · cases hc
      decide
    · rw [← List.cons_append, List.getLast?_append] at hc
      cases hc
      decide
  rw [unquote, trim_eq_self htrimmed, List.tail_cons, List.dropLast_concat]

end Text

end LineTemplate
