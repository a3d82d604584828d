import LineTemplate.Json
import LineTemplate.Proofs.JsonValues

/-!
# The text of a value spells it

`Json.pretty` writes each value in one of the ways in which it can be spelled, whatever characters
its strings have; so a reader finds the value again.

## The architecture

* **`Json.value`** — a value to be written, as a reader gives it.
* **`spelledChar_escape`** — inside quotes each character spells itself.
* **`Lexes.blanks`**, **`Lexes.mark`**, **`Lexes.decimal`**, **`Lexes.quoted`** — one piece of the
  text in front of a rest. Digits need a rest that stops them (`Stops`), and all that `pretty` puts
  behind a number does.
* **`lexes_prettyAt`** — a value in front of a rest, by induction on the value.
* **`read?_pretty_append`** — the headline.
-/

namespace LineTemplate

namespace Json

/-! ## Values, written and read -/

mutual

/-- **A value as a reader gives it.** -/
def value : Json → Value
  | .number n => .scalar (.number n)
  | .string text => .scalar (.string text)
  | .array items => .array (itemValues items)
  | .object members => .object (memberValues members)

def itemValues : List Json → List Value
  | [] => []
  | item :: rest => item.value :: itemValues rest

def memberValues : List (Text × Json) → List (Text × Value)
  | [] => []
  | (key, json) :: rest => (key, json.value) :: memberValues rest

end

theorem itemValues_eq_map (items : List Json) : itemValues items = items.map value := by
  induction items with
  | nil => rfl
  | cons item rest ih => rw [itemValues, ih, List.map_cons]

/-! ## Inside quotes -/

theorem unit?_hexByte : ∀ n < 0x20, unit? ('0' :: '0' :: hexByte n) = some n := by decide

/-- **Inside quotes each character spells itself.** -/
theorem spelledChar_escape (c : Char) (rest : Text) : SpelledChar c (escape c) rest := by
  unfold escape
  split_ifs with hquote hslash hb ht hn hf hr hcontrol
  -- the characters with a letter are seven fixed ones
  any_goals
    subst_vars
    exact .short rfl
  · have hunit : SpelledChar (Char.ofNat c.toNat)
        (['\\', 'u', '0', '0'] ++ hexByte c.toNat) rest :=
      .unit (unit?_hexByte _ hcontrol) c.valid
    rwa [Char.ofNat_toNat] at hunit
  · exact .plain (Nat.le_of_not_lt hcontrol) hquote hslash

theorem sequence_escape (text : Text) :
    Text.Sequence SpelledChar (text.flatMap escape) text := by
  induction text with
  | nil => exact .nil
  | cons c rest ih => exact .cons (spelledChar_escape c _) ih

/-! ## Pieces of a text in front of a rest -/

theorem stops_cons_iff {c : Char} {rest : Text} : Stops (c :: rest) ↔ isNumeral c = false := by
  simp [Stops]

theorem stops_of_blanks {behind : Text} (h : ∀ c ∈ behind, c ∈ blanks) : Stops behind := by
  intro c hc
  by_contra hnumeral
  have hblank := h c (List.mem_of_mem_head? hc)
  exact (not_mem_blanks_of_isNumeral (by simpa using hnumeral)).1 hblank

section Lexes

variable {rest : Text} {tokens : List Token}

theorem lexes_nil : Lexes [] [] := ⟨[], .nil, rfl⟩

theorem Lexes.blanks {front : Text} (h : ∀ c ∈ front, c ∈ blanks) (hrest : Lexes rest tokens) :
    Lexes (front ++ rest) tokens := by
  induction front with
  | nil => exact hrest
  | cons c behind ih =>
    obtain ⟨lexemes, hsequence, htokens⟩ := ih fun d hd => h d (List.mem_cons_of_mem c hd)
    have hfront : Text.Sequence SpelledLexeme ([c] ++ (behind ++ rest)) (none :: lexemes) :=
      .cons (.blank (h c List.mem_cons_self)) hsequence
    exact ⟨_, hfront, by simpa using htokens⟩

theorem Lexes.token {token : Token} {spelling : Text}
    (h : SpelledLexeme (some token) spelling rest) (hrest : Lexes rest tokens) :
    Lexes (spelling ++ rest) (token :: tokens) := by
  obtain ⟨lexemes, hsequence, rfl⟩ := hrest
  exact ⟨some token :: lexemes, .cons h hsequence, by simp⟩

theorem Lexes.mark (m : Mark) (hrest : Lexes rest tokens) :
    Lexes (m.char :: rest) (.mark m :: tokens) :=
  hrest.token .mark

theorem Lexes.decimal (n : Nat) (hrest : Lexes rest tokens) (hstops : Stops rest) :
    Lexes (Text.decimal n ++ rest) (.scalar (.number n) :: tokens) := by
  refine hrest.token (.number (number?_decimal n) (fun c hc => ?_) hstops)
  simp [isNumeral, isDigit_of_mem_decimal hc]

theorem Lexes.quoted (text : Text) (hrest : Lexes rest tokens) :
    Lexes (quoted text ++ rest) (.scalar (.string text) :: tokens) :=
  hrest.token (.string (sequence_escape text))

theorem mem_blanks_of_mem_lineBreak {level : Nat} {c : Char} (h : c ∈ lineBreak level) :
    c ∈ Json.blanks := by
  rcases List.mem_cons.1 h with rfl | hmem
  · decide
  · rw [(List.mem_replicate.1 hmem).2]
    decide

theorem Lexes.lineBreak (level : Nat) (hrest : Lexes rest tokens) :
    Lexes (lineBreak level ++ rest) tokens :=
  hrest.blanks fun _ => mem_blanks_of_mem_lineBreak

/-- The key of a member in front of its value. -/
theorem Lexes.member (level : Nat) (key : Text) (hvalue : Lexes rest tokens) :
    Lexes (Json.lineBreak level ++ (Json.quoted key ++ (':' :: ' ' :: rest)))
      (.scalar (.string key) :: .mark .colon :: tokens) := by
  have hspace : ∀ c ∈ [' '], c ∈ Json.blanks := List.forall_mem_singleton.2 (by decide)
  have hblank := Lexes.blanks hspace hvalue
  exact ((hblank.mark .colon).quoted key).lineBreak level

end Lexes

/-! ## Values in front of a rest -/

theorem stops_lineBreak (level : Nat) (rest : Text) : Stops (lineBreak level ++ rest) :=
  stops_cons_iff.2 (by decide)

mutual

/-- **A value in front of a rest.** -/
theorem lexes_prettyAt (level : Nat) {rest : Text} {tokens : List Token} :
    (json : Json) → Lexes rest tokens → Stops rest →
      Lexes (json.prettyAt level ++ rest) (json.value.tokens ++ tokens)
  | .number n, hrest, hstops => hrest.decimal n hstops
  | .string text, hrest, _ => hrest.quoted text
  | .array items, hrest, _ => by
    have hclose := (hrest.mark .closeArray).lineBreak level
    have hitems := lexes_prettyItems (level + 1) items hclose (stops_lineBreak level _)
    cases items with
    | nil => exact (hrest.mark .closeArray).mark .openArray
    | cons item others =>
      have hwhole := hitems.mark .openArray
      simpa [prettyAt, value, Value.tokens, Mark.char] using hwhole
  | .object members, hrest, _ => by
    have hclose := (hrest.mark .closeObject).lineBreak level
    have hmembers := lexes_prettyMembers (level + 1) members hclose (stops_lineBreak level _)
    cases members with
    | nil => exact (hrest.mark .closeObject).mark .openObject
    | cons member others =>
      have hwhole := hmembers.mark .openObject
      simpa [prettyAt, value, Value.tokens, Mark.char] using hwhole

theorem lexes_prettyItems (level : Nat) {rest : Text} {tokens : List Token} :
    (items : List Json) → Lexes rest tokens → Stops rest →
      Lexes (prettyItems level items ++ rest) (itemTokens (itemValues items) ++ tokens)
  | [], hrest, _ => hrest
  | [item], hrest, hstops => by
    have hitem := (lexes_prettyAt level item hrest hstops).lineBreak level
    simpa [prettyItems, itemValues, itemTokens] using hitem
  | item :: next :: others, hrest, hstops => by
    have hothers := (lexes_prettyItems level (next :: others) hrest hstops).mark .comma
    have hitem := (lexes_prettyAt level item hothers (stops_cons_iff.2 (by decide))).lineBreak level
    rw [prettyItems, itemValues, itemTokens]
    simpa [Mark.char, itemValues] using hitem

theorem lexes_prettyMembers (level : Nat) {rest : Text} {tokens : List Token} :
    (members : List (Text × Json)) → Lexes rest tokens → Stops rest →
      Lexes (prettyMembers level members ++ rest)
        (memberTokens (memberValues members) ++ tokens)
  | [], hrest, _ => hrest
  | [(key, json)], hrest, hstops => by
    have hmember := (lexes_prettyAt level json hrest hstops).member level key
    simpa [prettyMembers, memberValues, memberTokens] using hmember
  | (key, json) :: next :: others, hrest, hstops => by
    have hothers := (lexes_prettyMembers level (next :: others) hrest hstops).mark .comma
    have hvalue := lexes_prettyAt level json hothers (stops_cons_iff.2 (by decide))
    have hmember := hvalue.member level key
    rw [prettyMembers, memberValues, memberTokens]
    simpa [Mark.char, memberValues] using hmember

end

theorem exists_pretty_array (items : List Json) :
    ∃ inner, (array items).pretty = '[' :: inner ++ [']'] := by
  cases items with
  | nil => exact ⟨[], rfl⟩
  | cons item rest =>
    refine ⟨prettyItems 1 (item :: rest) ++ lineBreak 0, ?_⟩
    rw [List.cons_append, List.append_assoc]
    rfl

/-! ## The headline -/

theorem spelledBy_pretty_append (json : Json) {behind : Text} (h : ∀ c ∈ behind, c ∈ blanks) :
    json.value.SpelledBy (json.pretty ++ behind) := by
  have hbehind : Lexes behind [] := by
    simpa using lexes_nil.blanks h
  simpa [Value.SpelledBy, pretty] using lexes_prettyAt 0 json hbehind (stops_of_blanks h)

/-- **What is written is read**, with any blanks behind it. -/
theorem read?_pretty_append (json : Json) {behind : Text} (h : ∀ c ∈ behind, c ∈ blanks) :
    read? (json.pretty ++ behind) = some json.value :=
  read?_eq_some_iff.2 (spelledBy_pretty_append json h)

end Json

end LineTemplate
