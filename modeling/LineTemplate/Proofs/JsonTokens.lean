import LineTemplate.Text.Search
import Mathlib.Data.List.ReduceOption
import Mathlib.Data.List.TakeWhile
import Mathlib.Tactic.IntervalCases

/-!
# Tokens of a JSON text

A JSON text is a row of tokens, with blanks between them at will: six marks, the words `true`,
`false` and `null`, numbers and strings. Each token can be spelled in more than one way, since
strings have escapes and numbers have exponents; `Json.Lexes` says what a text spells, one token
after the other, and `Json.tokens?` reads it.

## The architecture

* **`Text.Sequence`** — spellings of elements, one right behind the other, and **`Text.sequence?`**,
  which reads them in a walk from the left. It reads exactly what is spelled if its recogniser does
  so at each place (`sequence?_eq_some_iff`).
* **`SpelledChar`** — a character inside a string, as it is or escaped, and **`char?`**.
* **`number?`** — the value of a numeral.
* **`SpelledLexeme`** — a token or a blank, and **`lexeme?`**. A numeral goes on as far as it can.
* **`tokens?_eq_some_iff`** — the tokens that are read are those that are spelled.
-/

namespace LineTemplate

namespace Text

/-! ## Texts without gaps -/

/-- **A text without gaps:** spellings of elements, one right behind the other. Whether a text
spells an element may depend on what follows it. -/
inductive Sequence {α : Type} (Spelled : α → Text → Text → Prop) : Text → List α → Prop where
  | nil : Sequence Spelled [] []
  | cons {a : α} {spelling rest : Text} {as : List α} (hhere : Spelled a spelling rest)
      (hrest : Sequence Spelled rest as) : Sequence Spelled (spelling ++ rest) (a :: as)

/-- The occurrences among pieces, if there is nothing between them. -/
def ungapped? {α : Type} : List (Piece α) → Option (List α)
  | [] => some []
  | .plain _ :: _ => none
  | .hit a :: rest => (ungapped? rest).map (a :: ·)

/-- **Reads a text without gaps.** -/
def sequence? {α : Type} (recognise : Text → Option (α × Nat)) (text : Text) : Option (List α) :=
  ungapped? (pieces recognise 0 text)

/-- **A recogniser reads** what is spelled at the start of a text, and nothing else. -/
structure Reads {α : Type} (recognise : Text → Option (α × Nat))
    (Spelled : α → Text → Text → Prop) : Prop where
  ne_nil : ∀ {a spelling rest}, Spelled a spelling rest → spelling ≠ []
  complete : ∀ {a spelling rest}, Spelled a spelling rest →
    recognise (spelling ++ rest) = some (a, spelling.length)
  sound : ∀ {text a width}, recognise text = some (a, width) →
    ∃ spelling rest, text = spelling ++ rest ∧ Spelled a spelling rest

section Reads

variable {α : Type} {recognise : Text → Option (α × Nat)} {Spelled : α → Text → Text → Prop}

theorem Reads.sequence?_append (hreads : Reads recognise Spelled) {a : α} {spelling rest : Text}
    (h : Spelled a spelling rest) :
    sequence? recognise (spelling ++ rest) = (sequence? recognise rest).map (a :: ·) := by
  have hne := hreads.ne_nil h
  rw [sequence?, pieces_of_some (by simp [hne]) (List.length_pos_iff.2 hne) (hreads.complete h),
    List.drop_left]
  rfl

/-- **A text without gaps is read as it is spelled**, and no other text is read. -/
theorem Reads.sequence?_eq_some_iff (hreads : Reads recognise Spelled) {text : Text}
    {as : List α} : sequence? recognise text = some as ↔ Sequence Spelled text as := by
  constructor
  · intro h
    -- an occurrence shortens the text by its width, so the induction is on the length
    induction hn : text.length using Nat.strongRecOn generalizing text as with
    | ind n ih =>
      cases text with
      | nil =>
        cases h
        exact .nil
      | cons c rest =>
        cases hread : recognise (c :: rest) with
        | none =>
          rw [sequence?, pieces_cons_of_none hread] at h
          cases h
        | some found =>
          obtain ⟨a, width⟩ := found
          obtain ⟨spelling, behind, htext, hhere⟩ := hreads.sound hread
          rw [htext, hreads.sequence?_append hhere] at h
          obtain ⟨others, hothers, rfl⟩ := Option.map_eq_some_iff.1 h
          have hlen : behind.length < n := by
            have hpos := List.length_pos_iff.2 (hreads.ne_nil hhere)
            rw [← hn, htext, List.length_append]
            omega
          rw [htext]
          exact .cons hhere (ih _ hlen hothers rfl)
  · intro h
    induction h with
    | nil => rfl
    | cons hhere _ ih =>
      rw [hreads.sequence?_append hhere, ih]
      rfl

end Reads

end Text

namespace Json

/-! ## Characters inside a string -/

/-- What a letter behind a backslash stands for. -/
def shortEscapes : List (Char × Char) :=
  [('"', '"'), ('\\', '\\'), ('/', '/'), ('b', '\x08'), ('f', '\x0c'), ('n', '\n'), ('r', '\r'),
    ('t', '\t')]

def hexDigit? (c : Char) : Option Nat :=
  if '0' ≤ c ∧ c ≤ '9' then some (c.toNat - '0'.toNat)
  else if 'a' ≤ c ∧ c ≤ 'f' then some (c.toNat - 'a'.toNat + 10)
  else if 'A' ≤ c ∧ c ≤ 'F' then some (c.toNat - 'A'.toNat + 10)
  else none

/-- The value of four hexadecimal digits, in upper or lower case. -/
def unit? : Text → Option Nat
  | [a, b, c, d] => do
    some ((((← hexDigit? a) * 16 + (← hexDigit? b)) * 16 + (← hexDigit? c)) * 16 + (← hexDigit? d))
  | _ => none

/-- A character beyond U+FFFF is escaped as two code units, which no character has by itself. -/
def IsHigh (n : Nat) : Prop := 0xd800 ≤ n ∧ n < 0xdc00

def IsLow (n : Nat) : Prop := 0xdc00 ≤ n ∧ n < 0xe000

def charOfPair (high low : Nat) : Char :=
  Char.ofNat (0x10000 + (high - 0xd800) * 0x400 + (low - 0xdc00))

instance (n : Nat) : Decidable (IsHigh n) := inferInstanceAs (Decidable (0xd800 ≤ n ∧ n < 0xdc00))

instance (n : Nat) : Decidable (IsLow n) := inferInstanceAs (Decidable (0xdc00 ≤ n ∧ n < 0xe000))

/-- **A character inside a string** is spelled as it is, unless it is a quote, a backslash or a
control character; or by an escape, whatever character it is. -/
inductive SpelledChar : Char → Text → Text → Prop where
  | plain {c : Char} {rest : Text} (hcontrol : 0x20 ≤ c.toNat) (hquote : c ≠ '"')
      (hslash : c ≠ '\\') : SpelledChar c [c] rest
  | short {letter c : Char} {rest : Text} (h : shortEscapes.lookup letter = some c) :
      SpelledChar c ['\\', letter] rest
  | unit {digits rest : Text} {n : Nat} (h : unit? digits = some n) (hn : n.isValidChar) :
      SpelledChar (Char.ofNat n) ('\\' :: 'u' :: digits) rest
  | pair {digits digits' rest : Text} {high low : Nat} (h : unit? digits = some high)
      (h' : unit? digits' = some low) (hhigh : IsHigh high) (hlow : IsLow low) :
      SpelledChar (charOfPair high low) ('\\' :: 'u' :: (digits ++ '\\' :: 'u' :: digits')) rest

/-- Reads the code units behind `\u`; the width is that of the whole escape. -/
def units? (text : Text) : Option (Char × Nat) :=
  (unit? (text.take 4)).bind fun n =>
    if n.isValidChar then some (Char.ofNat n, 6)
    else
      match text.drop 4 with
      | '\\' :: 'u' :: rest =>
        (unit? (rest.take 4)).bind fun low =>
          if IsHigh n ∧ IsLow low then some (charOfPair n low, 12) else none
      | _ => none

/-- **Reads a character** of a string. -/
def char? : Text → Option (Char × Nat)
  | [] => none
  | c :: rest =>
    if c = '\\' then
      match rest with
      | [] => none
      | letter :: behind =>
        if letter = 'u' then units? behind else (shortEscapes.lookup letter).map (·, 2)
    else if c = '"' ∨ c.toNat < 0x20 then none
    else some (c, 1)

theorem hexDigit?_ne_none {c : Char} (h : hexDigit? c ≠ none) : c ≠ '"' ∧ c ≠ '\\' := by
  constructor <;> rintro rfl <;> exact h (by decide)

/-- Four digits, and none of them is a quote or a backslash. -/
theorem length_of_unit? {digits : Text} {n : Nat} (h : unit? digits = some n) :
    digits.length = 4 ∧ ∀ c ∈ digits, c ≠ '"' ∧ c ≠ '\\' := by
  unfold unit? at h
  split at h
  case h_1 a b c d =>
    obtain ⟨i, hi, h⟩ := Option.bind_eq_some_iff.1 h
    obtain ⟨j, hj, h⟩ := Option.bind_eq_some_iff.1 h
    obtain ⟨k, hk, h⟩ := Option.bind_eq_some_iff.1 h
    obtain ⟨l, hl, -⟩ := Option.bind_eq_some_iff.1 h
    refine ⟨rfl, fun x hx => hexDigit?_ne_none ?_⟩
    simp only [List.mem_cons, List.not_mem_nil, or_false] at hx
    rcases hx with rfl | rfl | rfl | rfl <;> simp [hi, hj, hk, hl]
  case h_2 => cases h

theorem take_of_unit? {digits : Text} {n : Nat} (h : unit? digits = some n) (rest : Text) :
    (digits ++ rest).take 4 = digits := by
  rw [← (length_of_unit? h).1, List.take_left]

theorem drop_of_unit? {digits : Text} {n : Nat} (h : unit? digits = some n) (rest : Text) :
    (digits ++ rest).drop 4 = rest := by
  rw [← (length_of_unit? h).1, List.drop_left]

theorem units?_of_unit? {digits : Text} {n : Nat} (h : unit? digits = some n)
    (hn : n.isValidChar) (rest : Text) : units? (digits ++ rest) = some (Char.ofNat n, 6) := by
  rw [units?, take_of_unit? h, h, Option.bind_some, if_pos hn]

theorem units?_of_pair {digits digits' : Text} {high low : Nat} (h : unit? digits = some high)
    (h' : unit? digits' = some low) (hhigh : IsHigh high) (hlow : IsLow low) (rest : Text) :
    units? (digits ++ '\\' :: 'u' :: (digits' ++ rest)) = some (charOfPair high low, 12) := by
  have hsurrogate : ¬ high.isValidChar := by
    rintro (hbelow | ⟨habove, -⟩)
    · exact absurd hhigh.1 (by omega)
    · exact absurd hhigh.2 (by omega)
  rw [units?, take_of_unit? h, drop_of_unit? h, h, Option.bind_some, if_neg hsurrogate]
  simp only [take_of_unit? h', h', Option.bind_some, if_pos (And.intro hhigh hlow)]

theorem spelledChar_of_units? {text : Text} {c : Char} {width : Nat}
    (h : units? text = some (c, width)) :
    ∃ spelling rest, '\\' :: 'u' :: text = spelling ++ rest ∧ SpelledChar c spelling rest := by
  obtain ⟨n, hn, h⟩ := Option.bind_eq_some_iff.1 h
  split at h
  case isTrue hvalid =>
    cases h
    exact ⟨_, text.drop 4, by simp, .unit hn hvalid⟩
  case isFalse =>
    split at h
    case h_2 => cases h
    case h_1 rest hdrop =>
      obtain ⟨low, hlow, h⟩ := Option.bind_eq_some_iff.1 h
      split at h
      case isFalse => cases h
      case isTrue hpair =>
        obtain ⟨rfl, -⟩ := Prod.mk.inj (Option.some.inj h)
        refine ⟨_, rest.drop 4, ?_, .pair hn hlow hpair.1 hpair.2⟩
        have htext : text = text.take 4 ++ '\\' :: 'u' :: (rest.take 4 ++ rest.drop 4) := by
          rw [List.take_append_drop, ← hdrop, List.take_append_drop]
        simpa using htext

theorem reads_char? : Text.Reads char? SpelledChar where
  ne_nil h := by cases h <;> exact List.cons_ne_nil _ _
  complete {c spelling rest} h := by
    cases h with
    | plain hcontrol hquote hslash =>
      simp [char?, hslash, hquote, Nat.not_lt.2 hcontrol]
    | @short letter _ _ hletter =>
      have hu : letter ≠ 'u' := by
        rintro rfl
        cases hletter
      simp [char?, hu, hletter]
    | @unit digits _ n hunit hn =>
      simp [char?, units?_of_unit? hunit hn, (length_of_unit? hunit).1]
    | @pair digits digits' _ high low hunit hunit' hhigh hlow =>
      simp [char?, units?_of_pair hunit hunit' hhigh hlow, (length_of_unit? hunit).1,
        (length_of_unit? hunit').1]
  sound {text c width} h := by
    unfold char? at h
    split at h
    case h_1 => cases h
    case h_2 first rest =>
      split at h
      case isTrue hslash =>
        subst hslash
        split at h
        case h_1 => cases h
        case h_2 letter behind =>
          split at h
          case isTrue hu =>
            subst hu
            exact spelledChar_of_units? h
          case isFalse =>
            obtain ⟨e, he, heq⟩ := Option.map_eq_some_iff.1 h
            cases heq
            exact ⟨['\\', letter], behind, rfl, .short he⟩
      case isFalse hslash =>
        split at h
        case isTrue => cases h
        case isFalse hplain =>
          cases h
          simp only [not_or, Nat.not_lt] at hplain
          exact ⟨[c], rest, rfl, .plain hplain.2 hplain.1 hslash⟩

/-! ## Strings -/

/-- What stands in front of the first quote that is not escaped. -/
def body? : Text → Option Text
  | [] => none
  | '"' :: _ => some []
  | '\\' :: c :: rest => (body? rest).map ('\\' :: c :: ·)
  | c :: rest => (body? rest).map (c :: ·)

theorem body?_cons {c : Char} (hquote : c ≠ '"') (hslash : c ≠ '\\') (rest : Text) :
    body? (c :: rest) = (body? rest).map (c :: ·) := by
  rw [body?]
  · intro heq; exact absurd heq hquote
  · intro d behind heq; exact absurd heq hslash

theorem eq_of_body? {text body : Text} (h : body? text = some body) :
    ∃ rest, text = body ++ '"' :: rest := by
  induction text using body?.induct generalizing body with
  | case1 => cases h
  | case2 rest =>
    cases h
    exact ⟨rest, rfl⟩
  | case3 c rest ih =>
    obtain ⟨front, hfront, rfl⟩ := Option.map_eq_some_iff.1 h
    obtain ⟨behind, rfl⟩ := ih hfront
    exact ⟨behind, rfl⟩
  | case4 c rest hquote hslash ih =>
    rw [body?] at h
    · obtain ⟨front, hfront, rfl⟩ := Option.map_eq_some_iff.1 h
      obtain ⟨behind, rfl⟩ := ih hfront
      exact ⟨behind, rfl⟩
    · exact hquote
    · exact hslash

/-- A plain front is passed. -/
theorem body?_append {front : Text} (h : ∀ c ∈ front, c ≠ '"' ∧ c ≠ '\\') (text : Text) :
    body? (front ++ text) = (body? text).map (front ++ ·) := by
  induction front with
  | nil => simp
  | cons c rest ih =>
    obtain ⟨hquote, hslash⟩ := h c List.mem_cons_self
    rw [List.cons_append, body?_cons hquote hslash, ih fun d hd => h d (List.mem_cons_of_mem c hd),
      Option.map_map]
    rfl

theorem body?_unit {digits : Text} {n : Nat} (h : unit? digits = some n) (text : Text) :
    body? ('\\' :: 'u' :: (digits ++ text)) = (body? text).map ('\\' :: 'u' :: digits ++ ·) := by
  rw [body?, body?_append (length_of_unit? h).2, Option.map_map]
  rfl

/-- No spelling of a character ends a string. -/
theorem SpelledChar.body?_append {c : Char} {spelling rest : Text}
    (h : SpelledChar c spelling rest) (text : Text) :
    body? (spelling ++ text) = (body? text).map (spelling ++ ·) := by
  cases h with
  | plain _ hquote hslash => exact body?_cons hquote hslash text
  | short => rfl
  | unit hunit _ => exact body?_unit hunit text
  | @pair digits digits' _ _ _ hunit hunit' _ _ =>
    have happend : '\\' :: 'u' :: (digits ++ '\\' :: 'u' :: digits') ++ text =
        '\\' :: 'u' :: (digits ++ ('\\' :: 'u' :: (digits' ++ text))) := by simp
    rw [happend, body?_unit hunit, body?_unit hunit', Option.map_map]
    simp [Function.comp_def]

theorem body?_of_sequence {body text : Text} (h : Text.Sequence SpelledChar body text)
    (rest : Text) : body? (body ++ '"' :: rest) = some body := by
  induction h with
  | nil => rw [List.nil_append, body?]
  | cons hhere _ ih =>
    rw [List.append_assoc, hhere.body?_append, ih]
    rfl

/-! ## Numbers -/

def natural? (digits : Text) : Option Nat :=
  if digits ≠ [] ∧ digits.all Char.isDigit then some (Nat.ofDigitChars 10 digits 0) else none

/-- The exponent at the end of a numeral, zero if there is none. -/
def exponent? : Text → Option Int
  | [] => some 0
  | c :: rest =>
    if c = 'e' ∨ c = 'E' then
      match rest with
      | '-' :: digits => (natural? digits).map fun n => -(n : Int)
      | '+' :: digits => (natural? digits).map fun n => (n : Int)
      | digits => (natural? digits).map fun n => (n : Int)
    else none

/-- The digits of a fraction, none if there is no point; and what stands behind them. -/
def fraction? : Text → Option (Text × Text)
  | '.' :: rest =>
    if rest.takeWhile Char.isDigit = [] then none
    else some (rest.takeWhile Char.isDigit, rest.dropWhile Char.isDigit)
  | text => some ([], text)

/-- The value of a numeral without a sign. A zero stands in front of the point only alone. -/
def unsigned? (text : Text) : Option Rat := do
  let whole := text.takeWhile Char.isDigit
  if whole = [] ∨ (whole.head? = some '0' ∧ whole ≠ ['0']) then none
  else
    let (fraction, behind) ← fraction? (text.dropWhile Char.isDigit)
    let exponent ← exponent? behind
    some (Nat.ofDigitChars 10 (whole ++ fraction) 0 * 10 ^ (exponent - fraction.length))

/-- **The value of a numeral:** a minus if it is negative, digits, and a fraction and an exponent if
it has them. -/
def number? : Text → Option Rat
  | '-' :: rest => (unsigned? rest).map (-·)
  | text => unsigned? text

theorem number?_ne_nil {numeral : Text} {q : Rat} (h : number? numeral = some q) :
    numeral ≠ [] := by
  rintro rfl
  cases h

theorem head?_toDigits {n : Nat} (h : (Nat.toDigits 10 n).head? = some '0') : n = 0 := by
  induction n using Nat.strongRecOn with
  | ind n ih =>
    by_cases hlt : n < 10
    · rw [Nat.toDigits_of_lt_base hlt] at h
      interval_cases n <;> first | rfl | cases h
    · -- the last digit is not the first one
      rw [Nat.toDigits_of_base_le (by decide) (Nat.le_of_not_lt hlt),
        List.head?_append_of_ne_nil _ Nat.toDigits_ne_nil] at h
      have hzero := ih (n / 10) (by omega) h
      omega

theorem isDigit_of_mem_decimal {n : Nat} {c : Char} (h : c ∈ Text.decimal n) :
    c.isDigit = true :=
  Nat.isDigit_of_mem_toDigits (by decide) (by decide) h

/-- **A natural number is read** off its digits. -/
theorem number?_decimal (n : Nat) : number? (Text.decimal n) = some (n : Rat) := by
  have hdigits : ∀ c ∈ Text.decimal n, c.isDigit = true := fun c => isDigit_of_mem_decimal
  have hne : Text.decimal n ≠ [] := Nat.toDigits_ne_nil
  have htake : (Text.decimal n).takeWhile Char.isDigit = Text.decimal n :=
    List.takeWhile_eq_self_iff.2 hdigits
  have hdrop : (Text.decimal n).dropWhile Char.isDigit = [] :=
    List.dropWhile_eq_nil_iff.2 hdigits
  have hzero : ¬ ((Text.decimal n).head? = some '0' ∧ Text.decimal n ≠ ['0']) := by
    rintro ⟨hhead, hnot⟩
    obtain rfl := head?_toDigits hhead
    exact hnot rfl
  have hsign : number? (Text.decimal n) = unsigned? (Text.decimal n) := by
    rw [number?]
    intro rest heq
    have hminus := hdigits '-' (by rw [heq]; exact List.mem_cons_self)
    cases hminus
  have hvalue : Nat.ofDigitChars 10 (Text.decimal n) 0 = n := Nat.ofDigitChars_ten_toDigits
  rw [hsign, unsigned?]
  simp [htake, hdrop, hne, hzero, fraction?, exponent?, hvalue]

/-! ## Tokens and blanks -/

/-- **The marks** that structure a text. -/
inductive Mark where
  | openArray
  | closeArray
  | openObject
  | closeObject
  | colon
  | comma
deriving DecidableEq, Repr

/-- **The values without parts.** -/
inductive Scalar where
  | null
  | bool (b : Bool)
  | number (q : Rat)
  | string (text : Text)
deriving DecidableEq, Repr

/-- **A token.** -/
inductive Token where
  | mark (m : Mark)
  | scalar (s : Scalar)
deriving DecidableEq, Repr

def Mark.char : Mark → Char
  | .openArray => '['
  | .closeArray => ']'
  | .openObject => '\x7b'
  | .closeObject => '\x7d'
  | .colon => ':'
  | .comma => ','

def Mark.ofChar? (c : Char) : Option Mark :=
  [openArray, closeArray, openObject, closeObject, colon, comma].find? (·.char = c)

def blanks : List Char := [' ', '\t', '\n', '\r']

def words : List (Text × Scalar) :=
  [("true".toList, .bool true), ("false".toList, .bool false), ("null".toList, .null)]

/-- A character that a numeral can have in it. -/
def isNumeral (c : Char) : Bool := c.isDigit || ['+', '-', '.', 'e', 'E'].contains c

/-- **A rest that stops a numeral** in front of it. -/
def Stops (rest : Text) : Prop := ∀ c, rest.head? = some c → isNumeral c = false

/-- **A token or a blank**, which is none. A numeral takes in all that a numeral can have in it. -/
inductive SpelledLexeme : Option Token → Text → Text → Prop where
  | blank {c : Char} {rest : Text} (h : c ∈ blanks) : SpelledLexeme none [c] rest
  | mark {m : Mark} {rest : Text} : SpelledLexeme (some (.mark m)) [m.char] rest
  | word {word rest : Text} {s : Scalar} (h : (word, s) ∈ words) :
      SpelledLexeme (some (.scalar s)) word rest
  | number {numeral rest : Text} {q : Rat} (h : number? numeral = some q)
      (hchars : ∀ c ∈ numeral, isNumeral c = true) (hstops : Stops rest) :
      SpelledLexeme (some (.scalar (.number q))) numeral rest
  | string {body text rest : Text} (h : Text.Sequence SpelledChar body text) :
      SpelledLexeme (some (.scalar (.string text))) ('"' :: (body ++ ['"'])) rest

/-- Reads the rest of a string, behind its first quote; the width is that of the whole string. -/
def string? (text : Text) : Option (Option Token × Nat) := do
  let body ← body? text
  let read ← Text.sequence? char? body
  some (some (.scalar (.string read)), body.length + 2)

/-- **Reads a token or a blank.** -/
def lexeme? : Text → Option (Option Token × Nat)
  | [] => none
  | c :: rest =>
    if c ∈ blanks then some (none, 1)
    else if c = '"' then string? rest
    else if isNumeral c = true then
      let numeral := (c :: rest).takeWhile isNumeral
      (number? numeral).map fun q => (some (.scalar (.number q)), numeral.length)
    else
      match Mark.ofChar? c with
      | some m => some (some (.mark m), 1)
      | none =>
        (words.find? (·.1.isPrefixOf (c :: rest))).map fun (word, s) =>
          (some (.scalar s), word.length)

/-- **What a text spells**, one token after the other. -/
def Lexes (text : Text) (tokens : List Token) : Prop :=
  ∃ lexemes, Text.Sequence SpelledLexeme text lexemes ∧ lexemes.reduceOption = tokens

/-- **Reads the tokens** of a text. -/
def tokens? (text : Text) : Option (List Token) :=
  (Text.sequence? lexeme? text).map List.reduceOption

theorem not_mem_blanks_of_isNumeral {c : Char} (h : isNumeral c = true) : c ∉ blanks ∧ c ≠ '"' := by
  constructor
  · intro hmem
    simp only [blanks, List.mem_cons, List.not_mem_nil, or_false] at hmem
    rcases hmem with rfl | rfl | rfl | rfl <;> exact absurd h (by decide)
  · rintro rfl
    exact absurd h (by decide)

theorem Mark.eq_of_ofChar? {c : Char} {m : Mark} (h : ofChar? c = some m) : m.char = c := by
  simpa using List.find?_some h

theorem lexeme?_word {word : Text} {s : Scalar} (h : (word, s) ∈ words) (rest : Text) :
    lexeme? (word ++ rest) = some (some (.scalar s), word.length) := by
  simp only [words, List.mem_cons, List.not_mem_nil, or_false, Prod.mk.injEq] at h
  rcases h with ⟨rfl, rfl⟩ | ⟨rfl, rfl⟩ | ⟨rfl, rfl⟩ <;> rfl

theorem lexeme?_number {numeral : Text} {q : Rat} (h : number? numeral = some q)
    (hchars : ∀ c ∈ numeral, isNumeral c = true) {rest : Text} (hstops : Stops rest) :
    lexeme? (numeral ++ rest) = some (some (.scalar (.number q)), numeral.length) := by
  have htake : (numeral ++ rest).takeWhile isNumeral = numeral := by
    rw [List.takeWhile_append_of_pos hchars]
    cases rest with
    | nil => simp
    | cons c behind => simp [hstops c rfl]
  obtain ⟨c, tail, rfl⟩ := List.exists_cons_of_ne_nil (number?_ne_nil h)
  have hc := hchars c List.mem_cons_self
  obtain ⟨hblank, hquote⟩ := not_mem_blanks_of_isNumeral hc
  rw [List.cons_append] at htake ⊢
  simp only [lexeme?, if_neg hblank, if_neg hquote, if_pos hc, htake, h, Option.map_some]

theorem lexeme?_string {body text : Text} (h : Text.Sequence SpelledChar body text)
    (rest : Text) :
    lexeme? ('"' :: (body ++ '"' :: rest)) =
      some (some (.scalar (.string text)), body.length + 2) := by
  have hread := reads_char?.sequence?_eq_some_iff.2 h
  have hstring : string? (body ++ '"' :: rest) =
      some (some (.scalar (.string text)), body.length + 2) := by
    simp [string?, body?_of_sequence h, hread]
  exact hstring

theorem spelledLexeme_of_string? {text : Text} {lexeme : Option Token} {width : Nat}
    (h : string? text = some (lexeme, width)) :
    ∃ spelling rest, '"' :: text = spelling ++ rest ∧ SpelledLexeme lexeme spelling rest := by
  obtain ⟨body, hbody, h⟩ := Option.bind_eq_some_iff.1 h
  obtain ⟨read, hread, h⟩ := Option.bind_eq_some_iff.1 h
  cases h
  obtain ⟨rest, rfl⟩ := eq_of_body? hbody
  refine ⟨'"' :: (body ++ ['"']), rest, by simp, .string ?_⟩
  exact reads_char?.sequence?_eq_some_iff.1 hread

theorem spelledLexeme_of_number? {text : Text} {q : Rat}
    (h : number? (text.takeWhile isNumeral) = some q) :
    ∃ spelling rest, text = spelling ++ rest ∧
      SpelledLexeme (some (.scalar (.number q))) spelling rest := by
  refine ⟨text.takeWhile isNumeral, text.dropWhile isNumeral, ?_, .number h ?_ ?_⟩
  · rw [List.takeWhile_append_dropWhile]
  · exact fun c hc => List.mem_takeWhile_imp hc
  · intro c hc
    have hnot := List.head?_dropWhile_not isNumeral text
    rw [hc] at hnot
    simpa using hnot

theorem spelledLexeme_of_words {text word : Text} {s : Scalar}
    (h : words.find? (·.1.isPrefixOf text) = some (word, s)) :
    ∃ spelling rest, text = spelling ++ rest ∧
      SpelledLexeme (some (.scalar s)) spelling rest := by
  have hstart : word.isPrefixOf text = true := by simpa using List.find?_some h
  obtain ⟨rest, hrest⟩ := List.isPrefixOf_iff_prefix.1 hstart
  exact ⟨word, rest, hrest.symm, .word (List.mem_of_find?_eq_some h)⟩

theorem reads_lexeme? : Text.Reads lexeme? SpelledLexeme where
  ne_nil h := by
    cases h with
    | blank | mark | string => exact List.cons_ne_nil _ _
    | number h => exact number?_ne_nil h
    | word h =>
      rintro rfl
      simp [words] at h
  complete {lexeme spelling rest} h := by
    cases h with
    | blank h => simp [lexeme?, h]
    | @mark m => cases m <;> rfl
    | word h => exact lexeme?_word h rest
    | number h hchars hstops => exact lexeme?_number h hchars hstops
    | string h => simpa using lexeme?_string h rest
  sound {text lexeme width} h := by
    unfold lexeme? at h
    split at h
    case h_1 => cases h
    case h_2 c rest =>
      split at h
      case isTrue hblank =>
        cases h
        exact ⟨[c], rest, rfl, .blank hblank⟩
      case isFalse =>
        split at h
        case isTrue hquote =>
          subst hquote
          exact spelledLexeme_of_string? h
        case isFalse =>
          split at h
          case isTrue =>
            obtain ⟨q, hq, h⟩ := Option.map_eq_some_iff.1 h
            cases h
            exact spelledLexeme_of_number? hq
          case isFalse =>
            split at h
            case h_1 m hm =>
              cases h
              rw [← Mark.eq_of_ofChar? hm]
              exact ⟨[m.char], rest, rfl, .mark⟩
            case h_2 =>
              obtain ⟨⟨word, s⟩, hfind, h⟩ := Option.map_eq_some_iff.1 h
              cases h
              exact spelledLexeme_of_words hfind

/-- **The tokens that are read** are those that are spelled. -/
theorem tokens?_eq_some_iff {text : Text} {tokens : List Token} :
    tokens? text = some tokens ↔ Lexes text tokens := by
  rw [tokens?, Option.map_eq_some_iff, Lexes]
  simp only [reads_lexeme?.sequence?_eq_some_iff]

end Json

end LineTemplate
