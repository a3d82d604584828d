import LineTemplate.Text

/-!
# JSON values and their text

`Json` has the values that listings need: numbers, strings, arrays and objects. `Json.pretty`
writes a value over several lines, each level of nesting two spaces further to the right; an
empty array or object is written without a line break. A string is quoted by `Json.quoted`, one
character at a time.
-/

namespace LineTemplate

/-- **A JSON value.** The members of an object keep their order. -/
inductive Json where
  | number (n : Nat)
  | string (text : Text)
  | array (items : List Json)
  | object (members : List (Text × Json))

namespace Json

/-- The two hexadecimal digits of a number below 256, in lower case. -/
def hexByte (n : Nat) : Text := [Nat.digitChar (n / 16), Nat.digitChar (n % 16)]

/-- **A character inside quotes.** The quote, the backslash and the control characters below
U+0020 are escaped, by a letter if there is one; every other character stands for itself. -/
def escape (c : Char) : Text :=
  if c = '"' then ['\\', '"']
  else if c = '\\' then ['\\', '\\']
  else if c = '\x08' then ['\\', 'b']
  else if c = '\t' then ['\\', 't']
  else if c = '\n' then ['\\', 'n']
  else if c = '\x0c' then ['\\', 'f']
  else if c = '\r' then ['\\', 'r']
  else if c.toNat < 0x20 then ['\\', 'u', '0', '0'] ++ hexByte c.toNat
  else [c]

def quoted (text : Text) : Text := '"' :: (text.flatMap escape ++ ['"'])

/-- A line break, and the indentation of a nesting level behind it. -/
def lineBreak (level : Nat) : Text := '\n' :: List.replicate (2 * level) ' '

mutual

/-- **The text of a value** that stands at a nesting level. -/
def prettyAt (level : Nat) : Json → Text
  | .number n => Text.decimal n
  | .string text => quoted text
  | .array items =>
    if items.isEmpty then ['[', ']']
    else '[' :: (prettyItems (level + 1) items ++ (lineBreak level ++ [']']))
  | .object members =>
    if members.isEmpty then ['\x7b', '\x7d']
    else '\x7b' :: (prettyMembers (level + 1) members ++ (lineBreak level ++ ['\x7d']))

def prettyItems (level : Nat) : List Json → Text
  | [] => []
  | item :: rest =>
    lineBreak level ++ (prettyAt level item ++
      ((if rest.isEmpty then [] else [',']) ++ prettyItems level rest))

def prettyMembers (level : Nat) : List (Text × Json) → Text
  | [] => []
  | (key, value) :: rest =>
    lineBreak level ++ (quoted key ++ ([':', ' '] ++ (prettyAt level value ++
      ((if rest.isEmpty then [] else [',']) ++ prettyMembers level rest))))

end

def pretty (json : Json) : Text := json.prettyAt 0

end Json

end LineTemplate
