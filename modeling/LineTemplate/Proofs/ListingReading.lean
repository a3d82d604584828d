import LineTemplate.Proofs.JsonText
import LineTemplate.Proofs.ListingAgreement
import Mathlib.Data.List.Forall2

/-!
# A listing loses nothing

A listing in JSON is read by a program, with whatever reader of JSON it has. What that reader finds
is one array with an item for each entry, and an entry is known from its item.

## The architecture

* **`Entry.Told`** — what an item says of an entry: an object with four members, and a fifth one if
  the directive is malformed. No two entries are told by one item (`Told.unique`).
* **`told_json`** — the item that is written for an entry of a scan tells it.
* **`json_reads_back`** — the headline.
-/

namespace LineTemplate

namespace Listing

open Json (Value)

/-! ## One item -/

/-- **What an item says of an entry.** Only that of a malformed directive has an error, and it has
no arguments. -/
inductive Entry.Told : Entry → Value → Prop where
  | given {line indentation : Nat} {kind : Kind} {arguments : List Text} :
    Told ⟨line, kind, indentation, .ok arguments⟩ <| .object
      [("line".toList, .scalar (.number line)),
       ("kind".toList, .scalar (.string kind.name)),
       ("indentation".toList, .scalar (.number indentation)),
       ("arguments".toList, .array (arguments.map fun argument => .scalar (.string argument)))]
  | malformed {line indentation : Nat} {kind : Kind} :
    Told ⟨line, kind, indentation, .error ⟨line, .malformed kind⟩⟩ <| .object
      [("line".toList, .scalar (.number line)),
       ("kind".toList, .scalar (.string kind.name)),
       ("indentation".toList, .scalar (.number indentation)),
       ("arguments".toList, .array []),
       ("error".toList, .scalar (.string (LineError.mk line (.malformed kind)).message))]

theorem told_json {entry : Entry} {line : Line} (h : entry.Describes line) :
    entry.Told entry.json.value := by
  obtain ⟨n, kind, indentation, arguments⟩ := entry
  rcases h.read with ⟨directive, -, hread, -⟩ | ⟨-, hread, -⟩
  · obtain rfl : arguments = .ok directive.arguments := hread
    have harguments : Json.itemValues (directive.arguments.map .string) =
        directive.arguments.map fun argument => Value.scalar (.string argument) := by
      rw [Json.itemValues_eq_map, List.map_map]
      rfl
    simpa [Entry.json, Entry.given, Entry.error?, Json.value, Json.memberValues, harguments] using
      Entry.Told.given
  · obtain rfl : arguments = .error ⟨n, .malformed kind⟩ := hread
    exact .malformed

/-- **No two entries are told by one item.** -/
theorem Entry.Told.unique {entry entry' : Entry} {item : Value} (h : entry.Told item)
    (h' : entry'.Told item) : entry = entry' := by
  have hstrings : Function.Injective fun argument => Value.scalar (.string argument) :=
    fun argument argument' heq => by simpa using heq
  generalize hitem : item = item' at h'
  cases h with
  | given =>
    cases h' with
    | given => simpa [Kind.name_inj, (List.map_injective_iff.2 hstrings).eq_iff] using hitem
    | malformed => simp at hitem
  | malformed =>
    cases h' with
    | given => simp at hitem
    | malformed =>
      obtain ⟨rfl, hname, rfl, -⟩ : _ ∧ _ ∧ _ ∧ _ := by simpa using hitem
      rw [Kind.name_inj.1 hname]

/-! ## All items -/

def items (lines : List Text) : List Value := (scan lines).map fun entry => entry.json.value

theorem value_array_json (lines : List Text) :
    (Json.array ((scan lines).map Entry.json)).value = .array (items lines) := by
  rw [Json.value, Json.itemValues_eq_map, List.map_map]
  rfl

theorem read?_write (lines : List Text) :
    Json.read? (write .json (scan lines)) = some (.array (items lines)) := by
  rw [← value_array_json]
  exact Json.read?_pretty_append _ (List.forall_mem_singleton.2 (by decide))

theorem forall₂_told_items (lines : List Text) :
    List.Forall₂ Entry.Told (scan lines) (items lines) := by
  rw [items, List.forall₂_map_right_iff, List.forall₂_same]
  intro entry hmem
  obtain ⟨text, -, hentry⟩ := describes_of_mem_scan hmem
  exact told_json hentry

/-- **A listing is known from its items.** -/
theorem scan_eq_of_items_eq {lines lines' : List Text} (h : items lines = items lines') :
    scan lines = scan lines' := by
  have hunique : Relator.LeftUnique Entry.Told := fun _ _ _ => Entry.Told.unique
  exact List.left_unique_forall₂' hunique (forall₂_told_items lines) (h ▸ forall₂_told_items lines')

/-! ## The headline -/

/-- **A listing in JSON is read back.** It is one array, and one line break behind it; a reader finds
an item for each entry, in order, that tells it, and so it finds an error exactly where the
directive of a line is malformed. Different scans have different listings. -/
theorem json_reads_back (lines : List Text) :
    ∃ text items, write .json (scan lines) = text ++ ['\n'] ∧
      (text.head? = some '[' ∧ text.getLast? = some ']') ∧
      (∀ value : Value, value.SpelledBy text ↔ value = .array items) ∧
      Json.read? (write .json (scan lines)) = some (.array items) ∧
      List.Forall₂ Entry.Told (scan lines) items ∧
      (∀ entry ∈ scan lines, ∃ body, lines[entry.line - 1]? = some body ∧
        entry.Describes (Line.ofText body)) ∧
      ∀ lines', write .json (scan lines') = write .json (scan lines) ↔
        scan lines' = scan lines := by
  obtain ⟨inner, hpretty⟩ := Json.exists_pretty_array ((scan lines).map Entry.json)
  have hspelled : (Value.array (items lines)).SpelledBy ('[' :: inner ++ [']']) := by
    rw [← hpretty, ← value_array_json, ← List.append_nil (Json.pretty _)]
    exact Json.spelledBy_pretty_append _ nofun
  refine ⟨'[' :: inner ++ [']'], items lines, by rw [write, hpretty],
    ⟨rfl, List.getLast?_concat⟩, fun value => ⟨fun h => h.unique hspelled, ?_⟩, read?_write lines,
    forall₂_told_items lines, fun entry => describes_of_mem_scan, fun lines' => ⟨fun heq => ?_, ?_⟩⟩
  · rintro rfl
    exact hspelled
  · have hitems : some (Value.array (items lines')) = some (.array (items lines)) := by
      rw [← read?_write, ← read?_write, heq]
    exact scan_eq_of_items_eq (Value.array.inj (Option.some.inj hitems))
  · exact congrArg (write .json)

/-- A file name with a quote, a backslash and a control character, and a malformed line. -/
def escapedLines : List Text :=
  ["#include(a\"b\\c\x01)".toList, "text".toList, "  #var a".toList]

def escapedEntry : Entry where
  line := 1
  kind := .inclusion
  indentation := 0
  arguments := .ok ["a\"b\\c\x01".toList]

def unopenedEntry : Entry where
  line := 3
  kind := .reference
  indentation := 2
  arguments := .error ⟨3, .malformed .reference⟩

theorem json_reads_back_escapedLines :
    ∃ item item', Json.read? (write .json (scan escapedLines)) = some (.array [item, item']) ∧
      escapedEntry.Told item ∧ unopenedEntry.Told item' ∧
      (escapedEntry ∈ scan escapedLines ∧ ∃ body, escapedLines[0]? = some body ∧
        escapedEntry.Describes (Line.ofText body)) ∧
      write .json (scan ["text".toList]) ≠ write .json (scan escapedLines) := by
  have hscan : scan escapedLines = [escapedEntry, unopenedEntry] := by rfl
  obtain ⟨text, items, -, -, -, hread, htold, hdescribes, hinjective⟩ :=
    json_reads_back escapedLines
  rw [hscan] at htold
  obtain ⟨item, others, hfirst, hothers, rfl⟩ := List.forall₂_cons_left_iff.1 htold
  obtain ⟨item', others, hsecond, hnil, rfl⟩ := List.forall₂_cons_left_iff.1 hothers
  obtain rfl := List.forall₂_nil_left_iff.1 hnil
  have hmem : escapedEntry ∈ scan escapedLines := by
    rw [hscan]
    exact List.mem_cons_self
  refine ⟨item, item', hread, hfirst, hsecond, ⟨hmem, hdescribes _ hmem⟩, fun heq => ?_⟩
  have hnone : scan ["text".toList] = [] := by rfl
  rw [hinjective, hscan, hnone] at heq
  cases heq

end Listing

end LineTemplate
