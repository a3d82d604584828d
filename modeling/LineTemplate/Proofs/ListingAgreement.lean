import LineTemplate.FileSystem.Build
import LineTemplate.Listing
import LineTemplate.Proofs.Activation

/-!
# Listing and expansion agree

A listing looks at each line by itself and goes on behind a malformed one; an expansion stops at the
first fault, whatever that is, and looks into other files. Both read the directive of a line in the
same way, so what the listing reports of a line is what the expansion finds if it comes to the line.

## The architecture

* **`Entry.Describes`** — what an entry says about a line; `entryOf?` makes entries that do
  (`describes_of_entryOf?`), one for each line with a kind (`entryOf?_eq_none_iff`).
* **`mem_scan_iff`**, **`pairwise_line_scan`** — the entries of a scan are those of the lines by their
  numbers, in increasing order.
* **`error?_eq_none_of_yields`** — a line that yields something has an entry without an error.
* **`expand_eq_error_of_malformed`** — a malformed line is reported once it is come to, and makes
  the expansion fail in any case.
* **`listing_agrees`** — the headline.
-/

namespace LineTemplate

open Relation (ReflTransGen)

namespace Listing

/-! ## One entry -/

/-- **What an entry says about a line:** its kind and indentation, and what its directive is given,
or that it is malformed. -/
structure Entry.Describes (entry : Entry) (line : Line) : Prop where
  kind_eq : line.kind? = some entry.kind
  indentation_eq : entry.indentation = line.indentation
  read : (∃ directive, line.directive = .ok directive ∧
      entry.arguments = .ok directive.arguments ∧ entry.error? = none) ∨
    (line.directive = .error entry.kind ∧ entry.arguments = .error ⟨entry.line, .malformed entry.kind⟩ ∧
      entry.error? = some (LineError.mk entry.line (.malformed entry.kind)).message)

theorem entryOf?_eq_none_iff {n : Nat} {text : Text} :
    entryOf? n text = none ↔ (Line.ofText text).kind? = none :=
  Option.map_eq_none_iff

theorem describes_of_entryOf? {n : Nat} {text : Text} {entry : Entry}
    (h : entryOf? n text = some entry) : entry.line = n ∧ entry.Describes (Line.ofText text) := by
  obtain ⟨kind, hkind, rfl⟩ := Option.map_eq_some_iff.1 h
  refine ⟨rfl, hkind, rfl, ?_⟩
  cases hd : (Line.ofText text).directive with
  | ok directive => exact Or.inl ⟨directive, rfl, rfl, rfl⟩
  | error bad =>
    -- the malformed directive is of the kind of the line
    obtain rfl : kind = bad := Option.some.inj (hkind.symm.trans (Line.kind?_of_malformed hd))
    exact Or.inr ⟨rfl, rfl, rfl⟩

/-! ## All entries -/

theorem mem_scan_iff {lines : List Text} {entry : Entry} :
    entry ∈ scan lines ↔ 0 < entry.line ∧
      ∃ text, lines[entry.line - 1]? = some text ∧ entryOf? entry.line text = some entry := by
  unfold scan
  rw [List.mem_filterMap]
  constructor
  · rintro ⟨⟨text, n⟩, hmem, hentry⟩
    obtain ⟨rfl, -⟩ := describes_of_entryOf? hentry
    obtain ⟨hpos, hget⟩ := List.mk_mem_zipIdx_iff_le_and_getElem?_sub.1 hmem
    exact ⟨hpos, text, hget, hentry⟩
  · rintro ⟨hpos, text, hget, hentry⟩
    exact ⟨(text, entry.line), List.mk_mem_zipIdx_iff_le_and_getElem?_sub.2 ⟨hpos, hget⟩, hentry⟩

theorem exists_entry_iff {lines : List Text} {n : Nat} :
    (∃ entry ∈ scan lines, entry.line = n) ↔
      0 < n ∧ ∃ text, lines[n - 1]? = some text ∧ (Line.ofText text).kind? ≠ none := by
  constructor
  · rintro ⟨entry, hmem, rfl⟩
    obtain ⟨hpos, text, hget, hentry⟩ := mem_scan_iff.1 hmem
    refine ⟨hpos, text, hget, fun hnone => ?_⟩
    rw [entryOf?_eq_none_iff.2 hnone] at hentry
    cases hentry
  · rintro ⟨hpos, text, hget, hkind⟩
    obtain ⟨entry, hentry⟩ : ∃ entry, entryOf? n text = some entry :=
      Option.ne_none_iff_exists'.1 (mt entryOf?_eq_none_iff.1 hkind)
    obtain ⟨rfl, -⟩ := describes_of_entryOf? hentry
    exact ⟨entry, mem_scan_iff.2 ⟨hpos, text, hget, hentry⟩, rfl⟩

theorem pairwise_line_scan (lines : List Text) :
    (scan lines).Pairwise fun earlier later => earlier.line < later.line := by
  have hnumbers : (lines.zipIdx 1).Pairwise fun earlier later => earlier.2 < later.2 := by
    rw [← List.pairwise_map, List.zipIdx_map_snd]
    exact List.pairwise_lt_range'
  refine hnumbers.filterMap _ fun earlier later hlt entry hentry entry' hentry' => ?_
  rw [(describes_of_entryOf? hentry).1, (describes_of_entryOf? hentry').1]
  exact hlt

theorem describes_of_mem_scan {lines : List Text} {entry : Entry} (h : entry ∈ scan lines) :
    ∃ text, lines[entry.line - 1]? = some text ∧ entry.Describes (Line.ofText text) := by
  obtain ⟨-, text, hget, hentry⟩ := mem_scan_iff.1 h
  exact ⟨text, hget, (describes_of_entryOf? hentry).2⟩

/-! ## Entries and the expansion -/

/-- A line that yields something is not listed with an error. -/
theorem error?_eq_none_of_yields {frame : Frame} {nested : Nested} {n : Nat} {own : Bindings}
    {text : Text} {first : Expanded} (h : frame.Yields nested n own text first) {entry : Entry}
    (hentry : entry.Describes (Line.ofText text)) : entry.error? = none := by
  rcases hentry.read with ⟨directive, -, -, hnone⟩ | ⟨hbad, -, -⟩
  · exact hnone
  · cases h with
    | _ hd => rw [hbad] at hd; cases hd

/-- In a run that succeeds the listing of each file has no errors. -/
theorem error?_eq_none_of_result_eq_ok {a : Activation} {whole : Expanded}
    (h : a.result = .ok whole) {entry : Entry} (hmem : entry ∈ scan a.lines) :
    entry.error? = none := by
  obtain ⟨frame, lines⟩ := a
  obtain ⟨text, hget, hentry⟩ := describes_of_mem_scan hmem
  rw [Activation.result, Frame.expand_eq_run] at h
  obtain ⟨front, back, before, first, -, -, hyields⟩ :=
    Frame.exists_yields_of_mem h (List.mem_of_getElem? hget)
  exact error?_eq_none_of_yields hyields hentry

/-- **A malformed line makes an expansion fail**, and is what it fails with if the lines in front of
it expand. -/
theorem expand_eq_error_of_malformed {lines : List Text} {n : Nat} {text : Text} {kind : Kind}
    (hpos : 0 < n) (hget : lines[n - 1]? = some text)
    (hbad : (Line.ofText text).directive = .error kind) (frame : Frame) :
    ∃ e, frame.expand lines = .error e ∧
      ∀ first, frame.expand (lines.take (n - 1)) = .ok first → e = ⟨n, .malformed kind⟩ := by
  have hlen : (lines.take (n - 1)).length = n - 1 := by
    rw [List.length_take]
    have := (List.getElem?_eq_some_iff.1 hget).1
    omega
  have hsplit : lines = lines.take (n - 1) ++ text :: lines.drop n := by
    obtain ⟨hlt, rfl⟩ := List.getElem?_eq_some_iff.1 hget
    have hdrop := List.drop_eq_getElem_cons hlt
    rw [show n - 1 + 1 = n by omega] at hdrop
    rw [← hdrop, List.take_append_drop]
  rw [Frame.expand_eq_run, Frame.expand_eq_run]
  cases hfront : frame.run 1 .empty (lines.take (n - 1)) with
  | error e =>
    refine ⟨e, ?_, fun first h => by cases h⟩
    rw [hsplit, Frame.run, Frame.expandFrom_append_eq_inOrder]
    have hrun : frame.expandFrom .full 1 .empty (lines.take (n - 1)) = .error e := hfront
    rw [hrun]
    rfl
  | ok first =>
    refine ⟨⟨n, .malformed kind⟩, ?_, fun _ _ => rfl⟩
    refine Frame.expandFrom_eq_error_iff.2 ⟨_, text, _, first, hsplit, hfront, ?_⟩
    rw [Frame.Faulty.expandLine_eq (.malformed hbad), hlen]
    congr 2
    omega

/-! ## The headline -/

/-- **Listing and expansion agree** about which lines are directives and which of them are
malformed. A listing has one entry for each line with a kind, in the order of the lines. Where an
expansion succeeds, no line of any file in it is listed with an error. Where a line is listed with
an error, an expansion fails; and it fails with this very error if the lines in front of that line
expand. -/
theorem listing_agrees (lines : List Text) :
    (scan lines).Pairwise (fun earlier later => earlier.line < later.line) ∧
    (∀ n, (∃ entry ∈ scan lines, entry.line = n) ↔
      0 < n ∧ ∃ text, lines[n - 1]? = some text ∧ (Line.ofText text).kind? ≠ none) ∧
    (∀ entry ∈ scan lines, ∃ text, lines[entry.line - 1]? = some text ∧
      entry.Describes (Line.ofText text)) ∧
    (∀ frame whole, frame.expand lines = .ok whole →
      ∀ a, ReflTransGen Activation.Calls ⟨frame, lines⟩ a →
        ∀ entry ∈ scan a.lines, entry.error? = none) ∧
    ∀ entry ∈ scan lines, ∀ message, entry.error? = some message → ∀ frame : Frame,
      ∃ e, frame.expand lines = .error e ∧
        ∀ first, frame.expand (lines.take (entry.line - 1)) = .ok first →
          e.message = message ∧ e.fault.kind = entry.kind ∧ e.line = entry.line := by
  refine ⟨pairwise_line_scan lines, fun n => exists_entry_iff,
    fun entry => describes_of_mem_scan, ?_, ?_⟩
  · intro frame whole h a hreach entry hmem
    have hroot : Activation.result ⟨frame, lines⟩ = .ok whole := h
    obtain ⟨expanded, hexpanded⟩ := Activation.succeeds_of_reaches hroot hreach
    exact error?_eq_none_of_result_eq_ok hexpanded hmem
  · intro entry hmem message hmessage frame
    obtain ⟨hpos, text, hget, hentry⟩ := mem_scan_iff.1 hmem
    rcases (describes_of_entryOf? hentry).2.read with ⟨-, -, -, hnone⟩ | ⟨hbad, -, herror⟩
    · rw [hnone] at hmessage
      cases hmessage
    · obtain ⟨e, he, hfirst⟩ := expand_eq_error_of_malformed hpos hget hbad frame
      refine ⟨e, he, fun first hok => ?_⟩
      rw [hfirst first hok]
      rw [herror] at hmessage
      exact ⟨Option.some.inj hmessage, rfl, rfl⟩

/-- A file that includes another one, behind a line of text. -/
def listedFiles : FileSystem :=
  FileSystem.ofTexts [("inner".toList, "text\n#var(a)".toList)]

def listedLines : List Text := ["#set(a=\"1\")".toList, "# text".toList, "#include(inner)".toList]

/-- The same lines, and two malformed ones. -/
def malformedLines : List Text := listedLines ++ ["  #include(inner".toList, "#var a".toList]

def malformedEntry : Entry where
  line := 4
  kind := .inclusion
  indentation := 2
  arguments := .error ⟨4, .malformed .inclusion⟩

theorem listing_agrees_malformedLines :
    (∃ a, ReflTransGen Activation.Calls (.ofLines listedFiles ⟨['.']⟩ .empty listedLines) a ∧
      a.lines = ["text".toList, "#var(a)".toList] ∧
      ∀ entry ∈ scan a.lines, entry.error? = none) ∧
    (malformedEntry ∈ scan malformedLines ∧
      malformedEntry.error? = some "expecting one #include(<file>) expression for line 4".toList ∧
      ∃ e first, Frame.expand ⟨listedFiles, ⟨['.']⟩, .empty, []⟩ malformedLines = .error e ∧
        Frame.expand ⟨listedFiles, ⟨['.']⟩, .empty, []⟩ (malformedLines.take 3) = .ok first ∧
        e.message = "expecting one #include(<file>) expression for line 4".toList ∧
        e.fault.kind = .inclusion ∧ e.line = 4) := by
  have hexpand : expandLines listedFiles ⟨['.']⟩ .empty listedLines =
      .ok ["# text".toList, "text".toList, "1".toList] := by decide +kernel
  have hd : (Line.ofText "#include(inner)".toList).directive =
      .ok (.inclusion "inner".toList) := by decide +kernel
  have hread : listedFiles.readLines (Path.join ⟨['.']⟩ "inner".toList) =
      .ok ["text".toList, "#var(a)".toList] := by decide +kernel
  obtain ⟨whole, hwhole, -⟩ := Activation.expandLines_eq_ok_iff.1 hexpand
  obtain ⟨own, inner, -, hcall, hopens, -⟩ := Activation.exists_calls hwhole (by decide) hd
  obtain rfl : inner = _ := Except.ok.inj (hopens.read.symm.trans hread)
  obtain ⟨-, -, -, hnone, -⟩ := listing_agrees listedLines
  obtain ⟨-, -, -, -, hfails⟩ := listing_agrees malformedLines
  have hmem : malformedEntry ∈ scan malformedLines :=
    mem_scan_iff.2 ⟨by decide, "  #include(inner".toList, rfl, by rfl⟩
  have hmessage : malformedEntry.error? =
      some "expecting one #include(<file>) expression for line 4".toList := by decide +kernel
  obtain ⟨e, he, hfirst⟩ := hfails malformedEntry hmem _ hmessage ⟨listedFiles, ⟨['.']⟩, .empty, []⟩
  exact ⟨⟨_, .single hcall, rfl, hnone _ whole hwhole _ (.single hcall)⟩, hmem, hmessage, e, whole,
    he, hwhole, hfirst whole hwhole⟩

end Listing

end LineTemplate
