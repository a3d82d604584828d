import LineTemplate.Proofs.JsonTokens

/-!
# Reading JSON values

A value is spelled by its tokens: those of its parts, with marks around and between them. Which
value a row of tokens spells is found out in one walk over them, with a stack of the arrays and
objects that are still open.

## The architecture

* **`Value.tokens`** — the one row of tokens for a value, and **`Value.SpelledBy`**, what it is for
  a text to be a value.
* **`State`** — how far the walk has come, **`State.step`**, one token, and `State.tokens`, the
  tokens up to a state. A step adds its token to these (`tokens_of_step`), so a walk reads nothing
  but what is there (`eq_tokens_of_parse?`).
* **`walk_tokens`** — the tokens of a value bring the walk from before it to behind it, with
  whatever is open around it.
* **`read?_eq_some_iff`** — a text is read as the value that it spells.
-/

namespace LineTemplate

namespace Json

/-! ## Values and their tokens -/

/-- **A value** of any kind, as a reader gives it. The members of an object keep their order. -/
inductive Value where
  | scalar (s : Scalar)
  | array (items : List Value)
  | object (members : List (Text × Value))

mutual

/-- **The tokens of a value.** -/
def Value.tokens : Value → List Token
  | .scalar s => [.scalar s]
  | .array items => .mark .openArray :: (itemTokens items ++ [.mark .closeArray])
  | .object members => .mark .openObject :: (memberTokens members ++ [.mark .closeObject])

def itemTokens : List Value → List Token
  | [] => []
  | item :: rest =>
    item.tokens ++ ((if rest.isEmpty then [] else [.mark .comma]) ++ itemTokens rest)

def memberTokens : List (Text × Value) → List Token
  | [] => []
  | (key, value) :: rest =>
    .scalar (.string key) :: .mark .colon ::
      (value.tokens ++ ((if rest.isEmpty then [] else [.mark .comma]) ++ memberTokens rest))

end

/-- **A text spells a value** if it spells its tokens. -/
def Value.SpelledBy (value : Value) (text : Text) : Prop := Lexes text value.tokens

/-! ## The walk -/

/-- **What is open around a place:** arrays with the items in front of it, and objects with the
members in front of it and its key. -/
inductive Context where
  | top
  | item (items : List Value) (outer : Context)
  | member (members : List (Text × Value)) (key : Text) (outer : Context)

/-- **How far a walk has come:** in front of a value, in front of the key of a member, between its
key and the colon, or behind a value. -/
inductive State where
  | before (context : Context)
  | atKey (members : List (Text × Value)) (outer : Context)
  | atColon (members : List (Text × Value)) (key : Text) (outer : Context)
  | behind (value : Value) (context : Context)

/-- **One token.** An array or object can be closed at once, but not behind a comma. -/
def State.step : State → Token → Option State
  | .before context, .scalar s => some (.behind (.scalar s) context)
  | .before context, .mark .openArray => some (.before (.item [] context))
  | .before context, .mark .openObject => some (.atKey [] context)
  | .before (.item [] outer), .mark .closeArray => some (.behind (.array []) outer)
  | .atKey members outer, .scalar (.string key) => some (.atColon members key outer)
  | .atKey [] outer, .mark .closeObject => some (.behind (.object []) outer)
  | .atColon members key outer, .mark .colon => some (.before (.member members key outer))
  | .behind value (.item items outer), .mark .comma =>
    some (.before (.item (items ++ [value]) outer))
  | .behind value (.item items outer), .mark .closeArray =>
    some (.behind (.array (items ++ [value])) outer)
  | .behind value (.member members key outer), .mark .comma =>
    some (.atKey (members ++ [(key, value)]) outer)
  | .behind value (.member members key outer), .mark .closeObject =>
    some (.behind (.object (members ++ [(key, value)])) outer)
  | _, _ => none

def State.walk (state : State) (tokens : List Token) : Option State := tokens.foldlM step state

/-- **Reads a row of tokens:** behind the last one there is a value, and nothing is open. -/
def parse? (tokens : List Token) : Option Value :=
  match State.walk (.before .top) tokens with
  | some (.behind value .top) => some value
  | _ => none

/-- **Reads a text.** -/
def read? (text : Text) : Option Value := (tokens? text).bind parse?

/-! ## Nothing else is read -/

/-- Items or members with a comma behind each of them. -/
def itemsBefore (items : List Value) : List Token :=
  items.flatMap fun item => item.tokens ++ [.mark .comma]

def membersBefore (members : List (Text × Value)) : List Token :=
  members.flatMap fun (key, value) =>
    .scalar (.string key) :: .mark .colon :: (value.tokens ++ [.mark .comma])

def Context.tokens : Context → List Token
  | .top => []
  | .item items outer => outer.tokens ++ .mark .openArray :: itemsBefore items
  | .member members key outer =>
    outer.tokens ++ .mark .openObject ::
      (membersBefore members ++ [.scalar (.string key), .mark .colon])

/-- The tokens up to a state. -/
def State.tokens : State → List Token
  | .before context => context.tokens
  | .atKey members outer => outer.tokens ++ .mark .openObject :: membersBefore members
  | .atColon members key outer =>
    outer.tokens ++ .mark .openObject :: (membersBefore members ++ [.scalar (.string key)])
  | .behind value context => context.tokens ++ value.tokens

theorem itemTokens_concat (items : List Value) (item : Value) :
    itemTokens (items ++ [item]) = itemsBefore items ++ item.tokens := by
  induction items with
  | nil => simp [itemTokens, itemsBefore]
  | cons first rest ih => simp [itemTokens, itemsBefore, ih]

theorem memberTokens_concat (members : List (Text × Value)) (key : Text) (value : Value) :
    memberTokens (members ++ [(key, value)]) =
      membersBefore members ++ .scalar (.string key) :: .mark .colon :: value.tokens := by
  induction members with
  | nil => simp [memberTokens, membersBefore]
  | cons first rest ih => simp [memberTokens, membersBefore, ih]

/-- **A step adds its token** to those up to the state. -/
theorem State.tokens_of_step {state next : State} {token : Token}
    (h : state.step token = some next) : next.tokens = state.tokens ++ [token] := by
  unfold step at h
  split at h
  all_goals cases h
  all_goals
    simp [tokens, Context.tokens, Value.tokens, itemTokens, memberTokens, itemTokens_concat,
      memberTokens_concat, itemsBefore, membersBefore]

theorem State.tokens_of_walk {state last : State} {tokens : List Token}
    (h : state.walk tokens = some last) : last.tokens = state.tokens ++ tokens := by
  induction tokens generalizing state with
  | nil =>
    cases h
    simp
  | cons token rest ih =>
    obtain ⟨next, hnext, hrest⟩ := Option.bind_eq_some_iff.1 h
    rw [ih hrest, tokens_of_step hnext, List.append_assoc]
    rfl

theorem eq_tokens_of_parse? {tokens : List Token} {value : Value}
    (h : parse? tokens = some value) : tokens = value.tokens := by
  unfold parse? at h
  split at h
  case h_1 last hwalk =>
    cases h
    simpa [State.tokens, Context.tokens] using (State.tokens_of_walk hwalk).symm
  case h_2 => cases h

/-! ## Everything is read -/

theorem State.walk_append (state : State) (front back : List Token) :
    state.walk (front ++ back) = (state.walk front).bind (·.walk back) := by
  rw [walk, List.foldlM_append]
  rfl

theorem State.walk_atKey (members : List (Text × Value)) (outer : Context) (key : Text)
    (tokens : List Token) :
    State.walk (.atKey members outer) (.scalar (.string key) :: .mark .colon :: tokens) =
      State.walk (.before (.member members key outer)) tokens := rfl

mutual

/-- **The tokens of a value** lead from before it to behind it, whatever is open. -/
theorem walk_tokens (context : Context) :
    (value : Value) → State.walk (.before context) value.tokens = some (.behind value context)
  | .scalar _ => rfl
  | .array items => walk_itemTokens [] context items fun _ => rfl
  | .object members => walk_memberTokens [] context members fun _ => rfl

/-- An array is not closed behind a comma, so there are more items if there are some already. -/
theorem walk_itemTokens (items : List Value) (outer : Context) :
    (more : List Value) → (more = [] → items = []) →
      State.walk (.before (.item items outer)) (itemTokens more ++ [.mark .closeArray]) =
        some (.behind (.array (items ++ more)) outer)
  | [], h => by
    obtain rfl := h rfl
    rfl
  | [item], _ => by
    rw [itemTokens, List.append_assoc, State.walk_append, walk_tokens _ item]
    rfl
  | item :: next :: rest, _ => by
    have hrest := walk_itemTokens (items ++ [item]) outer (next :: rest) nofun
    rw [List.append_assoc] at hrest
    rw [itemTokens, List.append_assoc, State.walk_append, walk_tokens _ item]
    -- the comma has put the item to those in front
    exact hrest

theorem walk_memberTokens (members : List (Text × Value)) (outer : Context) :
    (more : List (Text × Value)) → (more = [] → members = []) →
      State.walk (.atKey members outer) (memberTokens more ++ [.mark .closeObject]) =
        some (.behind (.object (members ++ more)) outer)
  | [], h => by
    obtain rfl := h rfl
    rfl
  | [(key, value)], _ => by
    rw [memberTokens, List.cons_append, List.cons_append, State.walk_atKey, List.append_assoc,
      State.walk_append, walk_tokens _ value]
    rfl
  | (key, value) :: next :: rest, _ => by
    have hrest := walk_memberTokens (members ++ [(key, value)]) outer (next :: rest) nofun
    rw [List.append_assoc] at hrest
    rw [memberTokens, List.cons_append, List.cons_append, State.walk_atKey, List.append_assoc,
      State.walk_append, walk_tokens _ value]
    exact hrest

end

theorem parse?_tokens (value : Value) : parse? value.tokens = some value := by
  rw [parse?, walk_tokens]

/-! ## The headline -/

/-- **A text is read as the value that it spells**, and no other text is read. -/
theorem read?_eq_some_iff {text : Text} {value : Value} :
    read? text = some value ↔ value.SpelledBy text := by
  rw [read?, Option.bind_eq_some_iff]
  simp only [tokens?_eq_some_iff]
  constructor
  · rintro ⟨tokens, hlexes, hparse⟩
    rwa [eq_tokens_of_parse? hparse] at hlexes
  · intro hspelled
    exact ⟨value.tokens, hspelled, parse?_tokens value⟩

example : read? "[1.5e1, \"a\\u00e9\\ud83d\\ude00\", \x7b\"k\": [ ]\x7d]".toList =
    some (.array [.scalar (.number 15), .scalar (.string "aé😀".toList),
      .object [("k".toList, .array [])]]) := by
  cbv

/-- A text spells one value at most. -/
theorem Value.SpelledBy.unique {text : Text} {value value' : Value} (h : value.SpelledBy text)
    (h' : value'.SpelledBy text) : value = value' :=
  Option.some.inj ((read?_eq_some_iff.2 h).symm.trans (read?_eq_some_iff.2 h'))

end Json

end LineTemplate
