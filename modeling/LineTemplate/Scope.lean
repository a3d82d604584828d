import LineTemplate.Directive

/-!
# Bindings and scopes

* **`Bindings`** — the values of variables, one for each name at most. They are what a look-up
  sees, so bindings that were made in different ways are equal if all look-ups agree;
* **`Scope`** — the bindings that a file made itself, in front of those it inherited;
* **`Scope.values`** — the values of several names, or the first name that has none.
-/

namespace LineTemplate

/-- **Bindings** of names to values. -/
@[ext] structure Bindings where
  find? : Text → Option Text

namespace Bindings

def empty : Bindings := ⟨fun _ => none⟩

def assign (bindings : Bindings) (a : Assignment) : Bindings :=
  ⟨fun name => if name = a.key then some a.value else bindings.find? name⟩

def assignAll (bindings : Bindings) (as : List Assignment) : Bindings := as.foldl assign bindings

@[simp] theorem find?_empty (name : Text) : empty.find? name = none := rfl

@[simp] theorem find?_assign (bindings : Bindings) (a : Assignment) (name : Text) :
    (bindings.assign a).find? name = if name = a.key then some a.value else bindings.find? name :=
  rfl

@[simp] theorem assignAll_nil (bindings : Bindings) : bindings.assignAll [] = bindings := rfl

@[simp] theorem assignAll_cons (bindings : Bindings) (a : Assignment) (as : List Assignment) :
    bindings.assignAll (a :: as) = (bindings.assign a).assignAll as := rfl

theorem assignAll_append (bindings : Bindings) (as bs : List Assignment) :
    bindings.assignAll (as ++ bs) = (bindings.assignAll as).assignAll bs :=
  List.foldl_append ..

theorem assign_assign (bindings : Bindings) {a b : Assignment} (h : a.key = b.key) :
    (bindings.assign a).assign b = bindings.assign b := by
  ext1
  funext name
  by_cases hname : name = b.key <;> simp [assign, hname, h]

end Bindings

/-- **A scope:** the bindings made here, and those inherited from the including file. -/
structure Scope where
  own : Bindings
  inherited : Bindings

namespace Scope

/-- **The value of a name:** its own one, else the inherited one. -/
def lookup (scope : Scope) (name : Text) : Option Text :=
  (scope.own.find? name).or (scope.inherited.find? name)

/-- **The values of names**, in order, or the first name without one. -/
def values (scope : Scope) : List Text → Except Text (List (Text × Text))
  | [] => .ok []
  | name :: rest =>
    match scope.lookup name with
    | none => .error name
    | some value => (scope.values rest).map ((name, value) :: ·)

end Scope

end LineTemplate
