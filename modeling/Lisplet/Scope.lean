/-!
# Scopes

A scope binds names to values, each name at most once.  Setting a name replaces its binding if
there is one.  `Scope.get?` is the view that says what a scope means: `get?_set` gives it for a
scope after a name was set.
-/

namespace Lisplet

/-- The bindings of a scope, in the order in which the names were first set. -/
structure Scope (α : Type) where
  entries : List (String × α) := []

namespace Scope

variable {α : Type}

/-- The value of a name among some bindings. -/
def find? (name : String) : List (String × α) → Option α
  | [] => none
  | (key, value) :: rest => if key = name then some value else find? name rest

/-- Some bindings after a name was set. -/
def put (name : String) (value : α) : List (String × α) → List (String × α)
  | [] => [(name, value)]
  | (key, old) :: rest =>
    if key = name then (key, value) :: rest else (key, old) :: put name value rest

/-- The value that a name is bound to. -/
def get? (s : Scope α) (name : String) : Option α := find? name s.entries

/-- Whether a name is bound. -/
def has (s : Scope α) (name : String) : Bool := (s.get? name).isSome

/-- The scope with a name bound to a value. -/
def set (s : Scope α) (name : String) (value : α) : Scope α := ⟨put name value s.entries⟩

/-- The bindings in the order of their names, by code points. -/
def sorted (s : Scope α) : List (String × α) :=
  s.entries.mergeSort fun a b => decide (a.1 ≤ b.1)

theorem find?_put (name key : String) (value : α) (entries : List (String × α)) :
    find? key (put name value entries) = if key = name then some value else find? key entries := by
  induction entries with
  | nil => grind [put, find?]
  | cons entry rest ih => grind [put, find?]

/-- Setting a name changes what that name is bound to, and nothing else. -/
theorem get?_set (s : Scope α) (name key : String) (value : α) :
    (s.set name value).get? key = if key = name then some value else s.get? key :=
  find?_put name key value s.entries

end Scope

end Lisplet
