/-!
# Name tables

A name table is a list of named entries in the order in which the names first arrived.
Setting a name that is present changes its entry where it stands.
-/

namespace Multimethod

/-- Named entries, in the order in which the names first arrived. -/
abbrev Assoc (α : Type) := List (String × α)

namespace Assoc

variable {α : Type}

/-- The entry of `name`. -/
def find? : Assoc α → String → Option α
  | [], _ => none
  | (key, value) :: rest, name => if key = name then some value else find? rest name

/-- Sets `name`: in place when it is present, else behind all others. -/
def insert : Assoc α → String → α → Assoc α
  | [], name, value => [(name, value)]
  | (key, old) :: rest, name, value =>
      if key = name then (key, value) :: rest else (key, old) :: insert rest name value

/-- The table without `name`. -/
def erase (table : Assoc α) (name : String) : Assoc α :=
  table.filter fun entry => entry.1 != name

/-- Whether `name` has an entry. -/
def contains (table : Assoc α) (name : String) : Bool :=
  (find? table name).isSome

/-- The table that arises by setting the pairs one after the other. -/
def ofPairs (pairs : List (String × α)) : Assoc α :=
  pairs.foldl (fun table pair => insert table pair.1 pair.2) []

@[simp] theorem find?_nil (name : String) : find? ([] : Assoc α) name = none := rfl

theorem find?_insert (table : Assoc α) (name other : String) (value : α) :
    find? (insert table name value) other =
      if name = other then some value else find? table other := by
  induction table with
  | nil => simp [insert, find?]
  | cons entry rest ih =>
      obtain ⟨key, old⟩ := entry
      by_cases h : key = name
      · subst h
        by_cases h' : key = other <;> simp [insert, find?, h']
      · by_cases h' : key = other
        · subst h'
          simp [insert, find?, h, Ne.symm h]
        · simp [insert, find?, h, h', ih]

end Assoc

end Multimethod
