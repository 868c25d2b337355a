import IdlFormat.Text.Basic

/-!
# Tables

A table lists named values in the order in which the names were first written. Writing to a name
that is already there replaces its value and leaves it in its place.
-/

namespace IdlFormat

/-- Named values in order. -/
abbrev Table (α : Type) := List (Text × α)

namespace Table

variable {α : Type}

/-- The value of a name. -/
def get? (name : Text) : Table α → Option α
  | [] => none
  | field :: fields => if field.1 = name then some field.2 else get? name fields

/-- Writes a value to a name: in its place if the name is there, at the end otherwise. -/
def put (name : Text) (value : α) : Table α → Table α
  | [] => [(name, value)]
  | field :: fields =>
      if field.1 = name then (name, value) :: fields else field :: put name value fields

/-- The table that arises when pairs are written one after the other. -/
def ofPairs (pairs : List (Text × α)) : Table α :=
  pairs.foldl (fun table (name, value) => put name value table) []

theorem get?_put (name other : Text) (value : α) (table : Table α) :
    get? other (put name value table) = if name = other then some value else get? other table := by
  induction table with
  | nil => rfl
  | cons field fields ih =>
      by_cases found : field.1 = name
      · by_cases same : name = other <;> simp [put, get?, found, same]
      · by_cases same : name = other
        · subst same
          simp [put, get?, found, ih]
        · simp [put, get?, found, ih, same]

end Table

end IdlFormat
