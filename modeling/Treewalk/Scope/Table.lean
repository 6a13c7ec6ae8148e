/-!
# Tables from names to entries

A finite map from names, in the order in which the names were first inserted. Inserting replaces
the entry of a name that is there and appends one that is not, so every name has one entry and the
names of a table only ever grow.
-/

set_option autoImplicit false
set_option relaxedAutoImplicit false

namespace Treewalk

structure Table (α : Type) where
  entries : List (String × α) := []

namespace Table

variable {α : Type}

def get? (table : Table α) (name : String) : Option α :=
  table.entries.lookup name

def contains (table : Table α) (name : String) : Bool :=
  (table.get? name).isSome

/-- The entries with that of `name` replaced, or added at the end. -/
def insertEntry (name : String) (entry : α) : List (String × α) → List (String × α)
  | [] => [(name, entry)]
  | (other, old) :: rest =>
    if name = other then (name, entry) :: rest else (other, old) :: insertEntry name entry rest

def insert (table : Table α) (name : String) (entry : α) : Table α :=
  ⟨insertEntry name entry table.entries⟩

@[simp] theorem get?_empty (name : String) : ({} : Table α).get? name = none :=
  rfl

theorem lookup_insertEntry (name other : String) (entry : α) (entries : List (String × α)) :
    (insertEntry name entry entries).lookup other =
      if other = name then some entry else entries.lookup other := by
  induction entries with
  | nil =>
    by_cases hother : other = name
    · simp [insertEntry, hother]
    · simp [insertEntry, List.lookup_cons, beq_eq_false_iff_ne.mpr hother, hother]
  | cons pair rest ih =>
    obtain ⟨key, old⟩ := pair
    by_cases hother : other = key
    · by_cases hname : name = key <;> simp [insertEntry, hname, hother, eq_comm (a := key)]
    · by_cases hname : name = key <;>
        simp [insertEntry, List.lookup_cons, hname, beq_eq_false_iff_ne.mpr hother, hother, ih]

/-- An insertion is seen under its own name and under no other. -/
theorem get?_insert (table : Table α) (name other : String) (entry : α) :
    (table.insert name entry).get? other =
      if other = name then some entry else table.get? other :=
  lookup_insertEntry name other entry table.entries

theorem contains_insert (table : Table α) (name other : String) (entry : α) :
    (table.insert name entry).contains other = (decide (other = name) || table.contains other) := by
  unfold contains
  rw [get?_insert]
  by_cases hother : other = name <;> simp [hother]

end Table

end Treewalk
