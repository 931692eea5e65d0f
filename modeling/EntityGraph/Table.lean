import EntityGraph.Text.Basic

/-!
# Tables

Finite maps from names to values, kept as entries in name order without repetitions. The order is
the one in which every listing of a table appears.
-/
namespace EntityGraph

abbrev Table (α : Type) := List (String × α)

namespace Table

variable {α : Type}

def get? (table : Table α) (name : String) : Option α :=
  (table.find? (·.1 == name)).map (·.2)

def has (table : Table α) (name : String) : Bool := table.any (·.1 == name)

def names (table : Table α) : List String := table.map (·.1)

/-- Puts a value under a name, in place of what was there. -/
def set (name : String) (value : α) : Table α → Table α
  | [] => [(name, value)]
  | entry :: rest =>
    if name < entry.1 then (name, value) :: entry :: rest
    else if name = entry.1 then (name, value) :: rest
    else entry :: set name value rest

/-- Enters the pairs one after the other, so that the last of equal names stays. -/
def ofList (entries : List (String × α)) : Table α :=
  entries.foldl (fun table entry => set entry.1 entry.2 table) []

/-- The table without a name. -/
def erase (name : String) (table : Table α) : Table α := table.filter (·.1 != name)

end Table

end EntityGraph
