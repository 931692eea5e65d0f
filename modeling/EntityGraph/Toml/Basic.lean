import EntityGraph.Json.Basic

/-!
# TOML documents

The values of a TOML text, and the tree that a text builds line by line. A table of the tree
remembers how it came about, because that decides who may still add to it: a header may complete a
table that was only implied by longer headers, a dotted key may extend a table that only dotted keys
made, and nothing may define a key twice.
-/
namespace EntityGraph.Toml

inductive Value where
  | text (value : String)
  | integer (value : Int)
  | float (value : Float)
  | boolean (value : Bool)
  /-- A date, a time, or both, in its usual form. -/
  | moment (value : String)
  | array (items : List Value)
  | table (entries : List (String × Value))
  deriving Repr, Inhabited

namespace Value

mutual

/-- The value as JSON. `moment` says what becomes of a date or time. -/
def toJson (moment : String → Json) : Value → Json
  | text value => .str value
  | integer value => .int value
  | float value => .float value
  | boolean value => .bool value
  | .moment value => moment value
  | array items => .arr (itemsToJson moment items)
  | table entries => .obj (entriesToJson moment entries)

def itemsToJson (moment : String → Json) : List Value → List Json
  | [] => []
  | item :: rest => toJson moment item :: itemsToJson moment rest

def entriesToJson (moment : String → Json) : List (String × Value) → List (String × Json)
  | [] => []
  | (key, value) :: rest => (key, toJson moment value) :: entriesToJson moment rest

end

end Value

/-- How a table came about. -/
inductive Origin where
  /-- By its own header, or as the document itself. -/
  | header
  /-- As a part of a longer header. -/
  | implied
  /-- As a part of a dotted key. -/
  | dottedKey
  deriving DecidableEq, Repr

inductive Node where
  | value (value : Value)
  | table (origin : Origin) (entries : List (String × Node))
  /-- An array of tables; the last one is open. -/
  | tables (items : List (List (String × Node)))

/-- The entries of an open table. -/
abbrev Entries := List (String × Node)

namespace Entries

def get? (entries : Entries) (key : String) : Option Node :=
  (entries.find? (·.1 == key)).map (·.2)

/-- Puts another node under a key that is there. -/
def replace (entries : Entries) (key : String) (node : Node) : Entries :=
  entries.map fun entry => if entry.1 == key then (key, node) else entry

/-- Changes the table at a path. Tables that are missing on the way are made with the given
origin; dotted keys do not pass through tables that have a header. -/
def changeAt (made : Origin) (change : Origin → Entries → Option Entries) :
    List String → Origin → Entries → Option Entries
  | [], origin, entries => change origin entries
  | key :: path, _, entries =>
    match entries.get? key with
    | none =>
      (changeAt made change path made []).map fun inner => entries ++ [(key, .table made inner)]
    | some (.value _) => none
    | some (.table origin inner) =>
      if made = .dottedKey ∧ origin = .header then none
      else
        (changeAt made change path origin inner).map fun inner =>
          entries.replace key (.table origin inner)
    | some (.tables items) =>
      match items.getLast? with
      | none => none
      | some last =>
        (changeAt made change path .header last).map fun last =>
          entries.replace key (.tables (items.dropLast ++ [last]))

/-- Opens the table of a header. -/
def openTable (path : List String) (key : String) (entries : Entries) : Option Entries :=
  changeAt .implied
    (fun _ entries =>
      match entries.get? key with
      | none => some (entries ++ [(key, .table .header [])])
      | some (.table .implied inner) => some (entries.replace key (.table .header inner))
      | some _ => none)
    path .header entries

/-- Opens the next table of an array of tables. -/
def openItem (path : List String) (key : String) (entries : Entries) : Option Entries :=
  changeAt .implied
    (fun _ entries =>
      match entries.get? key with
      | none => some (entries ++ [(key, .tables [[]])])
      | some (.tables items) => some (entries.replace key (.tables (items ++ [[]])))
      | some _ => none)
    path .header entries

/-- Enters a value under a dotted key of a table. -/
def enter (path : List String) (key : String) (value : Value) (origin : Origin)
    (entries : Entries) : Option Entries :=
  changeAt .dottedKey
    (fun origin entries =>
      if (origin = .dottedKey) ↔ path.isEmpty then none
      else if (entries.get? key).isSome then none
      else some (entries ++ [(key, .value value)]))
    path origin entries

/-- Enters a value under a dotted key of the table that a header opened. -/
def enterAt (table path : List String) (key : String) (value : Value) (entries : Entries) :
    Option Entries :=
  changeAt .implied (enter path key value) table .header entries

end Entries

mutual

def Node.toValue : Node → Value
  | .value value => value
  | .table _ entries => .table (entriesToValues entries)
  | .tables items => .array (itemsToValues items)

def entriesToValues : List (String × Node) → List (String × Value)
  | [] => []
  | (key, node) :: rest => (key, node.toValue) :: entriesToValues rest

def itemsToValues : List (List (String × Node)) → List Value
  | [] => []
  | entries :: rest => .table (entriesToValues entries) :: itemsToValues rest

end

end EntityGraph.Toml
