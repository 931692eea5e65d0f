import EntityGraph.Decimal.Integer
import EntityGraph.Json.Basic

/-!
# Decoding JSON values into records

A record names its keys. Keys that it does not name are ignored, a named key that occurs twice is
refused, and what an absent key means is the record's choice: an error, a default, or nothing.
An optional entry reads `null` as absence; every other entry refuses `null` unless its own decoder
takes it. A list may stand for an object: its items are the entries of the first keys.
-/
namespace EntityGraph

/-- Why a value does not decode. -/
inductive DecodeError where
  | missingKey (key : String)
  | repeatedKey (key : String)
  | unexpected (wanted : String)
  deriving Repr, DecidableEq, Inhabited

def DecodeError.message : DecodeError → String
  | missingKey key => "missing key " ++ key
  | repeatedKey key => "repeated key " ++ key
  | unexpected wanted => "a value is not " ++ wanted

/-- The result of decoding. -/
abbrev Decoded (α : Type) := Except DecodeError α

namespace Json

def asString : Json → Decoded String
  | .str text => .ok text
  | _ => .error (.unexpected "a string")

def asBool : Json → Decoded Bool
  | .bool value => .ok value
  | _ => .error (.unexpected "a boolean")

/-- A natural number up to `limit`, written as an integer. -/
def asNat (limit : Nat) : Json → Decoded Nat
  | .int value =>
    if 0 ≤ value ∧ value ≤ limit then .ok value.toNat
    else .error (.unexpected "a natural number in range")
  | _ => .error (.unexpected "a natural number")

def asCount : Json → Decoded Nat := asNat Decimal.maxCount

/-- An integer that fits a signed 64-bit word. -/
def asWord : Json → Decoded Int
  | .int value =>
    if Decimal.isSigned value then .ok value
    else .error (.unexpected "a 64-bit integer")
  | _ => .error (.unexpected "an integer")

/-- A double; integers are taken as well. -/
def asFloat : Json → Decoded Float
  | .float value => .ok value
  | .int value => .ok (Float.ofInt value)
  | _ => .error (.unexpected "a number")

def asList {α : Type} (decode : Json → Decoded α) : Json → Decoded (List α)
  | .arr items => items.mapM decode
  | _ => .error (.unexpected "an array")

/-- `null` is absence. -/
def asOption {α : Type} (decode : Json → Decoded α) : Json → Decoded (Option α)
  | .null => .ok none
  | value => (decode value).map some

/-- A map with string values: entries in key order, the last of equal keys kept. -/
def asStringMap : Json → Decoded (List (String × String))
  | .obj members => do
    let entries ← members.mapM fun (key, value) => do return (key, ← asString value)
    return Table.ofList entries
  | _ => .error (.unexpected "an object")

mutual

/-- The number of levels of arrays and objects in a value. -/
def height : Json → Nat
  | .arr items => heightItems items + 1
  | .obj members => heightMembers members + 1
  | _ => 0

def heightItems : List Json → Nat
  | [] => 0
  | item :: rest => max (height item) (heightItems rest)

def heightMembers : List (String × Json) → Nat
  | [] => 0
  | (_, value) :: rest => max (height value) (heightMembers rest)

end

/-- Entries among which no expected key is repeated. -/
structure Record where
  members : List (String × Json)

namespace Record

/-- Opens an object as a record with the given keys. -/
def ofObject (keys : List String) : Json → Decoded Record
  | .obj members =>
    match keys.find? fun key => (members.filter (·.1 == key)).length > 1 with
    | some key => .error (.repeatedKey key)
    | none => .ok ⟨members⟩
  | _ => .error (.unexpected "an object")

/-- Opens an object, or a list of the values of the first keys, as a record with the given keys. -/
def ofJson (keys : List String) : Json → Decoded Record
  | .arr items =>
    if items.length ≤ keys.length then .ok ⟨keys.zip items⟩
    else .error (.unexpected "a list of entries")
  | value => ofObject keys value

def find? (record : Record) (key : String) : Option Json :=
  (record.members.find? (·.1 == key)).map (·.2)

variable {α : Type}

/-- An entry that must be present. -/
def required (record : Record) (key : String) (decode : Json → Decoded α) : Decoded α :=
  match record.find? key with
  | some value => decode value
  | none => .error (.missingKey key)

/-- An entry with a value for its absence. -/
def defaulted (record : Record) (key : String) (absent : α) (decode : Json → Decoded α) :
    Decoded α :=
  match record.find? key with
  | some value => decode value
  | none => .ok absent

/-- An entry that may be absent or `null`. -/
def optional (record : Record) (key : String) (decode : Json → Decoded α) : Decoded (Option α) :=
  record.defaulted key none (asOption decode)

end Record

/-- The name of a variant, and the value with its entries: an object that has the name under a key,
or a list that begins with it. -/
def variant (key : String) : Json → Decoded (String × Json)
  | .arr (name :: items) => do return (← asString name, .arr items)
  | value => do return (← (← Record.ofObject [key] value).required key asString, value)

/-- `null` for absence. -/
def ofOption {α : Type} (encode : α → Json) : Option α → Json
  | some value => encode value
  | none => .null

def ofNat (value : Nat) : Json := .int value

def ofStrings (texts : List String) : Json := .arr (texts.map .str)

end Json

end EntityGraph
