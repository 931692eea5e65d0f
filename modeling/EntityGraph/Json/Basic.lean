import EntityGraph.Table

/-!
# JSON values

A JSON text as a tree. Members keep their order and their repetitions, because what a repeated
key means depends on the reader: a record refuses it, a map keeps the last one. A number is an
integer when it is written without fraction and exponent and lies between the least signed and the
greatest unsigned 64-bit word, and a double otherwise.
-/
namespace EntityGraph

inductive Json where
  | null
  | bool (value : Bool)
  | int (value : Int)
  | float (value : Float)
  | str (value : String)
  | arr (items : List Json)
  | obj (members : List (String × Json))
  deriving Inhabited, Repr

namespace Json

/-- The value under the last occurrence of a key. -/
def member? (value : Json) (key : String) : Option Json :=
  match value with
  | .obj members => (members.reverse.find? (·.1 == key)).map (·.2)
  | _ => none

mutual

/-- The same value with the members of every object in key order, the last of equal keys kept. -/
def sortKeys : Json → Json
  | .arr items => .arr (sortItems items)
  | .obj members => .obj (Table.ofList (sortMembers members))
  | .null => .null
  | .bool value => .bool value
  | .int value => .int value
  | .float value => .float value
  | .str value => .str value

def sortItems : List Json → List Json
  | [] => []
  | item :: rest => sortKeys item :: sortItems rest

def sortMembers : List (String × Json) → List (String × Json)
  | [] => []
  | (key, value) :: rest => (key, sortKeys value) :: sortMembers rest

end

end Json

end EntityGraph
