import EntityGraph.Decimal.Reader
import EntityGraph.Decimal.Shortest
import EntityGraph.Json.Reader
import EntityGraph.Settings.Codec
import EntityGraph.Table
import EntityGraph.Toml.Reader
import EntityGraph.Unicode.Lowercase

/-!
# Layers of settings

Settings come from several sources, and a later source wins. Tables are merged key by key; every
other value replaces what was there, and so does a table that meets a value of another kind. A
source states a value in the type that it has at hand, so the merged settings are read leniently: a
number may be written as text, and text as a number.
-/
namespace EntityGraph

/-- The entries of one source, in its order. -/
abbrev Layer := List (String × Json)

namespace Json

/-- The members of an object; other values have none. -/
def members : Json → List (String × Json)
  | .obj members => members
  | _ => []

/-- The items of an array; other values have none. -/
def items : Json → List Json
  | .arr items => items
  | _ => []

/-- The object with another value under a key. -/
def withMember (target : Json) (key : String) (value : Json) : Json :=
  .obj (Table.set key value target.members)

mutual

/-- Enters a value under a key of a table. The entries of a table are entered one by one. -/
def enter (key : String) : Json → Json → Json
  | .obj entries, target =>
    target.withMember key (enterAll entries ((target.member? key).getD (.obj [])))
  | .null, target => target.withMember key .null
  | .bool value, target => target.withMember key (.bool value)
  | .int value, target => target.withMember key (.int value)
  | .float value, target => target.withMember key (.float value)
  | .str value, target => target.withMember key (.str value)
  | .arr items, target => target.withMember key (.arr items)

def enterAll : List (String × Json) → Json → Json
  | [], target => target
  | (key, value) :: rest, target => enterAll rest (enter key value target)

end

mutual

/-- The same value with integers outside the signed 64-bit range as doubles. -/
def widenLarge : Json → Json
  | .int value =>
    if Decimal.isSigned value then .int value else .float (Float.ofInt value)
  | .arr items => .arr (widenItems items)
  | .obj members => .obj (widenMembers members)
  | .null => .null
  | .bool value => .bool value
  | .float value => .float value
  | .str value => .str value

def widenItems : List Json → List Json
  | [] => []
  | item :: rest => widenLarge item :: widenItems rest

def widenMembers : List (String × Json) → List (String × Json)
  | [] => []
  | (key, value) :: rest => (key, widenLarge value) :: widenMembers rest

end

end Json

/-! ## Places -/

/-- One step on the way to a value. -/
inductive PlaceStep where
  | key (name : String)
  /-- An item of a list; a negative position counts from its end. -/
  | item (position : Int)
  deriving DecidableEq, Repr

namespace PlaceStep

def isNameChar (c : Char) : Bool :=
  Text.isUpper c || Text.isLower c || Text.isDigit c || c = '_' || c = '-' || c = ' '

/-- A number in brackets. -/
def position? (text : List Char) : Option (Int × List Char) :=
  let (negative, digits) := match text with
    | '-' :: rest => (true, rest)
    | rest => (false, rest)
  match digits.takeWhile Text.isDigit, digits.dropWhile Text.isDigit with
  | _ :: _, ']' :: rest =>
    let value : Int := Decimal.digitsValue (digits.takeWhile Text.isDigit)
    some (if negative then -value else value, rest)
  | _, _ => none

/-- The steps after the first name: names behind dots and positions in brackets. -/
def read? : Nat → List Char → Option (List PlaceStep)
  | _, [] => some []
  | 0, _ => none
  | bound + 1, '.' :: text =>
    match text.takeWhile isNameChar with
    | [] => none
    | name => (read? bound (text.dropWhile isNameChar)).map (.key (String.ofList name) :: ·)
  | bound + 1, '[' :: text => do
    let (position, rest) ← position? text
    return .item position :: (← read? bound rest)
  | _, _ => none

/-- The steps to the place that a key of a source names: the key itself if it does not read as a
way. -/
def ofKey (key : String) : List PlaceStep :=
  (read? (key.length + 1) ('.' :: key.toList)).getD [.key key]

end PlaceStep

/-- The items of a list with at least one more than a position. -/
def padTo (position : Nat) (items : List Json) : List Json :=
  items ++ List.replicate (position + 1 - items.length) .null

/-- Enters a value at a place. What is on the way and is neither a table nor a list, as the step
needs it, is replaced. -/
def enterAt : List PlaceStep → Json → Json → Json
  | [], value, _ => value
  | [.key name], value, target => Json.enter name value target
  | .key name :: rest, value, target =>
    target.withMember name (enterAt rest value ((target.member? name).getD .null))
  | .item position :: rest, value, target =>
    let index := if position < 0 then (target.items.length + position).toNat else position.toNat
    let items := padTo index target.items
    .arr (items.set index (enterAt rest value (items.getD index .null)))

namespace Layer

/-- The sources on top of each other, the first at the bottom. -/
def merge (layers : List Layer) : Json :=
  layers.flatten.foldl (fun target entry => enterAt (PlaceStep.ofKey entry.1) entry.2 target)
    (.obj [])

/-- The formats of settings files. -/
inductive Format where
  | toml
  | json
  deriving DecidableEq, Repr

namespace Format

/-- The extension of the files of a format. -/
def ending : Format → String
  | toml => "toml"
  | json => "json"

def all : List Format := [toml, json]

def ofEnding? (ending : String) : Option Format := all.find? (·.ending == ending)

/-- The value that a text states. -/
def parse? : Format → String → Option Json
  | toml, text => (Toml.parse? text).map (·.toJson .str)
  | json, text => (Json.parse? text).map fun value => value.sortKeys.widenLarge

end Format

/-- Reads the text of a settings file, which must state a table. -/
def ofText? (format : Format) (text : String) : Option Layer :=
  match format.parse? text with
  | some (.obj entries) => some entries
  | _ => none

/-! ## Variables -/

/-- The names of variables that hold settings begin with this, in any case. -/
def variableStart : String := "schema_entities__"

/-- The value that the text of a variable stands for. -/
def valueOfText (text : String) : Json :=
  match Unicode.lowercase text with
  | "true" => .bool true
  | "false" => .bool false
  | _ =>
    match Decimal.parseInteger? text, Decimal.parse? text with
    | some value, _ => .int value
    | none, some value => .float value
    | none, none => .str text

/-- The key of a variable that holds a setting. Two underscores separate names. -/
def keyOfVariable? (name : String) : Option String :=
  (Text.dropStart? variableStart (Unicode.lowercase name)).map fun rest =>
    String.ofList (Text.replacePair '_' '_' '.' rest.toList)

def ofVariables (environment : List (String × String)) : Layer :=
  environment.filterMap fun (name, text) =>
    (keyOfVariable? name).map fun key => (key, valueOfText text)

end Layer

/-! ## Lenient reading -/

namespace ValueReader

def lenientText : Json → Decoded String
  | .str text => .ok text
  | .bool value => .ok (toString value)
  | .int value => .ok (toString value)
  | .float value => .ok (Decimal.plain value)
  | _ => .error (.unexpected "a text")

def lenientFlag : Json → Decoded Bool
  | .bool value => .ok value
  | .int value => .ok (value != 0)
  | .float value => .ok (value != 0)
  | .str text =>
    let word := Unicode.lowercase text
    if ["1", "true", "on", "yes"].contains word then .ok true
    else if ["0", "false", "off", "no"].contains word then .ok false
    else .error (.unexpected "a truth value")
  | _ => .error (.unexpected "a truth value")

def lenientWord : Json → Decoded Nat
  | .bool value => .ok value.toNat
  | .int value =>
    if value < 0 then .error (.unexpected "an unsigned number") else .ok value.toNat
  | .float value => .ok value.round.toUInt64.toNat
  | .str text =>
    let word := Unicode.lowercase text
    if ["true", "on", "yes"].contains word then .ok 1
    else if ["false", "off", "no"].contains word then .ok 0
    else
      match Decimal.parseWord? text.toList with
      | some value => .ok value
      | none => .error (.unexpected "an unsigned number")
  | _ => .error (.unexpected "an unsigned number")

/-- A scalar kind: its name, or a table with the name as its only key. -/
def lenientKind : Json → Decoded ScalarKind
  | .obj [("custom", value)] => (lenientText value).map .custom
  | .str word | .obj [(word, _)] =>
    match ScalarKind.ofName? word with
    | some kind => .ok kind
    | none => .error (.unexpected "a scalar kind")
  | _ => .error (.unexpected "a scalar kind")

/-- Values are converted to the type that is needed. A count keeps the last 32 bits of its
number. -/
def lenient : ValueReader :=
  { text := lenientText
    flag := lenientFlag
    count := fun value => (lenientWord value).map (· % (Decimal.maxCount + 1))
    size := lenientWord
    kind := lenientKind }

end ValueReader

/-- Reads the settings that several sources make together. -/
def Settings.ofLayers (layers : List Layer) : Result Settings :=
  match Settings.ofJson .lenient (Layer.merge layers) with
  | .ok settings => .ok settings
  | .error failure => .error (.settings failure.message)

end EntityGraph
