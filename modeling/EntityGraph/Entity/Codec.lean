import EntityGraph.Json.Decode
import EntityGraph.Schema.Codec
import EntityGraph.Calendar.Reader
import EntityGraph.Entity.Basic

/-!
# Entities as JSON

An entity is written with the keys that say something: absent values, empty lists, false flags and
an occurrence bound of one are left out. A field holds the entries of its kind beside its own, under
a `category` that tells the kinds apart.
-/
namespace EntityGraph

open Json (Record)
open Schema (MaxOccurs)

/-- An entry that is written only when there is a value. -/
def optionalEntry {α : Type} (key : String) (encode : α → Json) (value : Option α) :
    List (String × Json) :=
  match value with
  | some value => [(key, encode value)]
  | none => []

/-- An entry that is written only when it is true. -/
def flagEntry (key : String) (value : Bool) : List (String × Json) :=
  if value then [(key, .bool true)] else []

/-- An entry that is written only when the list has items. -/
def listEntry {α : Type} (key : String) (encode : α → Json) (values : List α) :
    List (String × Json) :=
  if values.isEmpty then [] else [(key, .arr (values.map encode))]

namespace ScalarKind

def toJson : ScalarKind → Json
  | custom name => .obj [("custom", .str name)]
  | kind => .str kind.name

/-- A standard kind by its name, also as the only key of an object with `null` under it; a custom
kind under the key `custom`. -/
def ofJson : Json → Decoded ScalarKind
  | .obj [("custom", value)] => (Json.asString value).map custom
  | .str word | .obj [(word, .null)] =>
    match ofName? word with
    | some kind => .ok kind
    | none => .error (.unexpected "a scalar kind")
  | _ => .error (.unexpected "a scalar kind")

end ScalarKind

namespace Literal

/-- The name of the literal's type. -/
def typeName : Literal → String
  | boolean _ => "boolean"
  | integer _ => "integer"
  | decimal _ => "decimal"
  | float _ => "float"
  | date _ => "date"
  | dateTime _ => "date_time"
  | text _ => "text"

def valueJson : Literal → Json
  | boolean value => .bool value
  | integer value => .int value
  | decimal value => .str value
  | float value => .float value
  | date value => .str value.text
  | dateTime value => .str value.text
  | text value => .str value

def toJson (literal : Literal) : Json :=
  .obj [("type", .str literal.typeName), ("value", literal.valueJson)]

def dateOfJson (value : Json) : Decoded Date := do
  match Date.parse? .relaxed (← Json.asString value) with
  | some day => return day
  | none => throw (.unexpected "a date")

def dateTimeOfJson (value : Json) : Decoded DateTime := do
  match DateTime.parse? .relaxed (← Json.asString value) with
  | some moment => return moment
  | none => throw (.unexpected "a date and time")

def ofJson (value : Json) : Decoded Literal := do
  let record ← Record.ofJson ["type", "value"] value
  match ← record.required "type" Json.asString with
  | "boolean" => return boolean (← record.required "value" Json.asBool)
  | "integer" => return integer (← record.required "value" Json.asWord)
  | "decimal" => return decimal (← record.required "value" Json.asString)
  | "float" => return float (← record.required "value" Json.asFloat)
  | "date" => return date (← record.required "value" dateOfJson)
  | "date_time" => return dateTime (← record.required "value" dateTimeOfJson)
  | "text" => return text (← record.required "value" Json.asString)
  | _ => throw (.unexpected "a literal type")

end Literal

namespace Validator

def boundJson (value : Literal) (exclusive : Bool) : Json :=
  .obj (("value", value.toJson) :: flagEntry "exclusive" exclusive)

def toJson : Validator → Json
  | minLength length => .obj [("min_length", .ofNat length)]
  | regex pattern => .obj [("regex", .str pattern)]
  | minValue value exclusive => .obj [("min_value", boundJson value exclusive)]
  | maxValue value exclusive => .obj [("max_value", boundJson value exclusive)]

def boundOfJson (value : Json) : Decoded (Literal × Bool) := do
  let record ← Record.ofJson ["value", "exclusive"] value
  return (
    ← record.required "value" Literal.ofJson,
    ← record.defaulted "exclusive" false Json.asBool)

def ofJson : Json → Decoded Validator
  | .obj [("min_length", value)] => (Json.asCount value).map minLength
  | .obj [("regex", value)] => (Json.asString value).map regex
  | .obj [("min_value", value)] => (boundOfJson value).map fun bound => minValue bound.1 bound.2
  | .obj [("max_value", value)] => (boundOfJson value).map fun bound => maxValue bound.1 bound.2
  | _ => .error (.unexpected "a validator")

end Validator

namespace Choice

def toJson (choice : Choice) : Json :=
  .obj [("value", .str choice.value), ("label", .str choice.label)]

def ofJson (value : Json) : Decoded Choice := do
  let record ← Record.ofJson ["value", "label"] value
  return {
    value := ← record.required "value" Json.asString
    label := ← record.required "label" Json.asString }

end Choice

namespace ScalarRepr

def entries (repr : ScalarRepr) : List (String × Json) :=
  [("kind", repr.kind.toJson)]
    ++ optionalEntry "source_type" .str repr.sourceType
    ++ optionalEntry "max_length" .ofNat repr.maxLength
    ++ optionalEntry "max_digits" .ofNat repr.maxDigits
    ++ optionalEntry "decimal_places" .ofNat repr.decimalPlaces
    ++ listEntry "choices" Choice.toJson repr.choices
    ++ listEntry "validators" Validator.toJson repr.validators
    ++ flagEntry "not_blank" repr.notBlank
    ++ optionalEntry "default" Literal.toJson repr.defaultValue

def toJson (repr : ScalarRepr) : Json := .obj repr.entries

def ofJson (value : Json) : Decoded ScalarRepr := do
  let record ← Record.ofJson
    ["kind", "source_type", "max_length", "max_digits", "decimal_places", "choices", "validators",
      "not_blank", "default"] value
  return {
    kind := ← record.required "kind" ScalarKind.ofJson
    sourceType := ← record.optional "source_type" Json.asString
    maxLength := ← record.optional "max_length" Json.asCount
    maxDigits := ← record.optional "max_digits" Json.asCount
    decimalPlaces := ← record.optional "decimal_places" Json.asCount
    choices := ← record.defaulted "choices" [] (Json.asList Choice.ofJson)
    validators := ← record.defaulted "validators" [] (Json.asList Validator.ofJson)
    notBlank := ← record.defaulted "not_blank" false Json.asBool
    defaultValue := ← record.optional "default" Literal.ofJson }

end ScalarRepr

namespace OnDelete

def text : OnDelete → String
  | protect => "protect"
  | cascade => "cascade"

def ofJson : Json → Decoded OnDelete
  | .str "protect" | .obj [("protect", .null)] => .ok protect
  | .str "cascade" | .obj [("cascade", .null)] => .ok cascade
  | _ => .error (.unexpected "a referential action")

end OnDelete

def Bag.toJson (bag : Bag) : Json := .obj (bag.map fun (key, doc) => (key, .str doc))

namespace FieldKind

/-- The entries of a kind after its category. -/
def payload : FieldKind → List (String × Json)
  | scalar repr | collection repr => repr.entries
  | toOne target oneToOne onDelete relatedName =>
    [("target", .str target)] ++ flagEntry "one_to_one" oneToOne
      ++ [("on_delete", .str onDelete.text)] ++ optionalEntry "related_name" .str relatedName
  | reverseOneToMany target reverseField | reverseOneToOne target reverseField =>
    [("target", .str target), ("reverse_field", .str reverseField)]
  | manyToMany target relatedName =>
    [("target", .str target)] ++ optionalEntry "related_name" .str relatedName
  | jsonBag entries => [("entries", entries.toJson)]
  | dropped | parentAlias => []
  | coalescedAlias into => [("into", .str into)]

def entries (kind : FieldKind) : List (String × Json) :=
  ("category", .str kind.category) :: kind.payload

/-- Reads a kind from the entries of a field. -/
def ofJson (value : Json) : Decoded FieldKind := do
  let record ← Record.ofObject ["category"] value
  match ← record.required "category" Json.asString with
  | "scalar" => return scalar (← ScalarRepr.ofJson value)
  | "collection" => return collection (← ScalarRepr.ofJson value)
  | "to_one" =>
    let record ← Record.ofObject ["target", "one_to_one", "on_delete", "related_name"] value
    return toOne (← record.required "target" Json.asString)
      (← record.defaulted "one_to_one" false Json.asBool)
      (← record.required "on_delete" OnDelete.ofJson)
      (← record.optional "related_name" Json.asString)
  | "reverse_one_to_many" =>
    let record ← Record.ofObject ["target", "reverse_field"] value
    return reverseOneToMany (← record.required "target" Json.asString)
      (← record.required "reverse_field" Json.asString)
  | "reverse_one_to_one" =>
    let record ← Record.ofObject ["target", "reverse_field"] value
    return reverseOneToOne (← record.required "target" Json.asString)
      (← record.required "reverse_field" Json.asString)
  | "many_to_many" =>
    let record ← Record.ofObject ["target", "related_name"] value
    return manyToMany (← record.required "target" Json.asString)
      (← record.optional "related_name" Json.asString)
  | "json_bag" =>
    let record ← Record.ofObject ["entries"] value
    return jsonBag (← record.required "entries" Json.asStringMap)
  | "dropped" => return dropped
  | "parent_alias" => return parentAlias
  | "coalesced_alias" =>
    let record ← Record.ofObject ["into"] value
    return coalescedAlias (← record.required "into" Json.asString)
  | _ => throw (.unexpected "a field category")

end FieldKind

namespace MergeNote

def kindName : MergeNote → String
  | nullIn _ => "null_in"
  | onlyIn _ => "only_in"
  | replacesDropped _ => "replaces_dropped"
  | mergeVariant _ => "merge_variant"

def types : MergeNote → List String
  | nullIn types | onlyIn types | replacesDropped types | mergeVariant types => types

def toJson (note : MergeNote) : Json :=
  .obj [("kind", .str note.kindName), ("types", .ofStrings note.types)]

def ofJson (value : Json) : Decoded MergeNote := do
  let record ← Record.ofJson ["kind", "types"] value
  let kind ← record.required "kind" Json.asString
  let make ← match kind with
    | "null_in" => pure nullIn
    | "only_in" => pure onlyIn
    | "replaces_dropped" => pure replacesDropped
    | "merge_variant" => pure mergeVariant
    | _ => throw (.unexpected "an note kind")
  return make (← record.required "types" (Json.asList Json.asString))

end MergeNote

namespace Field

def toJson (field : Field) : Json :=
  .obj ([("name", .str field.name)]
    ++ (if field.dottedPath.isEmpty then [] else [("dotted_path", .str field.dottedPath)])
    ++ field.kind.entries
    ++ flagEntry "nullable" field.nullable
    ++ listEntry "documentation" .str field.documentation
    ++ listEntry "annotations" MergeNote.toJson field.notes
    ++ optionalEntry "choice_group" .ofNat field.choiceGroup
    ++ (if field.maxOccurs.isOne then [] else [("max_occurs", field.maxOccurs.toJson)])
    ++ optionalEntry "coalesced_from" .str field.coalescedFrom
    ++ flagEntry "primary_key" field.primaryKey
    ++ flagEntry "unique" field.unique
    ++ flagEntry "db_index" field.dbIndex)

def ofJson (value : Json) : Decoded Field := do
  let record ← Record.ofObject
    ["name", "dotted_path", "nullable", "documentation", "annotations", "choice_group",
      "max_occurs", "coalesced_from", "primary_key", "unique", "db_index"] value
  return {
    name := ← record.required "name" Json.asString
    dottedPath := ← record.defaulted "dotted_path" "" Json.asString
    kind := ← FieldKind.ofJson value
    nullable := ← record.defaulted "nullable" false Json.asBool
    documentation := ← record.defaulted "documentation" [] (Json.asList Json.asString)
    notes := ← record.defaulted "annotations" [] (Json.asList MergeNote.ofJson)
    choiceGroup := ← record.optional "choice_group" Json.asCount
    maxOccurs := ← record.defaulted "max_occurs" .one MaxOccurs.ofJson
    coalescedFrom := ← record.optional "coalesced_from" Json.asString
    primaryKey := ← record.defaulted "primary_key" false Json.asBool
    unique := ← record.defaulted "unique" false Json.asBool
    dbIndex := ← record.defaulted "db_index" false Json.asBool }

end Field

namespace Imports

def toJson (imports : Imports) : Json :=
  .obj [("decimal", .bool imports.decimal), ("date", .bool imports.date)]

def ofJson (value : Json) : Decoded Imports := do
  let record ← Record.ofJson ["decimal", "date"] value
  return {
    decimal := ← record.required "decimal" Json.asBool
    date := ← record.required "date" Json.asBool }

end Imports

namespace Entity

def toJson (entity : Entity) : Json :=
  .obj ([("name", .str entity.name), ("source_types", .ofStrings entity.sourceTypes)]
    ++ optionalEntry "parent" .str entity.parent
    ++ [("fields", .arr (entity.fields.map Field.toJson))]
    ++ flagEntry "is_abstract" entity.isAbstract
    ++ listEntry "documentation" .str entity.documentation
    ++ [("dependencies", .ofStrings entity.dependencies)]
    ++ optionalEntry "number_field" .str entity.numberField
    ++ listEntry "match_fields" .str entity.matchFields
    ++ [("imports", entity.imports.toJson)])

def ofJson (value : Json) : Decoded Entity := do
  let record ← Record.ofJson
    ["name", "source_types", "parent", "fields", "is_abstract", "documentation", "dependencies",
      "number_field", "match_fields", "imports"] value
  let dependencies ← record.required "dependencies" (Json.asList Json.asString)
  return {
    name := ← record.required "name" Json.asString
    sourceTypes := ← record.required "source_types" (Json.asList Json.asString)
    parent := ← record.optional "parent" Json.asString
    fields := ← record.required "fields" (Json.asList Field.ofJson)
    isAbstract := ← record.defaulted "is_abstract" false Json.asBool
    documentation := ← record.defaulted "documentation" [] (Json.asList Json.asString)
    dependencies := dependencies.foldl (fun known name => insertDistinct name known) []
    numberField := ← record.optional "number_field" Json.asString
    matchFields := ← record.defaulted "match_fields" [] (Json.asList Json.asString)
    imports := ← record.required "imports" Imports.ofJson }

/-- The JSON of a list of entities. -/
def listToJson (entities : List Entity) : Json := .arr (entities.map toJson)

end Entity

end EntityGraph
