import EntityGraph.Entity.Codec
import EntityGraph.Settings.Basic

/-!
# Settings as JSON

Settings are written with all their keys, absent values as `null`. The options of an entity stand
beside its name in one object. How single values are read is a parameter: a document states them in
their own type, while layered sources may hold a number as text.
-/
namespace EntityGraph

open Json (Record)

/-- How texts, flags, numbers and scalar kinds are read. -/
structure ValueReader where
  text : Json → Decoded String
  flag : Json → Decoded Bool
  /-- A 32-bit number. -/
  count : Json → Decoded Nat
  /-- A 64-bit number. -/
  size : Json → Decoded Nat
  kind : Json → Decoded ScalarKind

/-- Every value has exactly the type that it is read at. -/
def ValueReader.exact : ValueReader :=
  { text := Json.asString
    flag := Json.asBool
    count := Json.asCount
    size := Json.asNat Decimal.maxWord
    kind := ScalarKind.ofJson }

namespace NamingRule

def toJson (rule : NamingRule) : Json :=
  .obj [("pattern", .str rule.pattern), ("entity", .str rule.entity), ("merge", .bool rule.merge)]

def ofJson (read : ValueReader) (value : Json) : Decoded NamingRule := do
  let record ← Record.ofJson ["pattern", "entity", "merge"] value
  return {
    pattern := ← record.required "pattern" read.text
    entity := ← record.required "entity" read.text
    merge := ← record.defaulted "merge" false read.flag }

end NamingRule

namespace Substitution

def toJson (self : Substitution) : Json :=
  .obj [("pattern", .str self.pattern), ("replace", .str self.replacement)]

def ofJson (read : ValueReader) (value : Json) : Decoded Substitution := do
  let record ← Record.ofJson ["pattern", "replace"] value
  return {
    pattern := ← record.required "pattern" read.text
    replacement := ← record.required "replace" read.text }

end Substitution

namespace TargetOverride

def toJson (self : TargetOverride) : Json :=
  .obj [("field", .str self.field), ("target", .str self.target)]

def ofJson (read : ValueReader) (value : Json) : Decoded TargetOverride := do
  let record ← Record.ofJson ["field", "target"] value
  return {
    field := ← record.required "field" read.text
    target := ← record.required "target" read.text }

end TargetOverride

namespace KindOverride

def toJson (self : KindOverride) : Json :=
  .obj [("field", .str self.field), ("kind", self.kind.toJson)]

def ofJson (read : ValueReader) (value : Json) : Decoded KindOverride := do
  let record ← Record.ofJson ["field", "kind"] value
  return {
    field := ← record.required "field" read.text
    kind := ← record.required "kind" read.kind }

end KindOverride

namespace FieldDoc

def toJson (self : FieldDoc) : Json := .obj [("field", .str self.field), ("doc", .str self.doc)]

def ofJson (read : ValueReader) (value : Json) : Decoded FieldDoc := do
  let record ← Record.ofJson ["field", "doc"] value
  return {
    field := ← record.required "field" read.text
    doc := ← record.required "doc" read.text }

end FieldDoc

namespace FieldOverride

def toJson (self : FieldOverride) : Json :=
  .obj [
    ("field", .str self.field),
    ("max_length", .ofOption .ofNat self.maxLength),
    ("max_digits", .ofOption .ofNat self.maxDigits),
    ("decimal_places", .ofOption .ofNat self.decimalPlaces),
    ("null", .ofOption .bool self.null),
    ("blank", .ofOption .bool self.blank),
    ("unique", .ofOption .bool self.unique),
    ("db_index", .ofOption .bool self.dbIndex),
    ("related_name", .ofOption .str self.relatedName),
    ("default", .ofOption .str self.defaultText)]

def ofJson (read : ValueReader) (value : Json) : Decoded FieldOverride := do
  let record ← Record.ofJson
    ["field", "max_length", "max_digits", "decimal_places", "null", "blank", "unique", "db_index",
      "related_name", "default"] value
  return {
    field := ← record.required "field" read.text
    maxLength := ← record.optional "max_length" read.count
    maxDigits := ← record.optional "max_digits" read.count
    decimalPlaces := ← record.optional "decimal_places" read.count
    null := ← record.optional "null" read.flag
    blank := ← record.optional "blank" read.flag
    unique := ← record.optional "unique" read.flag
    dbIndex := ← record.optional "db_index" read.flag
    relatedName := ← record.optional "related_name" read.text
    defaultText := ← record.optional "default" read.text }

end FieldOverride

namespace ExtraField

def toJson (self : ExtraField) : Json :=
  .obj [
    ("name", .str self.name),
    ("target", .ofOption .str self.target),
    ("many_to_many", .bool self.manyToMany),
    ("kind", .ofOption ScalarKind.toJson self.kind),
    ("max_length", .ofOption .ofNat self.maxLength),
    ("nullable", .bool self.nullable),
    ("documentation", .ofOption .str self.documentation)]

def ofJson (read : ValueReader) (value : Json) : Decoded ExtraField := do
  let record ← Record.ofJson
    ["name", "target", "many_to_many", "kind", "max_length", "nullable", "documentation"] value
  return {
    name := ← record.required "name" read.text
    target := ← record.optional "target" read.text
    manyToMany := ← record.defaulted "many_to_many" false read.flag
    kind := ← record.optional "kind" read.kind
    maxLength := ← record.optional "max_length" read.count
    nullable := ← record.defaulted "nullable" false read.flag
    documentation := ← record.optional "documentation" read.text }

end ExtraField

namespace EntityOptions

def entries (self : EntityOptions) : List (String × Json) :=
  [("drop_fields", .ofStrings self.dropFields),
    ("drop_after_processing_fields", .ofStrings self.dropAfterProcessingFields),
    ("parent_field", .ofOption .str self.parentField),
    ("parent_type", .ofOption .str self.parentType),
    ("include_parent_fields", .ofOption .bool self.includeParentFields),
    ("custom", .ofOption .bool self.custom),
    ("abstract", .ofOption .bool self.isAbstract),
    ("rename", .arr (self.rename.map Substitution.toJson)),
    ("coalesce_fields", .arr (self.coalesceFields.map Substitution.toJson)),
    ("flatten_fields", .ofStrings self.flattenFields),
    ("flatten_prefixes", .ofStrings self.flattenPrefixes),
    ("array_fields", .ofStrings self.arrayFields),
    ("many_to_many_fields", .ofStrings self.manyToManyFields),
    ("many_to_many_field_overrides", .arr (self.manyToManyOverrides.map TargetOverride.toJson)),
    ("one_to_many_fields", .ofStrings self.oneToManyFields),
    ("one_to_many_field_overrides", .arr (self.oneToManyOverrides.map TargetOverride.toJson)),
    ("one_to_one_fields", .ofStrings self.oneToOneFields),
    ("json_fields", .ofStrings self.jsonFields),
    ("foreign_key_overrides", .arr (self.foreignKeyOverrides.map TargetOverride.toJson)),
    ("reference_extension_fields", .ofStrings self.referenceExtensionFields),
    ("null_fields", .ofStrings self.nullFields),
    ("primary_key", .ofOption .str self.primaryKey),
    ("unique_fields", .ofStrings self.uniqueFields),
    ("index_fields", .ofStrings self.indexFields),
    ("override_field_kind", .arr (self.kindOverrides.map KindOverride.toJson)),
    ("field_options", .arr (self.fieldOptions.map FieldOverride.toJson)),
    ("field_docs", .arr (self.fieldDocs.map FieldDoc.toJson)),
    ("add_fields", .arr (self.addFields.map ExtraField.toJson)),
    ("number_field", .ofOption .str self.numberField),
    ("match_fields", .ofStrings self.matchFields),
    ("ignore_merge_mismatch_fields", .ofStrings self.ignoreMergeMismatchFields)]

def toJson (self : EntityOptions) : Json := .obj self.entries

/-- The keys of the options. -/
def keys : List String := none.entries.map (·.1)

def ofJson (read : ValueReader) (value : Json) : Decoded EntityOptions := do
  let record ← Record.ofJson keys value
  let texts := Json.asList read.text
  let substitutions := Json.asList (Substitution.ofJson read)
  let targets := Json.asList (TargetOverride.ofJson read)
  return {
    dropFields := ← record.defaulted "drop_fields" [] texts
    dropAfterProcessingFields := ← record.defaulted "drop_after_processing_fields" [] texts
    parentField := ← record.optional "parent_field" read.text
    parentType := ← record.optional "parent_type" read.text
    includeParentFields := ← record.optional "include_parent_fields" read.flag
    custom := ← record.optional "custom" read.flag
    isAbstract := ← record.optional "abstract" read.flag
    rename := ← record.defaulted "rename" [] substitutions
    coalesceFields := ← record.defaulted "coalesce_fields" [] substitutions
    flattenFields := ← record.defaulted "flatten_fields" [] texts
    flattenPrefixes := ← record.defaulted "flatten_prefixes" [] texts
    arrayFields := ← record.defaulted "array_fields" [] texts
    manyToManyFields := ← record.defaulted "many_to_many_fields" [] texts
    manyToManyOverrides := ← record.defaulted "many_to_many_field_overrides" [] targets
    oneToManyFields := ← record.defaulted "one_to_many_fields" [] texts
    oneToManyOverrides := ← record.defaulted "one_to_many_field_overrides" [] targets
    oneToOneFields := ← record.defaulted "one_to_one_fields" [] texts
    jsonFields := ← record.defaulted "json_fields" [] texts
    foreignKeyOverrides := ← record.defaulted "foreign_key_overrides" [] targets
    referenceExtensionFields := ← record.defaulted "reference_extension_fields" [] texts
    nullFields := ← record.defaulted "null_fields" [] texts
    primaryKey := ← record.optional "primary_key" read.text
    uniqueFields := ← record.defaulted "unique_fields" [] texts
    indexFields := ← record.defaulted "index_fields" [] texts
    kindOverrides := ←
      record.defaulted "override_field_kind" [] (Json.asList (KindOverride.ofJson read))
    fieldOptions := ←
      record.defaulted "field_options" [] (Json.asList (FieldOverride.ofJson read))
    fieldDocs := ← record.defaulted "field_docs" [] (Json.asList (FieldDoc.ofJson read))
    addFields := ← record.defaulted "add_fields" [] (Json.asList (ExtraField.ofJson read))
    numberField := ← record.optional "number_field" read.text
    matchFields := ← record.defaulted "match_fields" [] texts
    ignoreMergeMismatchFields := ← record.defaulted "ignore_merge_mismatch_fields" [] texts }

end EntityOptions

namespace TypeOverlay

def toJson (self : TypeOverlay) : Json :=
  .obj (("pattern", .str self.pattern) :: self.options.entries)

/-- The options stand in one object with the pattern, and are read exactly. -/
def ofJson (read : ValueReader) (value : Json) : Decoded TypeOverlay := do
  let record ← Record.ofObject ["pattern"] value
  return {
    pattern := ← record.required "pattern" read.text
    options := ← EntityOptions.ofJson .exact value }

end TypeOverlay

namespace EntityRules

def toJson (self : EntityRules) : Json :=
  .obj ([("name", .str self.name)] ++ self.options.entries
    ++ [("if_type", .arr (self.overlays.map TypeOverlay.toJson))])

/-- The options stand in one object with the name, and are read exactly. -/
def ofJson (read : ValueReader) (value : Json) : Decoded EntityRules := do
  let record ← Record.ofObject ["name", "if_type"] value
  return {
    name := ← record.required "name" read.text
    overlays := ← record.defaulted "if_type" [] (Json.asList (TypeOverlay.ofJson read))
    options := ← EntityOptions.ofJson .exact value }

end EntityRules

namespace TypeOverride

def toJson (self : TypeOverride) : Json :=
  .obj [
    ("type", .str self.typeName),
    ("kind", self.kind.toJson),
    ("max_length", .ofOption .ofNat self.maxLength),
    ("max_digits", .ofOption .ofNat self.maxDigits),
    ("decimal_places", .ofOption .ofNat self.decimalPlaces)]

def ofJson (read : ValueReader) (value : Json) : Decoded TypeOverride := do
  let record ← Record.ofJson ["type", "kind", "max_length", "max_digits", "decimal_places"] value
  return {
    typeName := ← record.required "type" read.text
    kind := ← record.required "kind" read.kind
    maxLength := ← record.optional "max_length" read.count
    maxDigits := ← record.optional "max_digits" read.count
    decimalPlaces := ← record.optional "decimal_places" read.count }

end TypeOverride

namespace CompilerSettings

def toJson (self : CompilerSettings) : Json :=
  .obj [
    ("roots", .ofStrings self.roots),
    ("max_length_factor", .ofNat self.maxLengthFactor),
    ("text_threshold", .ofNat self.textThreshold),
    ("identifier_limit", .ofNat self.identifierLimit),
    ("bag_field_name", .str self.bagFieldName)]

def ofJson (read : ValueReader) (value : Json) : Decoded CompilerSettings := do
  let record ← Record.ofJson
    ["roots", "max_length_factor", "text_threshold", "identifier_limit", "bag_field_name"] value
  return {
    roots := ← record.defaulted "roots" [] (Json.asList read.text)
    maxLengthFactor := ← record.defaulted "max_length_factor" standard.maxLengthFactor read.count
    textThreshold := ← record.defaulted "text_threshold" standard.textThreshold read.count
    identifierLimit := ← record.defaulted "identifier_limit" standard.identifierLimit read.size
    bagFieldName := ← record.defaulted "bag_field_name" standard.bagFieldName read.text }

end CompilerSettings

namespace Settings

def toJson (self : Settings) : Json :=
  .obj [
    ("compiler", self.compiler.toJson),
    ("type_map", .arr (self.typeMap.map NamingRule.toJson)),
    ("global", self.global.toJson),
    ("entities", .arr (self.entities.map EntityRules.toJson)),
    ("type_overrides", .arr (self.typeOverrides.map TypeOverride.toJson))]

def ofJson (read : ValueReader) (value : Json) : Decoded Settings := do
  let record ← Record.ofJson ["compiler", "type_map", "global", "entities", "type_overrides"] value
  return {
    compiler := ← record.defaulted "compiler" .standard (CompilerSettings.ofJson read)
    typeMap := ← record.defaulted "type_map" [] (Json.asList (NamingRule.ofJson read))
    global := ← record.defaulted "global" .none (EntityOptions.ofJson read)
    entities := ← record.defaulted "entities" [] (Json.asList (EntityRules.ofJson read))
    typeOverrides :=
      ← record.defaulted "type_overrides" [] (Json.asList (TypeOverride.ofJson read)) }

end Settings

end EntityGraph
