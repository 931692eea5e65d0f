import EntityGraph.Proofs.Calendar.Reading
import EntityGraph.Proofs.Entity
import EntityGraph.Proofs.Merge.Comparison
import EntityGraph.Proofs.Schema.Codec

/-!
# Entities read back from their JSON

Decoding undoes encoding. The keys of a field, of its kind and of its scalar stand side by side in
one object; they are all different, so what stands under a key is what was entered there, and a key
that is left out stands for the value that it is left out for.
-/
namespace EntityGraph

open Json (Record lastOf asList_map)
open Schema (MaxOccurs)

/-! ## What the types of an entity hold -/

/-- An integer fits 64 bits. -/
def Literal.IsStorable : Literal → Prop
  | integer value => Decimal.isSigned value = true
  | _ => True

def Validator.IsStorable : Validator → Prop
  | minLength length => length ≤ Decimal.maxCount
  | minValue value _ | maxValue value _ => value.IsStorable
  | regex _ => True

structure ScalarRepr.IsStorable (repr : ScalarRepr) : Prop where
  maxLength : ∀ count ∈ repr.maxLength, count ≤ Decimal.maxCount
  maxDigits : ∀ count ∈ repr.maxDigits, count ≤ Decimal.maxCount
  decimalPlaces : ∀ count ∈ repr.decimalPlaces, count ≤ Decimal.maxCount
  validators : ∀ validator ∈ repr.validators, validator.IsStorable
  defaultValue : ∀ value ∈ repr.defaultValue, value.IsStorable

def FieldKind.IsStorable : FieldKind → Prop
  | scalar repr | collection repr => repr.IsStorable
  | jsonBag entries => Table.Sorted entries
  | _ => True

structure Field.IsStorable (field : Field) : Prop where
  kind : field.kind.IsStorable
  choiceGroup : ∀ group ∈ field.choiceGroup, group ≤ Decimal.maxCount
  maxOccurs : field.maxOccurs.IsStorable

/-- Counts fit 32 bits and integers 64 bits; the paths of bags and the dependencies are in order. -/
structure Entity.IsStorable (entity : Entity) : Prop where
  fields : ∀ field ∈ entity.fields, field.IsStorable
  dependencies : entity.IsSorted

section Decidable

instance : DecidablePred Literal.IsStorable
  | .integer value => inferInstanceAs (Decidable (Decimal.isSigned value = true))
  | .boolean _ | .decimal _ | .float _ | .date _ | .dateTime _ | .text _ => .isTrue trivial

instance : DecidablePred Validator.IsStorable
  | .minLength length => inferInstanceAs (Decidable (length ≤ Decimal.maxCount))
  | .minValue value _ | .maxValue value _ => inferInstanceAs (Decidable value.IsStorable)
  | .regex _ => .isTrue trivial

instance : DecidablePred ScalarRepr.IsStorable := fun repr =>
  decidable_of_iff ((∀ count ∈ repr.maxLength, count ≤ Decimal.maxCount) ∧
      (∀ count ∈ repr.maxDigits, count ≤ Decimal.maxCount) ∧
      (∀ count ∈ repr.decimalPlaces, count ≤ Decimal.maxCount) ∧
      (∀ validator ∈ repr.validators, validator.IsStorable) ∧
      ∀ value ∈ repr.defaultValue, value.IsStorable)
    ⟨fun ⟨length, digits, places, bounds, value⟩ => ⟨length, digits, places, bounds, value⟩,
      fun ⟨length, digits, places, bounds, value⟩ => ⟨length, digits, places, bounds, value⟩⟩

instance : DecidablePred FieldKind.IsStorable
  | .scalar repr | .collection repr => inferInstanceAs (Decidable repr.IsStorable)
  | .jsonBag entries => inferInstanceAs (Decidable (Table.Sorted entries))
  | .toOne .. | .reverseOneToMany .. | .reverseOneToOne .. | .manyToMany .. | .dropped
  | .parentAlias | .coalescedAlias _ => .isTrue trivial

instance : DecidablePred Field.IsStorable := fun field =>
  decidable_of_iff (field.kind.IsStorable ∧
      (∀ group ∈ field.choiceGroup, group ≤ Decimal.maxCount) ∧ field.maxOccurs.IsStorable)
    ⟨fun ⟨kind, group, occurs⟩ => ⟨kind, group, occurs⟩,
      fun ⟨kind, group, occurs⟩ => ⟨kind, group, occurs⟩⟩

instance : DecidablePred Entity.IsStorable := fun entity =>
  decidable_of_iff ((∀ field ∈ entity.fields, field.IsStorable) ∧
      entity.dependencies.Pairwise (· < ·))
    ⟨fun ⟨fields, sorted⟩ => ⟨fields, sorted⟩, fun ⟨fields, sorted⟩ => ⟨fields, sorted⟩⟩

end Decidable

/-! ## Parts of scalars -/

theorem ScalarKind.ofJson_toJson (kind : ScalarKind) : ofJson kind.toJson = .ok kind := by
  cases kind <;> rfl

theorem Literal.ofJson_toJson {literal : Literal} (storable : literal.IsStorable) :
    ofJson literal.toJson = .ok literal := by
  cases literal with
  | boolean value => simp [ofJson, toJson, typeName, valueJson, Json.asString, Json.asBool]
  | integer value =>
    have word : Json.asWord (.int value) = .ok value := if_pos storable
    simp [ofJson, toJson, typeName, valueJson, Json.asString, word]
  | decimal text => simp [ofJson, toJson, typeName, valueJson, Json.asString]
  | float value => simp [ofJson, toJson, typeName, valueJson, Json.asString, Json.asFloat]
  | date value =>
    simp [ofJson, toJson, typeName, valueJson, dateOfJson, Json.asString, Date.parse?_text]
  | dateTime value =>
    simp [ofJson, toJson, typeName, valueJson, dateTimeOfJson, Json.asString,
      DateTime.parse?_text]
  | text value => simp [ofJson, toJson, typeName, valueJson, Json.asString]

theorem Choice.ofJson_toJson (choice : Choice) : ofJson choice.toJson = .ok choice := by
  simp [ofJson, toJson, Json.asString]

namespace Validator

theorem boundOfJson_boundJson {value : Literal} (storable : value.IsStorable) (exclusive : Bool) :
    boundOfJson (boundJson value exclusive) = .ok (value, exclusive) := by
  have read := Literal.ofJson_toJson storable
  cases exclusive <;> simp [boundOfJson, boundJson, flagEntry, Json.asBool, read]

theorem ofJson_toJson {validator : Validator} (storable : validator.IsStorable) :
    ofJson validator.toJson = .ok validator := by
  cases validator with
  | minLength length => exact congrArg (Except.map minLength) (Json.asNat_ofNat storable)
  | regex pattern => rfl
  | minValue value exclusive =>
    exact congrArg (Except.map fun bound => minValue bound.1 bound.2)
      (boundOfJson_boundJson storable exclusive)
  | maxValue value exclusive =>
    exact congrArg (Except.map fun bound => maxValue bound.1 bound.2)
      (boundOfJson_boundJson storable exclusive)

end Validator

/-! ## Scalars -/

namespace ScalarRepr

/-- A scalar is read from any entries that have its keys. -/
theorem ofJson_of_lastOf {repr : ScalarRepr} {entries : List (String × Json)}
    (distinct : (keysOf entries).Nodup)
    (same : ∀ key ∈ keys, lastOf key entries = lastOf key repr.entries)
    (storable : repr.IsStorable) : ofJson (.obj entries) = .ok repr := by
  obtain ⟨kind, sourceType, maxLength, maxDigits, decimalPlaces, choices, validators, notBlank,
    defaultValue⟩ := lastOf_entries repr
  -- What stands under each key is what the entries of the scalar have there.
  simp only [keys, List.forall_mem_cons, kind, sourceType, maxLength, maxDigits, decimalPlaces,
    choices, validators, notBlank, defaultValue] at same
  obtain ⟨kind, sourceType, maxLength, maxDigits, decimalPlaces, choices, validators, notBlank,
    defaultValue, -⟩ := same
  have kindRead : Record.required ⟨entries⟩ "kind" ScalarKind.ofJson = .ok repr.kind :=
    (Record.required_eq distinct kind).trans repr.kind.ofJson_toJson
  have choicesRead := Record.defaulted_list distinct choices fun choice _ => choice.ofJson_toJson
  have validatorsRead := Record.defaulted_list distinct validators fun validator member =>
    Validator.ofJson_toJson (storable.validators validator member)
  have defaultRead : Record.optional ⟨entries⟩ "default" Literal.ofJson = .ok repr.defaultValue :=
    Record.optional_eq distinct defaultValue fun value has =>
      ⟨Literal.ofJson_toJson (storable.defaultValue value has), fun null => by cases null⟩
  simp [ofJson, Record.ofJson_obj distinct, kindRead, Record.optional_str distinct sourceType,
    Record.optional_count distinct maxLength storable.maxLength,
    Record.optional_count distinct maxDigits storable.maxDigits,
    Record.optional_count distinct decimalPlaces storable.decimalPlaces, choicesRead,
    validatorsRead, Record.defaulted_flag distinct notBlank, defaultRead]

end ScalarRepr

/-! ## Kinds -/

theorem OnDelete.ofJson_text (action : OnDelete) : ofJson (.str action.text) = .ok action := by
  cases action <;> rfl

namespace FieldKind

/-- A kind is read from any entries that have its category and its keys. -/
theorem ofJson_of_lastOf {kind : FieldKind} {entries : List (String × Json)}
    (distinct : (keysOf entries).Nodup)
    (category : lastOf "category" entries = some (.str kind.category))
    (same : ∀ key ∈ payloadKeys, lastOf key entries = lastOf key kind.payload)
    (storable : kind.IsStorable) : ofJson (.obj entries) = .ok kind := by
  have opened (keys : List String) := Record.ofObject_obj distinct keys
  have categoryRead := Record.required_str distinct category
  have scalarRead {repr : ScalarRepr} (storable : repr.IsStorable)
      (same : ∀ key ∈ payloadKeys, lastOf key entries = lastOf key repr.entries) :
      ScalarRepr.ofJson (.obj entries) = .ok repr :=
    ScalarRepr.ofJson_of_lastOf distinct
      (fun key member => same key (List.mem_append_left _ member)) storable
  have text {key value : String} (entered : lastOf key entries = some (.str value)) :=
    Record.required_str distinct entered
  have optionalText {key : String} {value : Option String}
      (entered : lastOf key entries = value.map .str) := Record.optional_str distinct entered
  have target := same "target" (by decide)
  have relatedName := same "related_name" (by decide)
  have reverseField := same "reverse_field" (by decide)
  cases kind with
  | scalar repr =>
    simp [ofJson, opened, categoryRead, FieldKind.category, scalarRead storable same]
  | collection repr =>
    simp [ofJson, opened, categoryRead, FieldKind.category, scalarRead storable same]
  | toOne other oneToOne onDelete name =>
    have flag := same "one_to_one" (by decide)
    have action := same "on_delete" (by decide)
    simp only [payload, Json.lastOf_append, Json.lastOf_singleton, lastOf_flagEntry,
      lastOf_optionalEntry, String.reduceEq, if_true, if_false, Option.none_or, Option.or_none]
      at target relatedName flag action
    have actionRead : Record.required ⟨entries⟩ "on_delete" OnDelete.ofJson = .ok onDelete :=
      (Record.required_eq distinct action).trans onDelete.ofJson_text
    simp [ofJson, opened, categoryRead, FieldKind.category, text target, optionalText relatedName,
      Record.defaulted_flag distinct flag, actionRead]
  | reverseOneToMany other field =>
    simp [ofJson, opened, categoryRead, FieldKind.category, text target, text reverseField]
  | reverseOneToOne other field =>
    simp [ofJson, opened, categoryRead, FieldKind.category, text target, text reverseField]
  | manyToMany other name =>
    simp only [payload, Json.lastOf_append, Json.lastOf_singleton,
      lastOf_optionalEntry, String.reduceEq, if_true, if_false, Option.none_or, Option.or_none]
      at target relatedName
    simp [ofJson, opened, categoryRead, FieldKind.category, text target, optionalText relatedName]
  | jsonBag bag =>
    have entered := same "entries" (by decide)
    have bagRead : Record.required ⟨entries⟩ "entries" Json.asStringMap = .ok bag :=
      (Record.required_eq distinct entered).trans (Json.asStringMap_obj storable)
    simp [ofJson, opened, categoryRead, FieldKind.category, bagRead]
  | dropped => simp [ofJson, opened, categoryRead, FieldKind.category]
  | parentAlias => simp [ofJson, opened, categoryRead, FieldKind.category]
  | coalescedAlias into =>
    have entered := same "into" (by decide)
    simp [ofJson, opened, categoryRead, FieldKind.category, text entered]

theorem keysOf_payload (kind : FieldKind) : (keysOf kind.payload).Sublist payloadKeys := by
  have scalars (repr : ScalarRepr) : (keysOf repr.entries).Sublist ScalarRepr.keys :=
    keysOf_append (keysOf_append (keysOf_append (keysOf_append (keysOf_append (keysOf_append
      (keysOf_append (keysOf_append (keysOf_single _) (keysOf_optionalEntry _ _))
        (keysOf_optionalEntry _ _)) (keysOf_optionalEntry _ _)) (keysOf_optionalEntry _ _))
      (keysOf_listEntry _ _)) (keysOf_listEntry _ _)) (keysOf_flagEntry _))
      (keysOf_optionalEntry _ _)
  cases kind with
  | scalar repr | collection repr => exact (scalars repr).trans (List.sublist_append_left _ _)
  | toOne target oneToOne onDelete relatedName =>
    exact (keysOf_append (keysOf_append (keysOf_append (keysOf_single _) (keysOf_flagEntry _))
      (keysOf_single _)) (keysOf_optionalEntry _ _)).trans (by decide)
  | reverseOneToMany | reverseOneToOne =>
    exact (by decide : ["target", "reverse_field"].Sublist payloadKeys)
  | manyToMany target relatedName =>
    exact (keysOf_append (keysOf_single _) (keysOf_optionalEntry _ _)).trans (by decide)
  | jsonBag => exact (keysOf_single _).trans (by decide)
  | dropped | parentAlias => exact List.nil_sublist _
  | coalescedAlias => exact (keysOf_single _).trans (by decide)

end FieldKind

/-! ## Fields -/

theorem MergeNote.ofJson_toJson (note : MergeNote) : ofJson note.toJson = .ok note := by
  cases note <;> simp [ofJson, toJson, kindName, types, Json.asString]

namespace Field

theorem distinct_keys (field : Field) : (keysOf (Compile.fieldEntries field)).Nodup := by
  -- The keys are among those of the format, in their order, which are all different.
  have leading : (keysOf (Compile.leadingEntries field)).Sublist (["name"] ++ ["dotted_path"]) :=
    keysOf_append (keysOf_single _) (keysOf_ite _ _)
  have trailing : (keysOf (Compile.trailingEntries field)).Sublist
      (FieldKind.payloadKeys ++ ["nullable"] ++ ["documentation"] ++ ["annotations"] ++
        ["choice_group"] ++ ["max_occurs"] ++ ["coalesced_from"] ++ ["primary_key"] ++ ["unique"] ++
        ["db_index"]) :=
    keysOf_append (keysOf_append (keysOf_append (keysOf_append (keysOf_append (keysOf_append
      (keysOf_append (keysOf_append (keysOf_append field.kind.keysOf_payload (keysOf_flagEntry _))
      (keysOf_listEntry _ _)) (keysOf_listEntry _ _)) (keysOf_optionalEntry _ _)) (keysOf_ite _ _))
      (keysOf_optionalEntry _ _)) (keysOf_flagEntry _)) (keysOf_flagEntry _)) (keysOf_flagEntry _)
  have category : (keysOf [("category", Json.str field.kind.category)]).Sublist ["category"] :=
    keysOf_single _
  exact (keysOf_append leading (keysOf_append category trailing)).nodup (by decide)

theorem ofJson_toJson {field : Field} (storable : field.IsStorable) :
    ofJson field.toJson = .ok field := by
  have distinct := distinct_keys field
  have entered := Compile.enters_fieldEntries field
  have json : field.toJson = .obj (Compile.fieldEntries field) := Compile.toJson_eq field
  have nameRead := Record.required_str distinct entered.name
  have pathRead : Record.defaulted ⟨Compile.fieldEntries field⟩ "dotted_path" "" Json.asString =
      .ok field.dottedPath := by
    rw [Record.defaulted_eq distinct, entered.dottedPath, Compile.pathValue]
    split
    next empty => exact congrArg Except.ok (String.isEmpty_iff.mp empty).symm
    · rfl
  have kindRead := FieldKind.ofJson_of_lastOf distinct entered.category entered.payload
    storable.kind
  have documentationRead := Record.defaulted_strs distinct entered.documentation
  have notesRead := Record.defaulted_list distinct entered.notes fun note _ => note.ofJson_toJson
  have groupRead := Record.optional_count distinct entered.choiceGroup storable.choiceGroup
  have occursRead : Record.defaulted ⟨Compile.fieldEntries field⟩ "max_occurs" .one
      MaxOccurs.ofJson = .ok field.maxOccurs := by
    rw [Record.defaulted_eq distinct, entered.maxOccurs, occursValue]
    split
    next one => exact congrArg Except.ok (beq_iff_eq.mp one).symm
    · exact MaxOccurs.ofJson_toJson storable.maxOccurs
  have coalescedRead := Record.optional_str distinct entered.coalescedFrom
  rw [json]
  simp [ofJson, Record.ofObject_obj distinct, nameRead, pathRead, kindRead, documentationRead,
    notesRead, groupRead, occursRead, coalescedRead,
    Record.defaulted_flag distinct entered.nullable,
    Record.defaulted_flag distinct entered.primaryKey,
    Record.defaulted_flag distinct entered.unique, Record.defaulted_flag distinct entered.dbIndex]

end Field

/-! ## Entities -/

theorem Imports.ofJson_toJson (imports : Imports) : ofJson imports.toJson = .ok imports := by
  simp [ofJson, toJson, Json.asBool]

namespace Entity

/-- The entries of an entity. -/
def entries (entity : Entity) : List (String × Json) :=
  [("name", .str entity.name), ("source_types", .ofStrings entity.sourceTypes)]
    ++ optionalEntry "parent" .str entity.parent
    ++ [("fields", .arr (entity.fields.map Field.toJson))]
    ++ flagEntry "is_abstract" entity.isAbstract
    ++ listEntry "documentation" .str entity.documentation
    ++ [("dependencies", .ofStrings entity.dependencies)]
    ++ optionalEntry "number_field" .str entity.numberField
    ++ listEntry "match_fields" .str entity.matchFields
    ++ [("imports", entity.imports.toJson)]

theorem toJson_eq (entity : Entity) : entity.toJson = .obj entity.entries := rfl

theorem distinct_keys (entity : Entity) : (keysOf entity.entries).Nodup := by
  have named : (keysOf [("name", Json.str entity.name),
      ("source_types", Json.ofStrings entity.sourceTypes)]).Sublist ["name", "source_types"] :=
    List.Sublist.refl _
  have sublist : (keysOf entity.entries).Sublist (["name", "source_types"] ++ ["parent"] ++
      ["fields"] ++ ["is_abstract"] ++ ["documentation"] ++ ["dependencies"] ++ ["number_field"] ++
      ["match_fields"] ++ ["imports"]) :=
    keysOf_append (keysOf_append (keysOf_append (keysOf_append (keysOf_append (keysOf_append
      (keysOf_append (keysOf_append named (keysOf_optionalEntry _ _)) (keysOf_single _))
      (keysOf_flagEntry _)) (keysOf_listEntry _ _)) (keysOf_single _)) (keysOf_optionalEntry _ _))
      (keysOf_listEntry _ _)) (keysOf_single _)
  exact sublist.nodup (by decide)

/-- What stands under the keys of an entity. -/
theorem lastOf_entries (entity : Entity) :
    lastOf "name" entity.entries = some (.str entity.name) ∧
      lastOf "source_types" entity.entries = some (.ofStrings entity.sourceTypes) ∧
      lastOf "parent" entity.entries = entity.parent.map .str ∧
      lastOf "fields" entity.entries = some (.arr (entity.fields.map Field.toJson)) ∧
      lastOf "is_abstract" entity.entries = flagValue entity.isAbstract ∧
      lastOf "documentation" entity.entries = listValue .str entity.documentation ∧
      lastOf "dependencies" entity.entries = some (.ofStrings entity.dependencies) ∧
      lastOf "number_field" entity.entries = entity.numberField.map .str ∧
      lastOf "match_fields" entity.entries = listValue .str entity.matchFields ∧
      lastOf "imports" entity.entries = some entity.imports.toJson := by
  simp [entries, Json.lastOf_append, Json.lastOf_cons]

theorem ofJson_toJson {entity : Entity} (storable : entity.IsStorable) :
    ofJson entity.toJson = .ok entity := by
  have distinct := distinct_keys entity
  obtain ⟨name, sourceTypes, parent, fields, isAbstract, documentation, dependencies, numberField,
    matchFields, imports⟩ := lastOf_entries entity
  have fieldsRead : Record.required ⟨entity.entries⟩ "fields" (Json.asList Field.ofJson) =
      .ok entity.fields :=
    (Record.required_eq distinct fields).trans
      (asList_map fun field member => Field.ofJson_toJson (storable.fields field member))
  have importsRead : Record.required ⟨entity.entries⟩ "imports" Imports.ofJson =
      .ok entity.imports :=
    (Record.required_eq distinct imports).trans entity.imports.ofJson_toJson
  rw [toJson_eq]
  simp [ofJson, Record.ofJson_obj distinct, Record.required_str distinct name,
    Record.required_strs distinct sourceTypes, Record.required_strs distinct dependencies,
    Record.optional_str distinct parent, Record.optional_str distinct numberField,
    Record.defaulted_strs distinct documentation, Record.defaulted_strs distinct matchFields,
    fieldsRead, importsRead, Record.defaulted_flag distinct isAbstract,
    foldl_insertDistinct_of_sorted storable.dependencies]

end Entity

end EntityGraph
