import EntityGraph.Proofs.Entity.Text
import EntityGraph.Proofs.Json.Blurring

/-!
# Entities known from their JSON

Different entities have different JSON: what is left out for one value is never left out for
another. The text of the JSON does not tell infinities and NaN from each other, so it tells entities
apart up to these, and entirely where there are none.
-/
namespace EntityGraph

open Json (Alike AlikeAt lastOf blur blurMembers)
open Schema (MaxOccurs)

/-! ## The JSON determines the entity -/

theorem alikeAt_of_eq {key : String} {left right : List (String × Json)}
    (same : lastOf key left = lastOf key right) : AlikeAt key left right :=
  congrArg (Option.map Json.sortKeys) same

theorem MergeNote.toJson_injective {left right : MergeNote}
    (alike : Alike left.toJson right.toJson) : left = right := by
  have kinds : Alike (.str left.kindName) (.str right.kindName) :=
    Option.some.inj (alike.at "kind")
  have types : Alike (.ofStrings left.types) (.ofStrings right.types) :=
    Option.some.inj (alike.at "types")
  have sameTypes := types.list fun _ _ _ _ => str_injective
  have sameKind := str_injective kinds
  cases left <;> cases right <;>
    simp only [MergeNote.kindName, MergeNote.types, String.reduceEq] at sameKind sameTypes <;>
    rw [sameTypes]

namespace FieldKind

/-- The entries of a kind tell what its outline leaves out. -/
theorem eq_of_lastOf {left right : FieldKind} (category : left.category = right.category)
    (same : ∀ key ∈ payloadKeys, lastOf key left.payload = lastOf key right.payload) :
    left = right := by
  have outlines := outline_eq_of_alikeAt category fun key member _ =>
    alikeAt_of_eq (same key member)
  -- The outline leaves out the name of the other end and the entries of a bag.
  have names := same "related_name" (by decide)
  have bags := same "entries" (by decide)
  have texts {left right : Option String} (same : left.map Json.str = right.map Json.str) :
      left = right := Option.map_injective (fun _ _ => Json.str.inj) same
  cases left with
  | toOne target oneToOne onDelete relatedName =>
    cases right with
    | toOne other otherOneToOne otherOnDelete otherName =>
      obtain ⟨rfl, rfl, rfl, -⟩ := FieldKind.toOne.inj outlines
      simp only [payload, Json.lastOf_append, Json.lastOf_singleton, lastOf_flagEntry,
        lastOf_optionalEntry, String.reduceEq, if_true, if_false, Option.or_none] at names
      rw [texts names]
    | _ => cases outlines
  | manyToMany target relatedName =>
    cases right with
    | manyToMany other otherName =>
      obtain ⟨rfl, -⟩ := FieldKind.manyToMany.inj outlines
      simp only [payload, Json.lastOf_append, Json.lastOf_singleton, lastOf_optionalEntry,
        String.reduceEq, if_true, if_false, Option.or_none] at names
      rw [texts names]
    | _ => cases outlines
  | jsonBag entries =>
    cases right with
    | jsonBag other =>
      have members := Json.obj.inj (Option.some.inj bags)
      have injective : Function.Injective fun entry : String × String =>
          (entry.1, Json.str entry.2) := by
        intro entry other same
        obtain ⟨keys, docs⟩ := Prod.mk.inj same
        exact Prod.ext keys (Json.str.inj docs)
      rw [(List.map_injective_iff.mpr injective) members]
    | _ => cases outlines
  | _ => cases right <;> first | exact outlines | cases outlines

end FieldKind

attribute [ext] Field Entity

/-- Fields with the same JSON are equal. -/
theorem Field.toJson_injective {left right : Field} (same : left.toJson = right.toJson) :
    left = right := by
  have here := Compile.enters_fieldEntries left
  have there := Compile.enters_fieldEntries right
  rw [Compile.toJson_eq, Compile.toJson_eq] at same
  have entries : Compile.fieldEntries left = Compile.fieldEntries right := Json.obj.inj same
  rw [entries] at here
  have flag {left right : Bool} (same : flagValue left = flagValue right) : left = right :=
    flagValue_injective (congrArg _ same)
  have list {α : Type} {encode : α → Json} {left right : List α}
      (injective : ∀ a b, Alike (encode a) (encode b) → a = b)
      (same : listValue encode left = listValue encode right) : left = right :=
    listValue_injective injective (congrArg _ same)
  -- An empty path is left out, and no other path is.
  have path : left.dottedPath = right.dottedPath := by
    have paths := here.dottedPath.symm.trans there.dottedPath
    unfold Compile.pathValue at paths
    by_cases leftEmpty : left.dottedPath.isEmpty = true <;>
      by_cases rightEmpty : right.dottedPath.isEmpty = true
    · rw [String.isEmpty_iff.mp leftEmpty, String.isEmpty_iff.mp rightEmpty]
    · simp [leftEmpty, rightEmpty] at paths
    · simp [leftEmpty, rightEmpty] at paths
    · simpa [leftEmpty, rightEmpty] using paths
  refine Field.ext ?_ path ?_ ?_ ?_ ?_ ?_ ?_ ?_ ?_ ?_ ?_
  · exact Json.str.inj (Option.some.inj (here.name.symm.trans there.name))
  · refine FieldKind.eq_of_lastOf ?_ fun key member => ?_
    · exact Json.str.inj (Option.some.inj (here.category.symm.trans there.category))
    · exact (here.payload key member).symm.trans (there.payload key member)
  · exact flag (here.nullable.symm.trans there.nullable)
  · exact list (fun _ _ => str_injective) (here.documentation.symm.trans there.documentation)
  · exact list (fun _ _ => MergeNote.toJson_injective) (here.notes.symm.trans there.notes)
  · exact map_injective (fun _ _ => ofNat_injective)
      (congrArg _ (here.choiceGroup.symm.trans there.choiceGroup))
  · exact occursValue_injective (congrArg _ (here.maxOccurs.symm.trans there.maxOccurs))
  · exact map_injective (fun _ _ => str_injective)
      (congrArg _ (here.coalescedFrom.symm.trans there.coalescedFrom))
  · exact flag (here.primaryKey.symm.trans there.primaryKey)
  · exact flag (here.unique.symm.trans there.unique)
  · exact flag (here.dbIndex.symm.trans there.dbIndex)

/-- Entities with the same JSON are equal. -/
theorem Entity.toJson_injective {left right : Entity} (same : left.toJson = right.toJson) :
    left = right := by
  have entries : left.entries = right.entries := Json.obj.inj same
  have here := lastOf_entries left
  rw [entries] at here
  obtain ⟨name, sourceTypes, parent, fields, isAbstract, documentation, dependencies, numberField,
    matchFields, imports⟩ := here
  obtain ⟨name', sourceTypes', parent', fields', isAbstract', documentation', dependencies',
    numberField', matchFields', imports'⟩ := lastOf_entries right
  have strings {key : String} {values others : List String}
      (entered : lastOf key right.entries = some (.ofStrings values))
      (entered' : lastOf key right.entries = some (.ofStrings others)) : values = others := by
    have lists := Json.arr.inj (Option.some.inj (entered.symm.trans entered'))
    exact (List.map_injective_iff.mpr fun _ _ => Json.str.inj) lists
  have texts {key : String} {values others : List String}
      (entered : lastOf key right.entries = listValue .str values)
      (entered' : lastOf key right.entries = listValue .str others) : values = others :=
    listValue_injective (fun _ _ => str_injective) (congrArg _ (entered.symm.trans entered'))
  have optional {key : String} {value other : Option String}
      (entered : lastOf key right.entries = value.map .str)
      (entered' : lastOf key right.entries = other.map .str) : value = other :=
    map_injective (fun _ _ => str_injective) (congrArg _ (entered.symm.trans entered'))
  refine Entity.ext ?_ (strings sourceTypes sourceTypes') (optional parent parent') ?_ ?_
    (texts documentation documentation') (strings dependencies dependencies')
    (optional numberField numberField') (texts matchFields matchFields') ?_
  · exact Json.str.inj (Option.some.inj (name.symm.trans name'))
  · have lists := Json.arr.inj (Option.some.inj (fields.symm.trans fields'))
    exact (List.map_injective_iff.mpr fun _ _ => Field.toJson_injective) lists
  · exact flagValue_injective (congrArg _ (isAbstract.symm.trans isAbstract'))
  · have same := Option.some.inj (imports.symm.trans imports')
    obtain ⟨decimals, dates⟩ : left.imports.decimal = right.imports.decimal ∧
        left.imports.date = right.imports.date := by simpa [Imports.toJson] using same
    exact congrArg₂ Imports.mk decimals dates

/-! ## Blurred doubles -/

/-- A double that is no number. -/
def nan : Float := 0 / 0

theorem isFinite_nan : nan.isFinite = false := by decide +kernel

/-- The literal with `nan` for a double that is not finite. -/
def Literal.blurred : Literal → Literal
  | float value => float (if value.isFinite then value else nan)
  | literal => literal

def Validator.blurred : Validator → Validator
  | minValue value exclusive => minValue value.blurred exclusive
  | maxValue value exclusive => maxValue value.blurred exclusive
  | validator => validator

def ScalarRepr.blurred (repr : ScalarRepr) : ScalarRepr :=
  { repr with
    validators := repr.validators.map Validator.blurred
    defaultValue := repr.defaultValue.map Literal.blurred }

def Field.blurred (field : Field) : Field :=
  { field with kind := field.kind.mapRepr ScalarRepr.blurred }

/-- The entity with `nan` for every double that is not finite. -/
def Entity.blurred (entity : Entity) : Entity :=
  { entity with fields := entity.fields.map Field.blurred }

theorem Literal.blur_toJson (literal : Literal) :
    blur (.float nan) literal.toJson = literal.blurred.toJson := by
  rw [toJson, blur, blurMembers, blurMembers, blurMembers, Json.blur_str]
  cases literal with
  | float value =>
    rw [valueJson, blur, blurred, toJson, valueJson]
    split <;> rfl
  | boolean | integer | decimal | date | dateTime | text => simp [valueJson, blurred, toJson]

theorem Validator.blur_toJson (validator : Validator) :
    blur (.float nan) validator.toJson = validator.blurred.toJson := by
  have bound (value : Literal) (exclusive : Bool) :
      blur (.float nan) (boundJson value exclusive) = boundJson value.blurred exclusive := by
    rw [boundJson, blur, blurMembers, blurMembers_flagEntry, value.blur_toJson, boundJson]
  cases validator <;>
    simp [toJson, blurred, blur, blurMembers, bound]

theorem Choice.blur_toJson {blank : Json} (choice : Choice) :
    blur blank choice.toJson = choice.toJson := by
  simp [toJson, blur, blurMembers]

theorem ScalarKind.blur_toJson {blank : Json} (kind : ScalarKind) :
    blur blank kind.toJson = kind.toJson := by
  cases kind <;> simp [toJson, blur, blurMembers]

theorem MergeNote.blur_toJson {blank : Json} (note : MergeNote) :
    blur blank note.toJson = note.toJson := by
  simp [toJson, blur, blurMembers]

/-- Only the literals of a scalar can be blurred. -/
theorem ScalarRepr.blur_entries (repr : ScalarRepr) :
    blurMembers (.float nan) repr.entries = repr.blurred.entries := by
  simp only [entries, blurMembers_append, blurMembers, ScalarKind.blur_toJson,
    blurMembers_optionalEntry_of_kept Json.blur_str,
    blurMembers_optionalEntry_of_kept Json.blur_ofNat,
    blurMembers_listEntry_of_kept Choice.blur_toJson,
    blurMembers_listEntry Validator.blurred Validator.blur_toJson, blurMembers_flagEntry,
    blurMembers_optionalEntry Literal.blurred Literal.blur_toJson]
  rfl

theorem FieldKind.blur_payload (kind : FieldKind) :
    blurMembers (.float nan) kind.payload = (kind.mapRepr ScalarRepr.blurred).payload := by
  cases kind with
  | scalar repr | collection repr => exact repr.blur_entries
  | jsonBag entries =>
    have bag : blur (.float nan) entries.toJson = entries.toJson := by
      rw [Bag.toJson, blur, Json.blurMembers_eq, List.map_map]
      exact congrArg Json.obj (List.map_congr_left fun _ _ => by simp)
    simp only [payload, mapRepr, blurMembers, bag]
  | _ =>
    simp only [payload, mapRepr, blurMembers_append, blurMembers_flagEntry,
      blurMembers_optionalEntry_of_kept Json.blur_str, blurMembers, Json.blur_str]

theorem FieldKind.category_mapRepr (change : ScalarRepr → ScalarRepr) (kind : FieldKind) :
    (kind.mapRepr change).category = kind.category := by
  cases kind <;> rfl

theorem Field.blur_toJson (field : Field) :
    blur (.float nan) field.toJson = field.blurred.toJson := by
  have occurs : blur (.float nan) field.maxOccurs.toJson = field.maxOccurs.toJson := by
    cases field.maxOccurs <;> simp [MaxOccurs.toJson]
  have ite (condition : Bool) {key : String} {value : Json}
      (kept : blur (.float nan) value = value) :
      blurMembers (.float nan) (if condition = true then [] else [(key, value)]) =
        if condition = true then [] else [(key, value)] := by
    cases condition <;> simp [blurMembers, kept]
  simp only [toJson, FieldKind.entries, blur, blurMembers_append, blurMembers,
    ite _ (Json.blur_str _), ite _ occurs, FieldKind.blur_payload, blurMembers_flagEntry,
    blurMembers_optionalEntry_of_kept Json.blur_str,
    blurMembers_optionalEntry_of_kept Json.blur_ofNat,
    blurMembers_listEntry_of_kept Json.blur_str,
    blurMembers_listEntry_of_kept MergeNote.blur_toJson]
  simp only [blurred, FieldKind.category_mapRepr]
  rfl

theorem Entity.blur_toJson (entity : Entity) :
    blur (.float nan) entity.toJson = entity.blurred.toJson := by
  have imports : blur (.float nan) entity.imports.toJson = entity.imports.toJson := by
    simp [Imports.toJson, blur, blurMembers]
  have fields := Json.blur_map Field.blurred Field.blur_toJson entity.fields
  simp only [toJson, blur, blurMembers_append, blurMembers, Json.blur_ofStrings, imports,
    blurMembers_flagEntry, blurMembers_optionalEntry_of_kept Json.blur_str,
    blurMembers_listEntry_of_kept Json.blur_str]
  rw [← blur, fields]
  rfl

/-! ## Without infinities and NaN -/

theorem Literal.blurred_of_finite {literal : Literal}
    (finite : ∀ value ∈ literal.doubles, value.isFinite = true) : literal.blurred = literal := by
  cases literal with
  | float value => rw [blurred, if_pos (finite value List.mem_cons_self)]
  | _ => rfl

theorem Validator.blurred_of_finite {validator : Validator}
    (finite : ∀ value ∈ validator.doubles, value.isFinite = true) :
    validator.blurred = validator := by
  cases validator with
  | minValue value exclusive | maxValue value exclusive =>
    rw [blurred, Literal.blurred_of_finite finite]
  | _ => rfl

theorem ScalarRepr.blurred_of_finite {repr : ScalarRepr}
    (finite : ∀ value ∈ repr.doubles, value.isFinite = true) : repr.blurred = repr := by
  obtain ⟨bounds, default⟩ := List.forall_mem_append.mp finite
  have validators : repr.validators.map Validator.blurred = repr.validators := by
    refine (List.map_congr_left fun validator member => ?_).trans (List.map_id _)
    exact Validator.blurred_of_finite fun value inside =>
      bounds value (List.mem_flatMap.mpr ⟨validator, member, inside⟩)
  have defaultValue : repr.defaultValue.map Literal.blurred = repr.defaultValue := by
    cases given : repr.defaultValue with
    | none => rfl
    | some literal =>
      refine congrArg some (Literal.blurred_of_finite fun value inside => ?_)
      exact default value (List.mem_flatMap.mpr ⟨literal, by simp [given], inside⟩)
  rw [blurred, validators, defaultValue]

theorem Field.blurred_of_finite {field : Field}
    (finite : ∀ value ∈ field.kind.doubles, value.isFinite = true) : field.blurred = field := by
  have kind : field.kind.mapRepr ScalarRepr.blurred = field.kind := by
    cases given : field.kind with
    | scalar repr | collection repr =>
      rw [FieldKind.mapRepr, ScalarRepr.blurred_of_finite]
      simpa [FieldKind.doubles, FieldKind.repr?, given] using finite
    | _ => rfl
  rw [blurred, kind]

theorem Entity.blurred_of_finite {entity : Entity}
    (finite : ∀ value ∈ entity.doubles, value.isFinite = true) : entity.blurred = entity := by
  have fields : entity.fields.map Field.blurred = entity.fields := by
    refine (List.map_congr_left fun field member => ?_).trans (List.map_id _)
    exact Field.blurred_of_finite fun value inside =>
      finite value (List.mem_flatMap.mpr ⟨field, member, inside⟩)
  rw [blurred, fields]

end EntityGraph
