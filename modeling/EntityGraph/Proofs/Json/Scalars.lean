import EntityGraph.Entity.Codec
import EntityGraph.Proofs.Calendar
import EntityGraph.Proofs.Json.Keys

/-!
# The JSON of the parts of a scalar

Kinds, choices, literals and validators are known from their JSON, in whatever order the keys stand.
Literals other than infinities and NaN have finite JSON.
-/
namespace EntityGraph

open Json (Alike AlikeAt lastOf)

/-! ## Finite literals -/

def Literal.IsFinite : Literal → Prop
  | float value => value.isFinite = true
  | _ => True

def Validator.IsFinite : Validator → Prop
  | minValue value _ | maxValue value _ => value.IsFinite
  | _ => True

/-- No bound and no default is an infinity or NaN. -/
structure ScalarRepr.IsFinite (repr : ScalarRepr) : Prop where
  validators : ∀ validator ∈ repr.validators, validator.IsFinite
  defaultValue : ∀ value ∈ repr.defaultValue, value.IsFinite

instance : DecidablePred Literal.IsFinite
  | .float value => inferInstanceAs (Decidable (value.isFinite = true))
  | .boolean _ | .integer _ | .decimal _ | .date _ | .dateTime _ | .text _ => .isTrue trivial

instance : DecidablePred Validator.IsFinite
  | .minValue value _ | .maxValue value _ => inferInstanceAs (Decidable value.IsFinite)
  | .minLength _ | .regex _ => .isTrue trivial

instance : DecidablePred ScalarRepr.IsFinite := fun repr =>
  decidable_of_iff ((∀ validator ∈ repr.validators, validator.IsFinite) ∧
      ∀ value ∈ repr.defaultValue, value.IsFinite)
    ⟨fun finite => ⟨finite.1, finite.2⟩, fun finite => ⟨finite.validators, finite.defaultValue⟩⟩

theorem Literal.IsFinite.toJson {literal : Literal} (finite : literal.IsFinite) :
    literal.toJson.IsFinite := by
  rw [Literal.toJson, Json.isFinite_obj]
  cases literal <;> simp [Literal.valueJson, Json.IsFinite]
  exact finite

/-! ## Entries -/

section Entries

variable {α : Type} {key name : String}

/-- What stands under the key of a flag. -/
def flagValue (value : Bool) : Option Json := if value then some (.bool true) else none

/-- What stands under the key of a list. -/
def listValue (encode : α → Json) (values : List α) : Option Json :=
  if values.isEmpty then none else some (.arr (values.map encode))

@[simp] theorem lastOf_flagEntry (value : Bool) :
    lastOf key (flagEntry name value) = if key = name then flagValue value else none := by
  cases value <;> simp [flagEntry, flagValue, Json.lastOf_singleton]

@[simp] theorem lastOf_optionalEntry (encode : α → Json) (value : Option α) :
    lastOf key (optionalEntry name encode value) =
      if key = name then value.map encode else none := by
  cases value <;> simp [optionalEntry, Json.lastOf_singleton]

@[simp] theorem lastOf_listEntry (encode : α → Json) (values : List α) :
    lastOf key (listEntry name encode values) =
      if key = name then listValue encode values else none := by
  cases values <;> simp [listEntry, listValue, Json.lastOf_singleton]

theorem flagValue_injective {left right : Bool}
    (same : (flagValue left).map Json.sortKeys = (flagValue right).map Json.sortKeys) :
    left = right := by
  cases left <;> cases right <;> first | rfl | cases same

theorem map_injective {encode : α → Json} {left right : Option α}
    (injective : ∀ a b, Alike (encode a) (encode b) → a = b)
    (same : (left.map encode).map Json.sortKeys = (right.map encode).map Json.sortKeys) :
    left = right := by
  cases left with
  | none =>
    cases right with
    | none => rfl
    | some b => cases same
  | some a =>
    cases right with
    | none => cases same
    | some b => rw [injective a b (Option.some.inj same)]

theorem listValue_injective {encode : α → Json} {left right : List α}
    (injective : ∀ a b, Alike (encode a) (encode b) → a = b)
    (same : (listValue encode left).map Json.sortKeys =
      (listValue encode right).map Json.sortKeys) :
    left = right := by
  cases left with
  | nil =>
    cases right with
    | nil => rfl
    | cons b right => cases same
  | cons a left =>
    cases right with
    | nil => cases same
    | cons b right =>
      exact Json.Alike.list (Option.some.inj same) fun a _ b _ => injective a b

/-- All values of the entries have a property. -/
def EntriesAll (holds : Json → Prop) (entries : List (String × Json)) : Prop :=
  ∀ entry ∈ entries, holds entry.2

variable {holds : Json → Prop}

theorem entriesAll_nil : EntriesAll holds [] := List.forall_mem_nil _

theorem EntriesAll.cons {value : Json} {rest : List (String × Json)} (first : holds value)
    (second : EntriesAll holds rest) : EntriesAll holds ((key, value) :: rest) :=
  List.forall_mem_cons.mpr ⟨first, second⟩

theorem EntriesAll.append {left right : List (String × Json)} (first : EntriesAll holds left)
    (second : EntriesAll holds right) : EntriesAll holds (left ++ right) :=
  List.forall_mem_append.mpr ⟨first, second⟩

theorem entriesAll_single {value : Json} (single : holds value) :
    EntriesAll holds [(key, value)] := .cons single entriesAll_nil

theorem entriesAll_ite {condition : Prop} [Decidable condition] {value : Json}
    (single : holds value) : EntriesAll holds (if condition then [] else [(key, value)]) := by
  split
  · exact entriesAll_nil
  · exact entriesAll_single single

theorem entriesAll_flag (value : Bool) (flag : holds (.bool true)) :
    EntriesAll holds (flagEntry key value) := by
  cases value
  · exact entriesAll_nil
  · exact entriesAll_single flag

theorem entriesAll_optional {encode : α → Json} {value : Option α}
    (each : ∀ known ∈ value, holds (encode known)) :
    EntriesAll holds (optionalEntry key encode value) := by
  cases value with
  | none => exact entriesAll_nil
  | some known => exact entriesAll_single (each known rfl)

theorem entriesAll_list {encode : α → Json} {values : List α}
    (list : holds (.arr (values.map encode))) :
    EntriesAll holds (listEntry key encode values) := entriesAll_ite list

end Entries

/-! ## Parts of scalars -/

theorem str_injective {left right : String} (alike : Alike (.str left) (.str right)) :
    left = right := Json.str.inj alike

theorem ofNat_injective {left right : Nat} (alike : Alike (.ofNat left) (.ofNat right)) :
    left = right := Int.ofNat.inj (Json.int.inj alike)

namespace ScalarKind

theorem ofName?_name : ∀ kind ∈ standard, ofName? kind.name = some kind := by decide

theorem mem_standard (kind : ScalarKind) : kind ∈ standard ∨ ∃ name, kind = custom name := by
  cases kind <;> simp [standard]

theorem toJson_of_mem {kind : ScalarKind} (member : kind ∈ standard) :
    kind.toJson = .str kind.name := by
  cases kind <;> first | rfl | simp [standard] at member

theorem toJson_injective {left right : ScalarKind} (alike : Alike left.toJson right.toJson) :
    left = right := by
  rcases mem_standard left with leftStandard | ⟨name, rfl⟩ <;>
    rcases mem_standard right with rightStandard | ⟨other, rfl⟩
  · rw [toJson_of_mem leftStandard, toJson_of_mem rightStandard] at alike
    have kinds := ofName?_name left leftStandard
    rw [str_injective alike, ofName?_name right rightStandard] at kinds
    exact (Option.some.inj kinds).symm
  · rw [toJson_of_mem leftStandard] at alike
    cases alike
  · rw [toJson_of_mem rightStandard] at alike
    cases alike
  · have names := alike.at "custom"
    rw [str_injective (Option.some.inj names)]

end ScalarKind

/-- The type of a literal tells how its value is written. -/
theorem Literal.toJson_injective {left right : Literal} (alike : Alike left.toJson right.toJson) :
    left = right := by
  have types : Alike (.str left.typeName) (.str right.typeName) :=
    Option.some.inj (alike.at "type")
  have values : Alike left.valueJson right.valueJson := Option.some.inj (alike.at "value")
  have sameType := str_injective types
  cases left with
  | boolean value =>
    cases right with
    | boolean other => rw [Json.bool.inj values]
    | _ => simp [Literal.typeName] at sameType
  | integer value =>
    cases right with
    | integer other => rw [Json.int.inj values]
    | _ => simp [Literal.typeName] at sameType
  | decimal value =>
    cases right with
    | decimal other => rw [str_injective values]
    | _ => simp [Literal.typeName] at sameType
  | float value =>
    cases right with
    | float other => rw [Json.float.inj values]
    | _ => simp [Literal.typeName] at sameType
  | date value =>
    cases right with
    | date other => rw [Date.text_injective (str_injective values)]
    | _ => simp [Literal.typeName] at sameType
  | dateTime value =>
    cases right with
    | dateTime other => rw [DateTime.text_injective (str_injective values)]
    | _ => simp [Literal.typeName] at sameType
  | text value =>
    cases right with
    | text other => rw [str_injective values]
    | _ => simp [Literal.typeName] at sameType

theorem Choice.toJson_injective {left right : Choice} (alike : Alike left.toJson right.toJson) :
    left = right := by
  have values : Alike (.str left.value) (.str right.value) := Option.some.inj (alike.at "value")
  have labels : Alike (.str left.label) (.str right.label) := Option.some.inj (alike.at "label")
  exact congrArg₂ Choice.mk (str_injective values) (str_injective labels)

namespace Validator

theorem boundJson_injective {left right : Literal} {leftExclusive rightExclusive : Bool}
    (alike : Alike (boundJson left leftExclusive) (boundJson right rightExclusive)) :
    left = right ∧ leftExclusive = rightExclusive := by
  have values := alike.at "value"
  have flags := alike.at "exclusive"
  simp only [AlikeAt, Json.lastOf_cons, lastOf_flagEntry, String.reduceEq, if_true, if_false,
    Option.none_or, Option.or_none] at values flags
  exact ⟨Literal.toJson_injective (Option.some.inj values), flagValue_injective flags⟩

/-- A validator is an object of one member, whose key tells its form. -/
theorem toJson_injective {left right : Validator} (alike : Alike left.toJson right.toJson) :
    left = right := by
  have single {key other : String} {value otherValue : Json}
      (same : Alike (.obj [(key, value)]) (.obj [(other, otherValue)])) :
      key = other ∧ Alike value otherValue := by
    simpa [Alike, Json.sortKeys, Json.sortMembers, Table.ofList, Table.set] using same
  cases left with
  | minLength length =>
    cases right with
    | minLength other => rw [ofNat_injective (single alike).2]
    | _ => exact absurd (single alike).1 (by decide)
  | regex pattern =>
    cases right with
    | regex other => rw [str_injective (single alike).2]
    | _ => exact absurd (single alike).1 (by decide)
  | minValue value exclusive =>
    cases right with
    | minValue other otherExclusive =>
      obtain ⟨rfl, rfl⟩ := boundJson_injective (single alike).2
      rfl
    | _ => exact absurd (single alike).1 (by decide)
  | maxValue value exclusive =>
    cases right with
    | maxValue other otherExclusive =>
      obtain ⟨rfl, rfl⟩ := boundJson_injective (single alike).2
      rfl
    | _ => exact absurd (single alike).1 (by decide)

end Validator

end EntityGraph
