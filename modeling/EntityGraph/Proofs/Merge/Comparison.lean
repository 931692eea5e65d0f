import EntityGraph.Proofs.Json.Scalars
import EntityGraph.Proofs.Merge.Signatures

/-!
# What a comparison sees

Merging compares fields by text. For fields without infinities and NaN the text determines
everything but what is left out of it: fields with the same signature are of the same kind up to the
names of their other ends and the entries of bags, occur equally often, and have the same flags.
-/
namespace EntityGraph

open Json (Alike AlikeAt lastOf)
open Schema (MaxOccurs)

namespace FieldKind

/-- The kind without the name for its other end and without the entries of a bag. -/
def outline : FieldKind → FieldKind
  | toOne target oneToOne onDelete _ => toOne target oneToOne onDelete none
  | manyToMany target _ => manyToMany target none
  | jsonBag _ => jsonBag []
  | kind => kind

/-- No literal of the scalar is an infinity or NaN. -/
def IsFinite (kind : FieldKind) : Prop := ∀ repr ∈ kind.repr?, repr.IsFinite

instance (kind : FieldKind) : Decidable kind.IsFinite :=
  inferInstanceAs (Decidable (∀ repr ∈ kind.repr?, repr.IsFinite))

end FieldKind

/-- Whether the field is a primary key, unique, and indexed. -/
def Field.flags (field : Field) : Bool × Bool × Bool :=
  (field.primaryKey, field.unique, field.dbIndex)

/-! ## Finite entries -/

/-- All values of the entries are finite. -/
abbrev EntriesFinite : List (String × Json) → Prop := EntriesAll Json.IsFinite

theorem Choice.isFinite_toJson (choice : Choice) : choice.toJson.IsFinite := by
  rw [Choice.toJson, Json.isFinite_obj]
  simp [Json.IsFinite]

theorem Validator.IsFinite.toJson {validator : Validator} (finite : validator.IsFinite) :
    validator.toJson.IsFinite := by
  have bound {value : Literal} (finite : value.IsFinite) (exclusive : Bool) :
      (boundJson value exclusive).IsFinite := by
    rw [boundJson, Json.isFinite_obj, List.forall_mem_cons]
    exact ⟨finite.toJson, entriesAll_flag _ trivial⟩
  cases validator with
  | minLength length => exact Json.isFinite_obj.mpr (entriesAll_single trivial)
  | regex pattern => exact Json.isFinite_obj.mpr (entriesAll_single trivial)
  | minValue value exclusive =>
    exact Json.isFinite_obj.mpr (entriesAll_single (bound finite exclusive))
  | maxValue value exclusive =>
    exact Json.isFinite_obj.mpr (entriesAll_single (bound finite exclusive))

theorem ScalarKind.isFinite_toJson (kind : ScalarKind) : kind.toJson.IsFinite := by
  cases kind with
  | custom name => exact Json.isFinite_obj.mpr (entriesAll_single trivial)
  | _ => trivial

theorem ScalarRepr.IsFinite.entries {repr : ScalarRepr} (finite : repr.IsFinite) :
    EntriesFinite repr.entries := by
  unfold ScalarRepr.entries
  refine .append (.append (.append (.append (.append (.append (.append (.append ?_ ?_) ?_) ?_) ?_)
    ?_) ?_) ?_) ?_
  · exact entriesAll_single repr.kind.isFinite_toJson
  · exact entriesAll_optional fun _ _ => trivial
  · exact entriesAll_optional fun _ _ => trivial
  · exact entriesAll_optional fun _ _ => trivial
  · exact entriesAll_optional fun _ _ => trivial
  · exact entriesAll_list (Json.isFinite_map fun choice _ => choice.isFinite_toJson)
  · refine entriesAll_list (Json.isFinite_map fun validator member => ?_)
    exact (finite.validators validator member).toJson
  · exact entriesAll_flag _ trivial
  · exact entriesAll_optional fun value has => (finite.defaultValue value has).toJson

theorem FieldKind.IsFinite.payload {kind : FieldKind} (finite : kind.IsFinite) :
    EntriesFinite kind.payload := by
  cases kind with
  | scalar repr | collection repr => exact (finite repr rfl).entries
  | toOne =>
    refine .append (.append (.append (entriesAll_single trivial) (entriesAll_flag _ trivial))
      (entriesAll_single trivial)) (entriesAll_optional fun _ _ => trivial)
  | reverseOneToMany | reverseOneToOne => exact .cons trivial (entriesAll_single trivial)
  | manyToMany =>
    exact .append (entriesAll_single trivial) (entriesAll_optional fun _ _ => trivial)
  | jsonBag entries =>
    refine entriesAll_single (Json.isFinite_obj.mpr fun entry member => ?_)
    obtain ⟨known, _, rfl⟩ := List.mem_map.mp member
    trivial
  | dropped | parentAlias => exact entriesAll_nil
  | coalescedAlias => exact entriesAll_single trivial

/-! ## Scalars -/

attribute [ext] ScalarRepr

namespace ScalarRepr

theorem lastOf_entries (repr : ScalarRepr) :
    lastOf "kind" repr.entries = some repr.kind.toJson ∧
      lastOf "source_type" repr.entries = repr.sourceType.map .str ∧
      lastOf "max_length" repr.entries = repr.maxLength.map .ofNat ∧
      lastOf "max_digits" repr.entries = repr.maxDigits.map .ofNat ∧
      lastOf "decimal_places" repr.entries = repr.decimalPlaces.map .ofNat ∧
      lastOf "choices" repr.entries = listValue Choice.toJson repr.choices ∧
      lastOf "validators" repr.entries = listValue Validator.toJson repr.validators ∧
      lastOf "not_blank" repr.entries = flagValue repr.notBlank ∧
      lastOf "default" repr.entries = repr.defaultValue.map Literal.toJson := by
  simp [entries, Json.lastOf_append, Json.lastOf_cons]

theorem eq_of_alikeAt {left right : ScalarRepr}
    (alike : ∀ key ∈ keys, AlikeAt key left.entries right.entries) : left = right := by
  obtain ⟨kind, sourceType, maxLength, maxDigits, decimalPlaces, choices, validators, notBlank,
    defaultValue⟩ := lastOf_entries left
  obtain ⟨kind', sourceType', maxLength', maxDigits', decimalPlaces', choices', validators',
    notBlank', defaultValue'⟩ := lastOf_entries right
  simp only [keys, List.forall_mem_cons, AlikeAt, kind, sourceType, maxLength, maxDigits,
    decimalPlaces, choices, validators, notBlank, defaultValue, kind', sourceType', maxLength',
    maxDigits', decimalPlaces', choices', validators', notBlank', defaultValue'] at alike
  obtain ⟨kinds, sourceTypes, maxLengths, maxDigits, decimalPlaces, choices, validators, notBlanks,
    defaultValues, -⟩ := alike
  have counts {left right : Option Nat} (same : (left.map Json.ofNat).map Json.sortKeys =
      (right.map Json.ofNat).map Json.sortKeys) : left = right :=
    map_injective (fun _ _ => ofNat_injective) same
  exact ScalarRepr.ext (ScalarKind.toJson_injective (Option.some.inj kinds))
    (map_injective (fun _ _ => str_injective) sourceTypes) (counts maxLengths) (counts maxDigits)
    (counts decimalPlaces) (listValue_injective (fun _ _ => Choice.toJson_injective) choices)
    (listValue_injective (fun _ _ => Validator.toJson_injective) validators)
    (flagValue_injective notBlanks)
    (map_injective (fun _ _ => Literal.toJson_injective) defaultValues)

end ScalarRepr

/-! ## Kinds -/

theorem OnDelete.text_injective {left right : OnDelete} (same : left.text = right.text) :
    left = right := by
  cases left <;> cases right <;> first | rfl | simp [text] at same

namespace FieldKind

theorem lastOf_toOne (target : String) (oneToOne : Bool) (onDelete : OnDelete)
    (relatedName : Option String) :
    lastOf "target" (toOne target oneToOne onDelete relatedName).payload = some (.str target) ∧
      lastOf "one_to_one" (toOne target oneToOne onDelete relatedName).payload =
        flagValue oneToOne ∧
      lastOf "on_delete" (toOne target oneToOne onDelete relatedName).payload =
        some (.str onDelete.text) := by
  simp [payload, Json.lastOf_append, Json.lastOf_cons]

theorem lastOf_manyToMany (target : String) (relatedName : Option String) :
    lastOf "target" (manyToMany target relatedName).payload = some (.str target) := by
  simp [payload, Json.lastOf_cons]

/-- The outline of a kind is known from its category and its entries. -/
theorem outline_eq_of_alikeAt {left right : FieldKind}
    (category : left.category = right.category)
    (alike : ∀ key ∈ payloadKeys, key ≠ "related_name" → AlikeAt key left.payload right.payload) :
    left.outline = right.outline := by
  have scalars {repr other : ScalarRepr}
      (alike : ∀ key ∈ payloadKeys, key ≠ "related_name" → AlikeAt key repr.entries other.entries) :
      repr = other := by
    have apart : ∀ key ∈ ScalarRepr.keys, key ∈ payloadKeys ∧ key ≠ "related_name" := by decide
    exact ScalarRepr.eq_of_alikeAt fun key member =>
      alike key (apart key member).1 (apart key member).2
  have targets := alike "target" (by decide) (by decide)
  have flags := alike "one_to_one" (by decide) (by decide)
  have actions := alike "on_delete" (by decide) (by decide)
  have reverses := alike "reverse_field" (by decide) (by decide)
  have intos := alike "into" (by decide) (by decide)
  -- The category tells the constructor, so that kinds of two constructors are never compared.
  cases left with
  | scalar repr =>
    cases right with
    | scalar other => rw [scalars alike]
    | _ => simp [FieldKind.category] at category
  | collection repr =>
    cases right with
    | collection other => rw [scalars alike]
    | _ => simp [FieldKind.category] at category
  | toOne target oneToOne onDelete relatedName =>
    cases right with
    | toOne other otherOneToOne otherOnDelete otherName =>
      obtain ⟨hasTarget, hasFlag, hasAction⟩ := lastOf_toOne target oneToOne onDelete relatedName
      obtain ⟨otherTarget, otherFlag, otherAction⟩ :=
        lastOf_toOne other otherOneToOne otherOnDelete otherName
      rw [AlikeAt, hasTarget, otherTarget] at targets
      rw [AlikeAt, hasFlag, otherFlag] at flags
      rw [AlikeAt, hasAction, otherAction] at actions
      rw [outline, outline, str_injective (Option.some.inj targets), flagValue_injective flags,
        OnDelete.text_injective (str_injective (Option.some.inj actions))]
    | _ => simp [FieldKind.category] at category
  | reverseOneToMany target reverseField =>
    cases right with
    | reverseOneToMany other otherReverse =>
      rw [str_injective (Option.some.inj targets), str_injective (Option.some.inj reverses)]
    | _ => simp [FieldKind.category] at category
  | reverseOneToOne target reverseField =>
    cases right with
    | reverseOneToOne other otherReverse =>
      rw [str_injective (Option.some.inj targets), str_injective (Option.some.inj reverses)]
    | _ => simp [FieldKind.category] at category
  | manyToMany target relatedName =>
    cases right with
    | manyToMany other otherName =>
      rw [AlikeAt, lastOf_manyToMany, lastOf_manyToMany] at targets
      rw [outline, outline, str_injective (Option.some.inj targets)]
    | _ => simp [FieldKind.category] at category
  | jsonBag entries =>
    cases right with
    | jsonBag other => rfl
    | _ => simp [FieldKind.category] at category
  | dropped =>
    cases right with
    | dropped => rfl
    | _ => simp [FieldKind.category] at category
  | parentAlias =>
    cases right with
    | parentAlias => rfl
    | _ => simp [FieldKind.category] at category
  | coalescedAlias into =>
    cases right with
    | coalescedAlias other =>
      rw [str_injective (Option.some.inj intos)]
    | _ => simp [FieldKind.category] at category

end FieldKind

/-! ## Fields -/

/-- What stands under the key of the occurrences. -/
def occursValue (bound : MaxOccurs) : Option Json := if bound.isOne then none else some bound.toJson

theorem occursValue_injective {left right : MaxOccurs}
    (same : (occursValue left).map Json.sortKeys = (occursValue right).map Json.sortKeys) :
    left = right := by
  unfold occursValue at same
  by_cases leftOne : left.isOne = true <;> by_cases rightOne : right.isOne = true
  · exact (beq_iff_eq.mp leftOne).trans (beq_iff_eq.mp rightOne).symm
  · rw [if_pos leftOne, if_neg rightOne] at same
    cases same
  · rw [if_neg leftOne, if_pos rightOne] at same
    cases same
  · rw [if_neg leftOne, if_neg rightOne] at same
    have alike : Alike left.toJson right.toJson := Option.some.inj same
    cases left <;> cases right <;> first
      | rfl
      | rw [ofNat_injective alike]
      | cases alike

namespace Compile

/-- The entries of a field. -/
def fieldEntries (field : Field) : List (String × Json) :=
  leadingEntries field ++ ("category", .str field.kind.category) :: trailingEntries field

theorem MergeNote.isFinite_toJson (note : MergeNote) : note.toJson.IsFinite := by
  have texts (values : List String) : (Json.ofStrings values).IsFinite := by
    rw [Json.ofStrings, Json.isFinite_arr]
    simp [Json.IsFinite]
  rw [MergeNote.toJson, Json.isFinite_obj]
  simp [Json.IsFinite, texts]

theorem fieldEntries_finite {field : Field} (finite : field.kind.IsFinite) :
    EntriesFinite (fieldEntries field) := by
  have text (key value : String) : EntriesFinite [(key, .str value)] := entriesAll_single trivial
  have leading : EntriesFinite (leadingEntries field) :=
    .append (text _ _) (entriesAll_ite trivial)
  -- Only the payload can hold a double; everything else is a text, a flag or a count.
  have trailing : EntriesFinite (trailingEntries field) := by
    refine .append (.append (.append (.append (.append (.append (.append (.append (.append
      finite.payload ?_) ?_) ?_) ?_) ?_) ?_) ?_) ?_) ?_
    · exact entriesAll_flag _ trivial
    · exact entriesAll_list (Json.isFinite_map fun _ _ => trivial)
    · exact entriesAll_list (Json.isFinite_map fun note _ => MergeNote.isFinite_toJson note)
    · exact entriesAll_optional fun _ _ => trivial
    · refine entriesAll_ite ?_
      cases field.maxOccurs <;> trivial
    · exact entriesAll_optional fun _ _ => trivial
    · exact entriesAll_flag _ trivial
    · exact entriesAll_flag _ trivial
    · exact entriesAll_flag _ trivial
  exact leading.append (.append (text _ _) trailing)

/-- The fields differ at most in what a comparison does not see. -/
structure Indistinct (field other : Field) : Prop where
  kind : field.kind.outline = other.kind.outline
  maxOccurs : field.maxOccurs = other.maxOccurs
  flags : field.flags = other.flags

theorem lastOf_ite {key name : String} {value : Json} (condition : Bool) :
    lastOf key (if condition = true then [] else [(name, value)]) =
      if key = name then (if condition = true then none else some value) else none := by
  cases condition <;> simp [Json.lastOf_singleton]

/-- The path of a field, left out if it is empty. -/
def pathValue (path : String) : Option Json := if path.isEmpty then none else some (.str path)

/-- What stands under the keys of a field. -/
structure Enters (field : Field) (entries : List (String × Json)) : Prop where
  name : lastOf "name" entries = some (.str field.name)
  dottedPath : lastOf "dotted_path" entries = pathValue field.dottedPath
  category : lastOf "category" entries = some (.str field.kind.category)
  payload : ∀ key ∈ FieldKind.payloadKeys, lastOf key entries = lastOf key field.kind.payload
  nullable : lastOf "nullable" entries = flagValue field.nullable
  documentation : lastOf "documentation" entries = listValue .str field.documentation
  notes : lastOf "annotations" entries = listValue MergeNote.toJson field.notes
  choiceGroup : lastOf "choice_group" entries = field.choiceGroup.map .ofNat
  maxOccurs : lastOf "max_occurs" entries = occursValue field.maxOccurs
  coalescedFrom : lastOf "coalesced_from" entries = field.coalescedFrom.map .str
  primaryKey : lastOf "primary_key" entries = flagValue field.primaryKey
  unique : lastOf "unique" entries = flagValue field.unique
  dbIndex : lastOf "db_index" entries = flagValue field.dbIndex

theorem enters_fieldEntries (field : Field) : Enters field (fieldEntries field) := by
  -- The entries of a kind and those of a field have no key in common.
  have outside (key : String) (foreign : key ∉ FieldKind.payloadKeys) :
      lastOf key field.kind.payload = none :=
    Json.lastOf_eq_none fun entry member same => foreign (same ▸ field.kind.key_mem entry member)
  have apart : ∀ key ∈ FieldKind.payloadKeys, key ≠ "name" ∧ key ≠ "dotted_path" ∧
      key ≠ "category" ∧ key ≠ "nullable" ∧ key ≠ "documentation" ∧ key ≠ "annotations" ∧
      key ≠ "choice_group" ∧ key ≠ "max_occurs" ∧ key ≠ "coalesced_from" ∧ key ≠ "primary_key" ∧
      key ≠ "unique" ∧ key ≠ "db_index" := by decide
  constructor <;>
    simp only [fieldEntries, leadingEntries, trailingEntries, Json.lastOf_append, Json.lastOf_cons,
      lastOf_flagEntry, lastOf_optionalEntry, lastOf_listEntry, lastOf_ite]
  case payload =>
    intro key member
    simp [apart key member]
  case name => simp [outside "name" (by decide)]
  case dottedPath => simp [outside "dotted_path" (by decide), pathValue]
  case category => simp [outside "category" (by decide)]
  case nullable => simp [outside "nullable" (by decide)]
  case documentation => simp [outside "documentation" (by decide)]
  case notes => simp [outside "annotations" (by decide)]
  case choiceGroup => simp [outside "choice_group" (by decide)]
  case maxOccurs => simp [outside "max_occurs" (by decide), occursValue]
  case coalescedFrom => simp [outside "coalesced_from" (by decide)]
  case primaryKey => simp [outside "primary_key" (by decide)]
  case unique => simp [outside "unique" (by decide)]
  case dbIndex => simp [outside "db_index" (by decide)]

/-- A comparison sees everything but what it leaves out. -/
theorem indistinct_of_signature {field other : Field} (finite : field.kind.IsFinite)
    (otherFinite : other.kind.IsFinite) (same : signature field = signature other) :
    Indistinct field other := by
  have category := category_eq_of_signature same
  have compared (field : Field) (finite : field.kind.IsFinite) :
      (Json.obj ((fieldEntries field).filter (!ignoredMembers.contains ·.1))).IsFinite :=
    Json.isFinite_obj.mpr fun entry member =>
      fieldEntries_finite finite entry (List.mem_filter.mp member).1
  have text (field : Field) : signature field =
      (Json.obj ((fieldEntries field).filter (!ignoredMembers.contains ·.1))).sortKeys.pretty := by
    rw [signature, toJson_eq]
    rfl
  rw [text field, text other] at same
  -- Objects of one text have alike entries, and both leave out the same keys.
  have alike (key : String) (seen : (!ignoredMembers.contains key) = true) :
      AlikeAt key (fieldEntries field) (fieldEntries other) := by
    have filtered := (Json.alike_of_pretty_eq (compared field finite) (compared other otherFinite)
      same).at key
    have kept (field : Field) : lastOf key ((fieldEntries field).filter
        (!ignoredMembers.contains ·.1)) = lastOf key (fieldEntries field) :=
      Json.lastOf_filter (fun key => !ignoredMembers.contains key) seen
    rwa [AlikeAt, kept, kept] at filtered
  have here := enters_fieldEntries field
  have there := enters_fieldEntries other
  have seen : ∀ key ∈ FieldKind.payloadKeys, key ≠ "related_name" →
      (!ignoredMembers.contains key) = true := by decide
  have flag {left right : Bool} {key : String} (seen : (!ignoredMembers.contains key) = true)
      (entered : lastOf key (fieldEntries field) = flagValue left)
      (otherEntered : lastOf key (fieldEntries other) = flagValue right) : left = right := by
    refine flagValue_injective ?_
    rw [← entered, ← otherEntered]
    exact alike key seen
  refine ⟨?_, ?_, ?_⟩
  · refine FieldKind.outline_eq_of_alikeAt category fun key member named => ?_
    rw [AlikeAt, ← here.payload key member, ← there.payload key member]
    exact alike key (seen key member named)
  · refine occursValue_injective ?_
    rw [← here.maxOccurs, ← there.maxOccurs]
    exact alike "max_occurs" (by decide)
  · rw [Field.flags, Field.flags, flag (by decide) here.primaryKey there.primaryKey,
      flag (by decide) here.unique there.unique, flag (by decide) here.dbIndex there.dbIndex]

end Compile

end EntityGraph
