import EntityGraph.Proofs.Entity.Codec

/-!
# Entities read back from their texts

A text is read back if its numbers are. All integers of an entity fit the words of the reader; of
its doubles, those are read back that the reader does not miss. Entities nest seven levels deep at
most, far less than the reader allows.
-/
namespace EntityGraph

/-! ## Doubles -/

def Literal.doubles : Literal → List Float
  | float value => [value]
  | _ => []

def Validator.doubles : Validator → List Float
  | minValue value _ | maxValue value _ => value.doubles
  | _ => []

/-- The doubles among the bounds and the default of a scalar. -/
def ScalarRepr.doubles (repr : ScalarRepr) : List Float :=
  repr.validators.flatMap Validator.doubles ++ repr.defaultValue.toList.flatMap Literal.doubles

def FieldKind.doubles (kind : FieldKind) : List Float :=
  kind.repr?.toList.flatMap ScalarRepr.doubles

/-- All doubles of an entity. -/
def Entity.doubles (entity : Entity) : List Float :=
  entity.fields.flatMap fun field => field.kind.doubles

/-! ## Texts -/

namespace Json

/-- A finite double that is read back from its text. -/
structure IsExact (value : Float) : Prop where
  finite : value.isFinite = true
  read : readNumber (floatText value).toList = some (.float value, [])

/-- A value that is read back from its text, at most `depth` levels deep. -/
abbrev IsReadable (depth : Nat) (value : Json) : Prop := Readable readNumber depth value

/-- All values of the entries are read back. -/
abbrev EntriesReadable (depth : Nat) : List (String × Json) → Prop :=
  EntriesAll (IsReadable depth)

section Readable

variable {α : Type} {depth : Nat} {key : String}

theorem readable_str (text : String) : IsReadable depth (.str text) := by
  rw [IsReadable, Readable]
  trivial

theorem readable_bool (value : Bool) : IsReadable depth (.bool value) := by
  rw [IsReadable, Readable]
  trivial

theorem readable_int {value : Int} (least : Decimal.minSigned ≤ value)
    (most : value ≤ Decimal.maxWord) : IsReadable depth (.int value) := by
  rw [IsReadable, Readable, reads_iff]
  exact readNumber_int least most

theorem readable_ofNat {value : Nat} (bounded : value ≤ Decimal.maxCount) :
    IsReadable depth (.ofNat value) := by
  have most : Decimal.maxCount ≤ Decimal.maxWord := by decide
  refine readable_int ?_ (Int.ofNat_le.mpr (bounded.trans most))
  exact (by decide : Decimal.minSigned ≤ 0).trans (Int.natCast_nonneg value)

theorem readable_float {value : Float} (exactly : IsExact value) :
    IsReadable depth (.float value) := by
  rw [IsReadable, Readable, reads_iff]
  exact ⟨exactly.finite, exactly.read⟩

theorem readable_map {encode : α → Json} {values : List α}
    (readable : ∀ value ∈ values, IsReadable depth (encode value)) :
    IsReadable (depth + 1) (.arr (values.map encode)) := by
  rw [IsReadable, readable_arr, List.forall_mem_map]
  exact readable

theorem readable_ofStrings (texts : List String) : IsReadable (depth + 1) (ofStrings texts) :=
  readable_map fun text _ => readable_str text

theorem readable_entries {entries : List (String × Json)}
    (readable : EntriesReadable depth entries) : IsReadable (depth + 1) (.obj entries) :=
  readable_obj.mpr readable

theorem entriesReadable_text (value : Option String) :
    EntriesReadable depth (optionalEntry key .str value) :=
  entriesAll_optional fun text _ => readable_str text

theorem entriesReadable_count {value : Option Nat}
    (bounded : ∀ count ∈ value, count ≤ Decimal.maxCount) :
    EntriesReadable depth (optionalEntry key .ofNat value) :=
  entriesAll_optional fun count has => readable_ofNat (bounded count has)

theorem entriesReadable_texts (texts : List String) :
    EntriesReadable (depth + 1) (listEntry key .str texts) :=
  entriesAll_list (readable_ofStrings texts)

end Readable

end Json

open Json

section Readable

variable {depth : Nat}

theorem ScalarKind.readable (kind : ScalarKind) : IsReadable (depth + 1) kind.toJson := by
  cases kind with
  | custom name => exact readable_entries (entriesAll_single (readable_str name))
  | _ => exact readable_str _

theorem Literal.readable {literal : Literal} (storable : literal.IsStorable)
    (exactly : ∀ value ∈ literal.doubles, IsExact value) :
    IsReadable (depth + 1) literal.toJson := by
  refine readable_entries (.cons (readable_str _) (entriesAll_single ?_))
  cases literal with
  | boolean value => exact readable_bool value
  | integer value =>
    have range : Decimal.minSigned ≤ value ∧ value ≤ Decimal.maxSigned := by
      simpa [IsStorable, Decimal.isSigned] using storable
    have most : Decimal.maxSigned ≤ Decimal.maxWord := by decide
    exact readable_int range.1 (range.2.trans most)
  | float value => exact readable_float (exactly value List.mem_cons_self)
  | decimal | date | dateTime | text => exact readable_str _

theorem Validator.readable {validator : Validator} (storable : validator.IsStorable)
    (exactly : ∀ value ∈ validator.doubles, IsExact value) :
    IsReadable (depth + 3) validator.toJson := by
  have bound {value : Literal} (storable : value.IsStorable)
      (exactly : ∀ double ∈ value.doubles, IsExact double) (exclusive : Bool) :
      IsReadable (depth + 2) (boundJson value exclusive) :=
    readable_entries (.cons (Literal.readable storable exactly)
      (entriesAll_flag exclusive (readable_bool true)))
  cases validator with
  | minLength length => exact readable_entries (entriesAll_single (readable_ofNat storable))
  | regex pattern => exact readable_entries (entriesAll_single (readable_str pattern))
  | minValue value exclusive =>
    exact readable_entries (entriesAll_single (bound storable exactly exclusive))
  | maxValue value exclusive =>
    exact readable_entries (entriesAll_single (bound storable exactly exclusive))

theorem Choice.readable (choice : Choice) : IsReadable (depth + 1) choice.toJson :=
  readable_entries (.cons (readable_str _) (entriesAll_single (readable_str _)))

theorem ScalarRepr.entriesReadable {repr : ScalarRepr} (storable : repr.IsStorable)
    (exactly : ∀ value ∈ repr.doubles, IsExact value) :
    EntriesReadable (depth + 4) repr.entries := by
  obtain ⟨exactBounds, exactDefault⟩ := List.forall_mem_append.mp exactly
  unfold ScalarRepr.entries
  refine .append (.append (.append (.append (.append (.append (.append (.append ?_
    (entriesReadable_text _)) (entriesReadable_count storable.maxLength))
    (entriesReadable_count storable.maxDigits)) (entriesReadable_count storable.decimalPlaces)) ?_)
    ?_) (entriesAll_flag _ (readable_bool true))) ?_
  · exact entriesAll_single repr.kind.readable
  · exact entriesAll_list (readable_map fun choice _ => choice.readable)
  · refine entriesAll_list (readable_map fun validator member => ?_)
    exact Validator.readable (storable.validators validator member) fun value inside =>
      exactBounds value (List.mem_flatMap.mpr ⟨validator, member, inside⟩)
  · refine entriesAll_optional fun value has => ?_
    exact Literal.readable (storable.defaultValue value has) fun double inside =>
      exactDefault double (List.mem_flatMap.mpr ⟨value, Option.mem_toList.mpr has, inside⟩)

theorem FieldKind.payloadReadable {kind : FieldKind} (storable : kind.IsStorable)
    (exactly : ∀ value ∈ kind.doubles, IsExact value) :
    EntriesReadable (depth + 4) kind.payload := by
  have text (key value : String) : EntriesReadable (depth + 4) [(key, .str value)] :=
    entriesAll_single (readable_str value)
  have scalars {repr : ScalarRepr} (storable : repr.IsStorable)
      (exactly : ∀ value ∈ (FieldKind.scalar repr).doubles, IsExact value) :
      EntriesReadable (depth + 4) repr.entries := by
    refine ScalarRepr.entriesReadable storable ?_
    simpa [FieldKind.doubles, repr?] using exactly
  cases kind with
  | scalar repr | collection repr => exact scalars storable exactly
  | toOne =>
    exact .append (.append (.append (text _ _) (entriesAll_flag _ (readable_bool true))) (text _ _))
      (entriesReadable_text _)
  | reverseOneToMany | reverseOneToOne => exact .cons (readable_str _) (text _ _)
  | manyToMany => exact .append (text _ _) (entriesReadable_text _)
  | jsonBag bag =>
    refine entriesAll_single (readable_entries (List.forall_mem_map.mpr ?_))
    exact fun entry _ => readable_str entry.2
  | dropped | parentAlias => exact entriesAll_nil
  | coalescedAlias into => exact text _ _

theorem MergeNote.readable (note : MergeNote) : IsReadable (depth + 2) note.toJson :=
  readable_entries (.cons (readable_str _) (entriesAll_single (readable_ofStrings _)))

theorem Field.readable {field : Field} (storable : field.IsStorable)
    (exactly : ∀ value ∈ field.kind.doubles, IsExact value) :
    IsReadable (depth + 5) field.toJson := by
  have text (key value : String) : EntriesReadable (depth + 4) [(key, .str value)] :=
    entriesAll_single (readable_str value)
  have occurs : IsReadable (depth + 4) field.maxOccurs.toJson := by
    have bounded := storable.maxOccurs
    cases bound : field.maxOccurs with
    | bounded count =>
      rw [bound] at bounded
      exact readable_ofNat bounded
    | unbounded => exact readable_str _
  refine readable_entries (.append (.append (.append (.append (.append (.append (.append
    (.append (.append (.append (.append (text _ _) ?_) ?_) ?_) ?_) ?_) ?_) ?_) ?_) ?_) ?_) ?_)
  · exact entriesAll_ite (readable_str _)
  · exact .cons (readable_str _) (FieldKind.payloadReadable storable.kind exactly)
  · exact entriesAll_flag _ (readable_bool true)
  · exact entriesReadable_texts _
  · exact entriesAll_list (readable_map fun note _ => note.readable)
  · exact entriesReadable_count storable.choiceGroup
  · exact entriesAll_ite occurs
  · exact entriesReadable_text _
  · exact entriesAll_flag _ (readable_bool true)
  · exact entriesAll_flag _ (readable_bool true)
  · exact entriesAll_flag _ (readable_bool true)

theorem Entity.readable {entity : Entity} (storable : entity.IsStorable)
    (exactly : ∀ value ∈ entity.doubles, IsExact value) :
    IsReadable (depth + 7) entity.toJson := by
  refine readable_entries (.append (.append (.append (.append (.append (.append (.append (.append
    ?_ ?_) ?_) ?_) ?_) ?_) ?_) ?_) ?_)
  · exact .cons (readable_str _) (entriesAll_single (readable_ofStrings _))
  · exact entriesReadable_text _
  · refine entriesAll_single (readable_map fun field member => ?_)
    exact Field.readable (storable.fields field member) fun value inside =>
      exactly value (List.mem_flatMap.mpr ⟨field, member, inside⟩)
  · exact entriesAll_flag _ (readable_bool true)
  · exact entriesReadable_texts _
  · exact entriesAll_single (readable_ofStrings _)
  · exact entriesReadable_text _
  · exact entriesReadable_texts _
  · exact entriesAll_single
      (readable_entries (.cons (readable_bool _) (entriesAll_single (readable_bool _))))

end Readable

namespace Entity

/-- Decoding undoes encoding for entities without infinities and NaN; and if their doubles are read
back from their texts, so are the entities from theirs. -/
theorem reading_undoes_writing {entity : Entity} (storable : entity.IsStorable)
    (finite : ∀ value ∈ entity.doubles, value.isFinite = true) :
    ofJson entity.toJson = .ok entity ∧
      ((∀ value ∈ entity.doubles,
          readNumber (floatText value).toList = some (.float value, [])) →
        ∀ text ∈ [entity.toJson.compact, entity.toJson.pretty],
          (parse? text).map ofJson = some (.ok entity)) := by
  refine ⟨ofJson_toJson storable, fun read text member => ?_⟩
  -- The reader goes 127 levels deep, of which an entity needs seven.
  have readable : IsReadable (120 + 7) entity.toJson :=
    Entity.readable storable fun value inside => ⟨finite value inside, read value inside⟩
  rw [parse?_text readable text member, Option.map_some, ofJson_toJson storable]

/-- An entity with fields of all kinds. -/
def ofMeasurement : Entity where
  name := "Measurement"
  sourceTypes := ["Measurement", "Legacy"]
  parent := some "Record"
  fields := [
    { Field.ofKind "value" "value" (.scalar { ScalarRepr.ofKind .float with
        sourceType := some "Level"
        validators := [.minValue (.float 0.5) true, .maxValue (.float 16) false]
        defaultValue := some (.float 0.75) }) with dbIndex := true },
    { Field.ofKind "codes" "codes/code" (.collection { ScalarRepr.ofKind (.custom "code") with
        maxLength := some 8
        choices := [⟨"A", "First"⟩, ⟨"B", "Second \"B\""⟩]
        validators := [.minLength 1, .regex "[A-Z]+"]
        notBlank := true }) with maxOccurs := .unbounded, notes := [.nullIn ["Legacy"]] },
    { Field.ofKind "taken_at" "@taken" (.scalar { ScalarRepr.ofKind .dateTime with
        defaultValue :=
          some (.dateTime ⟨⟨2000, 2, 29, by decide⟩, ⟨23, 59, 60, 500000000, by decide⟩⟩)
      }) with nullable := true, documentation := ["When.", "Leap seconds count."] },
    Field.ofKind "unit" "unit" (.toOne "Unit" true .cascade (some "measurements")),
    { Field.ofKind "lines" "line" (.reverseOneToMany "Line" "measurement") with
      maxOccurs := .bounded 7, choiceGroup := some 1 },
    Field.ofKind "note" "note" (.reverseOneToOne "Note" "measurement"),
    Field.ofKind "tags" "tag" (.manyToMany "Tag" none),
    Field.ofKind "extra" "extra" (.jsonBag [("a", "Some\ntext."), ("a.b", "")]),
    Field.ofKind "gone" "gone" .dropped,
    Field.ofKind "base" "" .parentAlias,
    { Field.ofKind "level" "level" (.coalescedAlias "value") with
      coalescedFrom := some "level", unique := true }]
  isAbstract := false
  documentation := ["A measurement."]
  dependencies := ["Record", "Tag", "Unit"]
  numberField := none
  matchFields := ["value"]
  imports := ⟨false, true⟩

theorem reading_undoes_writing_ofMeasurement :
    ofMeasurement.IsStorable ∧ (∀ value ∈ ofMeasurement.doubles, value.isFinite = true) ∧
      ofJson ofMeasurement.toJson = .ok ofMeasurement ∧
        (parse? ofMeasurement.toJson.compact).map ofJson = some (.ok ofMeasurement) := by
  have storable : ofMeasurement.IsStorable := by decide
  have doubles : ofMeasurement.doubles = [0.5, 16, 0.75] := rfl
  have finite : ∀ value ∈ ofMeasurement.doubles, value.isFinite = true := by
    rw [doubles]
    decide
  have read : ∀ value ∈ ofMeasurement.doubles,
      readNumber (floatText value).toList = some (.float value, []) := by
    rw [doubles]
    simp only [List.forall_mem_cons]
    exact ⟨rfl, rfl, rfl, List.forall_mem_nil _⟩
  obtain ⟨decoded, texts⟩ := reading_undoes_writing storable finite
  exact ⟨storable, finite, decoded, texts read _ List.mem_cons_self⟩

end Entity

end EntityGraph
