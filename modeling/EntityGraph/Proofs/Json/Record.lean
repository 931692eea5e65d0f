import EntityGraph.Entity.Codec
import EntityGraph.Proofs.Json.Scalars
import EntityGraph.Proofs.Result

/-!
# Records read back

An object whose keys are all different opens as a record, and shows under each key what was
entered. So an entry that is left out for a default value is read as that value.
-/
namespace EntityGraph

open Json (Record lastOf)

/-! ## Keys -/

/-- The keys of entries, in order. -/
def keysOf {α : Type} (entries : List (String × α)) : List String := entries.map (·.1)

section Keys

variable {α : Type} {key : String}

@[simp] theorem keysOf_nil : keysOf ([] : List (String × α)) = [] := List.map_nil

@[simp] theorem keysOf_cons (entry : String × α) (rest : List (String × α)) :
    keysOf (entry :: rest) = entry.1 :: keysOf rest := List.map_cons

theorem keysOf_single (value : Json) : (keysOf [(key, value)]).Sublist [key] := List.Sublist.refl _

theorem keysOf_flagEntry (value : Bool) : (keysOf (flagEntry key value)).Sublist [key] := by
  cases value <;> simp [keysOf, flagEntry]

theorem keysOf_optionalEntry (encode : α → Json) (value : Option α) :
    (keysOf (optionalEntry key encode value)).Sublist [key] := by
  cases value <;> simp [keysOf, optionalEntry]

theorem keysOf_listEntry (encode : α → Json) (values : List α) :
    (keysOf (listEntry key encode values)).Sublist [key] := by
  cases values <;> simp [keysOf, listEntry]

theorem keysOf_ite (condition : Bool) (value : Json) :
    (keysOf (if condition = true then [] else [(key, value)])).Sublist [key] := by
  cases condition <;> simp [keysOf]

theorem keysOf_append {left right : List (String × α)} {leftKeys rightKeys : List String}
    (first : (keysOf left).Sublist leftKeys) (second : (keysOf right).Sublist rightKeys) :
    (keysOf (left ++ right)).Sublist (leftKeys ++ rightKeys) := by
  rw [keysOf, List.map_append]
  exact first.append second

end Keys

namespace Json

/-! ## Opening -/

theorem find?_eq_lastOf {α : Type} {entries : List (String × α)} (distinct : (keysOf entries).Nodup)
    (key : String) : (entries.find? (·.1 == key)).map (·.2) = lastOf key entries := by
  induction entries with
  | nil => rfl
  | cons entry rest ih =>
    obtain ⟨fresh, distinctRest⟩ := List.nodup_cons.mp distinct
    rw [lastOf_cons, List.find?_cons]
    by_cases same : entry.1 = key
    -- The first entry of the key is the last one, since no other has it.
    · have absent : lastOf key rest = none :=
        lastOf_eq_none fun other member again =>
          fresh (List.mem_map.mpr ⟨other, member, again.trans same.symm⟩)
      simp [same, absent]
    · have different : (entry.1 == key) = false := by simpa using same
      rw [different, if_neg (Ne.symm same), Option.or_none]
      exact ih distinctRest

/-- The record of entries with different keys. -/
@[simp] theorem Record.ofObject_obj {entries : List (String × Json)}
    (distinct : (keysOf entries).Nodup) (keys : List String) :
    Record.ofObject keys (.obj entries) = .ok ⟨entries⟩ := by
  -- A record is refused only if one of its own keys is repeated; here no key is.
  have once (key : String) : (entries.filter (·.1 == key)).length ≤ 1 := by
    have count : (entries.filter (·.1 == key)).length = (keysOf entries).count key := by
      rw [keysOf, List.count_eq_countP, List.countP_map, List.countP_eq_length_filter]
      rfl
    rw [count]
    exact List.nodup_iff_count_le_one.mp distinct key
  have none : keys.find? (fun key => (entries.filter (·.1 == key)).length > 1) = .none := by
    rw [List.find?_eq_none]
    intro key _
    simpa using once key
  rw [Record.ofObject, none]

@[simp] theorem Record.ofJson_obj {entries : List (String × Json)}
    (distinct : (keysOf entries).Nodup) (keys : List String) :
    Record.ofJson keys (.obj entries) = .ok ⟨entries⟩ :=
  Record.ofObject_obj distinct keys

section Decoded

variable {α β : Type}

@[simp] theorem ok_bind (value : α) (next : α → Decoded β) :
    (Except.ok value : Decoded α) >>= next = next value := rfl

@[simp] theorem pure_eq_ok (value : α) : (pure value : Decoded α) = .ok value := rfl

end Decoded

/-- An object keeps the name of its variant among its entries. -/
@[simp] theorem variant_obj {entries : List (String × Json)} (distinct : (keysOf entries).Nodup)
    {key name : String} (named : Record.required ⟨entries⟩ key asString = .ok name) :
    variant key (.obj entries) = .ok (name, .obj entries) := by
  rw [variant, Record.ofObject_obj distinct]
  · rw [ok_bind, named]
    rfl
  · nofun

/-! ## Entries one by one -/

section Cons

variable {α : Type} {name key : String} {value : Json} {rest : List (String × Json)}
  {decode : Json → Decoded α}

@[simp] theorem Record.required_nil :
    Record.required ⟨[]⟩ key decode = .error (.missingKey key) := rfl

@[simp] theorem Record.defaulted_nil {absent : α} :
    Record.defaulted ⟨[]⟩ key absent decode = .ok absent := rfl

@[simp] theorem Record.optional_nil : Record.optional ⟨[]⟩ key decode = .ok none := rfl

@[simp] theorem Record.find?_cons : Record.find? ⟨(name, value) :: rest⟩ key =
    if name = key then some value else Record.find? ⟨rest⟩ key := by
  rw [Record.find?, List.find?_cons]
  by_cases same : name = key
  · simp [same]
  · have different : (name == key) = false := by simpa using same
    rw [different, if_neg same]
    rfl

@[simp] theorem Record.required_cons : Record.required ⟨(name, value) :: rest⟩ key decode =
    if name = key then decode value else Record.required ⟨rest⟩ key decode := by
  rw [Record.required, Record.find?_cons]
  by_cases same : name = key
  · rw [if_pos same, if_pos same]
  · rw [if_neg same, if_neg same, Record.required]

@[simp] theorem Record.defaulted_cons {absent : α} :
    Record.defaulted ⟨(name, value) :: rest⟩ key absent decode =
      if name = key then decode value else Record.defaulted ⟨rest⟩ key absent decode := by
  rw [Record.defaulted, Record.find?_cons]
  by_cases same : name = key
  · rw [if_pos same, if_pos same]
  · rw [if_neg same, if_neg same, Record.defaulted]

@[simp] theorem Record.optional_cons : Record.optional ⟨(name, value) :: rest⟩ key decode =
    if name = key then asOption decode value else Record.optional ⟨rest⟩ key decode :=
  Record.defaulted_cons

end Cons

/-! ## Entries by their keys -/

section Entries

variable {α : Type} {entries : List (String × Json)} {key : String} {decode : Json → Decoded α}

theorem Record.required_eq (distinct : (keysOf entries).Nodup) {value : Json}
    (entered : lastOf key entries = some value) :
    Record.required ⟨entries⟩ key decode = decode value := by
  rw [Record.required, Record.find?, find?_eq_lastOf distinct, entered]

theorem Record.defaulted_eq (distinct : (keysOf entries).Nodup) (absent : α) :
    Record.defaulted ⟨entries⟩ key absent decode =
      ((lastOf key entries).map decode).getD (.ok absent) := by
  rw [Record.defaulted, Record.find?, find?_eq_lastOf distinct]
  cases lastOf key entries <;> rfl

theorem Record.defaulted_flag (distinct : (keysOf entries).Nodup) {flag : Bool}
    (entered : lastOf key entries = flagValue flag) :
    Record.defaulted ⟨entries⟩ key false asBool = .ok flag := by
  rw [Record.defaulted_eq distinct, entered]
  cases flag <;> rfl

/-- The items of a list are read one by one. -/
theorem asList_map_eq {β : Type} {encode : β → Json} {found : β → α} {values : List β}
    (reads : ∀ value ∈ values, decode (encode value) = .ok (found value)) :
    asList decode (.arr (values.map encode)) = .ok (values.map found) := by
  have each : (values.map encode).mapM decode = .ok (values.map found) := by
    induction values with
    | nil => rfl
    | cons value rest ih =>
      obtain ⟨first, others⟩ := List.forall_mem_cons.mp reads
      rw [List.map_cons, List.mapM_cons, first, ih others]
      rfl
  exact each

theorem asList_map {encode : α → Json} {values : List α}
    (reads : ∀ value ∈ values, decode (encode value) = .ok value) :
    asList decode (.arr (values.map encode)) = .ok values := by
  rw [asList_map_eq reads, List.map_id']

theorem Record.defaulted_list (distinct : (keysOf entries).Nodup) {encode : α → Json}
    {values : List α} (entered : lastOf key entries = listValue encode values)
    (reads : ∀ value ∈ values, decode (encode value) = .ok value) :
    Record.defaulted ⟨entries⟩ key [] (asList decode) = .ok values := by
  rw [Record.defaulted_eq distinct, entered, listValue]
  cases values with
  | nil => rfl
  | cons value rest => exact asList_map reads

/-- Decoding undoes encoding, and no value is encoded as absence. -/
def ReadsBack (decode : Json → Decoded α) (encode : α → Json) (value : α) : Prop :=
  decode (encode value) = .ok value ∧ encode value ≠ .null

theorem asOption_of_ne_null {value : Json} (present : value ≠ .null) :
    asOption decode value = (decode value).map some := by
  unfold asOption
  split
  · exact absurd rfl present
  · rfl

@[simp] theorem asOption_obj (members : List (String × Json)) :
    asOption decode (.obj members) = (decode (.obj members)).map some :=
  asOption_of_ne_null nofun

/-- An optional value is read back, absence as `null`. -/
theorem asOption_ofOption {encode : α → Json} {value : Option α}
    (reads : ∀ known ∈ value, ReadsBack decode encode known) :
    asOption decode (ofOption encode value) = .ok value := by
  cases value with
  | none => rfl
  | some value =>
    obtain ⟨decoded, present⟩ := reads value rfl
    rw [ofOption, asOption_of_ne_null present, decoded]
    rfl

theorem Record.optional_eq (distinct : (keysOf entries).Nodup) {encode : α → Json}
    {value : Option α} (entered : lastOf key entries = value.map encode)
    (reads : ∀ known ∈ value, ReadsBack decode encode known) :
    Record.optional ⟨entries⟩ key decode = .ok value := by
  rw [Record.optional, Record.defaulted_eq distinct, entered]
  cases value with
  | none => rfl
  | some value => exact asOption_ofOption reads

end Entries

/-! ## Values -/

theorem asNat_ofNat {limit value : Nat} (bounded : value ≤ limit) :
    asNat limit (.ofNat value) = .ok value := by
  rw [ofNat, asNat, if_pos ⟨Int.natCast_nonneg value, Int.ofNat_le.mpr bounded⟩]
  rfl

theorem readsBack_count {value : Nat} (bounded : value ≤ Decimal.maxCount) :
    ReadsBack asCount .ofNat value :=
  ⟨asNat_ofNat bounded, nofun⟩

theorem readsBack_str (text : String) : ReadsBack asString .str text := ⟨rfl, nofun⟩

@[simp] theorem asOption_str (text : Option String) :
    asOption asString (ofOption .str text) = .ok text :=
  asOption_ofOption fun text _ => readsBack_str text

theorem asOption_count {value : Option Nat} (bounded : ∀ known ∈ value, known ≤ Decimal.maxCount) :
    asOption asCount (ofOption .ofNat value) = .ok value :=
  asOption_ofOption fun known has => readsBack_count (bounded known has)

@[simp] theorem asList_str (texts : List String) : asList asString (ofStrings texts) = .ok texts :=
  asList_map fun _ _ => rfl

section Entered

variable {entries : List (String × Json)} {key : String}

theorem Record.required_str (distinct : (keysOf entries).Nodup) {text : String}
    (entered : lastOf key entries = some (.str text)) :
    Record.required ⟨entries⟩ key asString = .ok text :=
  Record.required_eq distinct entered

theorem Record.required_strs (distinct : (keysOf entries).Nodup) {texts : List String}
    (entered : lastOf key entries = some (.ofStrings texts)) :
    Record.required ⟨entries⟩ key (asList asString) = .ok texts :=
  (Record.required_eq distinct entered).trans (asList_str texts)

theorem Record.defaulted_strs (distinct : (keysOf entries).Nodup) {texts : List String}
    (entered : lastOf key entries = listValue .str texts) :
    Record.defaulted ⟨entries⟩ key [] (asList asString) = .ok texts :=
  Record.defaulted_list distinct entered fun _ _ => rfl

theorem Record.optional_str (distinct : (keysOf entries).Nodup) {text : Option String}
    (entered : lastOf key entries = text.map .str) :
    Record.optional ⟨entries⟩ key asString = .ok text :=
  Record.optional_eq distinct entered fun known _ => readsBack_str known

theorem Record.optional_count (distinct : (keysOf entries).Nodup) {value : Option Nat}
    (entered : lastOf key entries = value.map .ofNat)
    (bounded : ∀ known ∈ value, known ≤ Decimal.maxCount) :
    Record.optional ⟨entries⟩ key asCount = .ok value :=
  Record.optional_eq distinct entered fun known has => readsBack_count (bounded known has)

end Entered

theorem mapM_asString (entries : List (String × String)) :
    (entries.map fun (key, text) => (key, Json.str text)).mapM
      (fun (key, value) => do return (key, ← asString value)) = .ok entries := by
  induction entries with
  | nil => rfl
  | cons entry rest ih =>
    rw [List.map_cons, List.mapM_cons, ih]
    rfl

/-- A table of texts is read back. -/
theorem asStringMap_obj {table : Table String} (sorted : table.Sorted) :
    asStringMap (.obj (table.map fun (key, text) => (key, .str text))) = .ok table := by
  rw [asStringMap, mapM_asString]
  exact congrArg Except.ok (Table.ofList_of_sorted sorted)

/-! ## What was decoded -/

section Decoded

variable {α : Type} {record : Record} {key : String} {decode : Json → Decoded α}

theorem exists_of_required {value : α} (read : record.required key decode = .ok value) :
    ∃ json, decode json = .ok value := by
  unfold Record.required at read
  split at read
  next json _ => exact ⟨json, read⟩
  · cases read

theorem exists_of_defaulted {absent value : α}
    (read : record.defaulted key absent decode = .ok value) :
    value = absent ∨ ∃ json, decode json = .ok value := by
  unfold Record.defaulted at read
  split at read
  next json _ => exact .inr ⟨json, read⟩
  · exact .inl (Except.ok.inj read).symm

theorem exists_of_optional {value : Option α} (read : record.optional key decode = .ok value) :
    ∀ known ∈ value, ∃ json, decode json = .ok known := by
  rintro known rfl
  rcases exists_of_defaulted read with absent | ⟨json, decoded⟩
  · cases absent
  · unfold asOption at decoded
    split at decoded
    · cases decoded
    · refine ⟨json, ?_⟩
      cases result : decode json with
      | ok found =>
        rw [result] at decoded
        cases decoded
        rfl
      | error failure =>
        rw [result] at decoded
        cases decoded

theorem exists_of_mapM {items : List Json} {values : List α}
    (read : items.mapM decode = .ok values) :
    ∀ value ∈ values, ∃ item, decode item = .ok value := by
  induction items generalizing values with
  | nil =>
    cases read
    simp
  | cons item rest ih =>
    rw [List.mapM_cons] at read
    obtain ⟨first, firstRead, read⟩ := Result.bind_eq_ok.mp read
    obtain ⟨others, othersRead, read⟩ := Result.bind_eq_ok.mp read
    cases read
    exact List.forall_mem_cons.mpr ⟨⟨item, firstRead⟩, ih othersRead⟩

theorem exists_of_asList {json : Json} {values : List α} (read : asList decode json = .ok values) :
    ∀ value ∈ values, ∃ item, decode item = .ok value := by
  cases json with
  | arr items => exact exists_of_mapM read
  | null | bool | int | float | str | obj => cases read

theorem exists_of_list {values : List α}
    (read : record.defaulted key [] (asList decode) = .ok values) :
    ∀ value ∈ values, ∃ item, decode item = .ok value := by
  rcases exists_of_defaulted read with rfl | ⟨json, decoded⟩
  · simp
  · exact exists_of_asList decoded

theorem le_of_asCount {json : Json} {value : Nat} (read : asCount json = .ok value) :
    value ≤ Decimal.maxCount := by
  cases json with
  | int known =>
    rw [asCount, asNat] at read
    split at read
    next bounds =>
      cases read
      omega
    · cases read
  | null | bool | float | str | arr | obj => cases read

theorem le_of_optional {value : Option Nat} (read : record.optional key asCount = .ok value) :
    ∀ known ∈ value, known ≤ Decimal.maxCount := by
  intro known has
  obtain ⟨json, decoded⟩ := exists_of_optional read known has
  exact le_of_asCount decoded

theorem sorted_of_asStringMap {json : Json} {table : List (String × String)}
    (read : asStringMap json = .ok table) : Table.Sorted table := by
  cases json with
  | obj members =>
    obtain ⟨entries, -, read⟩ := Result.bind_eq_ok.mp read
    cases read
    exact Table.sorted_ofList entries
  | null | bool | int | float | str | arr => cases read

end Decoded

end Json

end EntityGraph
