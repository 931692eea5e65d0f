import EntityGraph.Compile.Fields
import EntityGraph.Proofs.Lists
import EntityGraph.Proofs.Result

/-!
# Laws of fields

What is left of a field while an entity is built: the options of a field never touch its name, its
path and its occurrences, and they touch its kind only where a rule overrides it. Putting a field
into an entity keeps all fields that are there, up to their documentation.
-/
namespace EntityGraph

namespace FieldKind

/-- The kind without the details of its scalar and without the name for its other end. -/
def shape : FieldKind → FieldKind
  | scalar _ => .scalar default
  | collection _ => .collection default
  | toOne target oneToOne onDelete _ => .toOne target oneToOne onDelete none
  | manyToMany target _ => .manyToMany target none
  | kind => kind

@[simp] theorem shape_mapRepr (change : ScalarRepr → ScalarRepr) (kind : FieldKind) :
    (kind.mapRepr change).shape = kind.shape := by
  cases kind <;> rfl

@[simp] theorem shape_setRelatedName (relatedName : Option String) (kind : FieldKind) :
    (Compile.setRelatedName relatedName kind).shape = kind.shape := by
  cases relatedName <;> cases kind <;> rfl

theorem mapRepr_id (kind : FieldKind) : kind.mapRepr id = kind := by
  cases kind <;> rfl

theorem shape_eq_coalescedAlias {kind : FieldKind} {into : String} :
    kind.shape = .coalescedAlias into ↔ kind = .coalescedAlias into := by
  cases kind <;> simp [shape]

theorem shape_eq_toOne {kind : FieldKind} {target : String} {oneToOne : Bool}
    {onDelete : OnDelete} :
    kind.shape = .toOne target oneToOne onDelete none ↔
      ∃ relatedName, kind = .toOne target oneToOne onDelete relatedName := by
  cases kind <;> simp [shape]

theorem shape_eq_jsonBag {kind : FieldKind} {entries : Bag} :
    kind.shape = .jsonBag entries ↔ kind = .jsonBag entries := by
  cases kind <;> simp [shape]

theorem isMaterialized_of_shape {kind other : FieldKind} (same : kind.shape = other.shape) :
    kind.isMaterialized = other.isMaterialized := by
  cases kind <;> cases other <;> simp_all [shape, isMaterialized]

theorem isCollection_of_shape {kind other : FieldKind} (same : kind.shape = other.shape) :
    kind.isCollection = other.isCollection := by
  cases kind <;> cases other <;> simp_all [shape, isCollection]

theorem repr?_isSome_of_shape {kind other : FieldKind} (same : kind.shape = other.shape) :
    kind.repr?.isSome = other.repr?.isSome := by
  cases kind <;> cases other <;> simp_all [shape, repr?]

theorem isMaterialized_of_isCollection {kind : FieldKind} (many : kind.isCollection = true) :
    kind.isMaterialized = true := by
  cases kind <;> first | rfl | cases many

/-- Kinds that compare equal are of the same category. -/
theorem isCollection_of_beq {kind other : FieldKind} (same : (kind == other) = true) :
    kind.isCollection = other.isCollection := by
  cases kind <;> cases other <;> first | rfl | exact absurd same Bool.false_ne_true

/-- A comparison with a reference is exact, as no scalar is involved. -/
theorem eq_toOne_of_beq {kind : FieldKind} {target : String} {oneToOne : Bool}
    {onDelete : OnDelete} {relatedName : Option String}
    (same : (kind == .toOne target oneToOne onDelete relatedName) = true) :
    kind = .toOne target oneToOne onDelete relatedName := by
  cases kind with
  | toOne ownTarget ownOneToOne ownOnDelete ownName =>
    -- The derived comparison goes through the components one by one.
    have parts : (decide (ownTarget = target) && (decide (ownOneToOne = oneToOne) &&
      (decide (ownOnDelete = onDelete) && (ownName == relatedName)))) = true := same
    simpa using parts
  | _ => exact absurd same Bool.false_ne_true

/-- Bags are compared by their entries. -/
theorem eq_jsonBag_of_beq {kind : FieldKind} {entries : Bag}
    (same : (kind == .jsonBag entries) = true) : kind = .jsonBag entries := by
  cases kind with
  | jsonBag own =>
    have compared : (own == entries) = true := same
    rw [eq_of_beq compared]
  | _ => exact absurd same Bool.false_ne_true

end FieldKind

theorem Schema.MaxOccurs.isOne_iff {bound : Schema.MaxOccurs} :
    bound.isOne = true ↔ bound = .one := by
  simp [Schema.MaxOccurs.isOne]

/-- The field without its documentation. -/
def Field.bare (field : Field) : Field := { field with documentation := [] }

namespace Field

theorem bare_eq_iff {field other : Field} :
    field.bare = other.bare ↔
      field.name = other.name ∧ field.dottedPath = other.dottedPath ∧ field.kind = other.kind ∧
      field.nullable = other.nullable ∧ field.notes = other.notes ∧
      field.choiceGroup = other.choiceGroup ∧ field.maxOccurs = other.maxOccurs ∧
      field.coalescedFrom = other.coalescedFrom ∧ field.primaryKey = other.primaryKey ∧
      field.unique = other.unique ∧ field.dbIndex = other.dbIndex := by
  simp [bare]

theorem isMaterialized_of_bare {field other : Field} (same : field.bare = other.bare) :
    field.isMaterialized = other.isMaterialized := by
  simp only [isMaterialized, (bare_eq_iff.mp same).2.2.1]

/-- The field is a list, a relation to many rows or a many-to-many relation exactly if its element
may occur more or less than once. -/
def IsConsistent (field : Field) : Prop := field.kind.isCollection = !field.maxOccurs.isOne

theorem isConsistent_of_shape {field other : Field} (kind : field.kind.shape = other.kind.shape)
    (occurs : field.maxOccurs = other.maxOccurs) (consistent : other.IsConsistent) :
    field.IsConsistent := by
  rw [IsConsistent, FieldKind.isCollection_of_shape kind, occurs]
  exact consistent

/-- What the options of a field never touch. -/
def declaration (field : Field) : String × String × Schema.MaxOccurs × Option String × Option Nat :=
  (field.name, field.dottedPath, field.maxOccurs, field.coalescedFrom, field.choiceGroup)

theorem declaration_eq_iff {field other : Field} :
    field.declaration = other.declaration ↔
      field.name = other.name ∧ field.dottedPath = other.dottedPath ∧
      field.maxOccurs = other.maxOccurs ∧ field.coalescedFrom = other.coalescedFrom ∧
      field.choiceGroup = other.choiceGroup := by
  simp [declaration]

end Field

/-! ## Materialized names -/

/-- The names of the materialized fields. -/
def materializedNames (fields : List Field) : List String :=
  (fields.filter Field.isMaterialized).map (·.name)

theorem mem_materializedNames {fields : List Field} {name : String} :
    name ∈ materializedNames fields ↔
      ∃ field ∈ fields, field.isMaterialized = true ∧ field.name = name := by
  simp [materializedNames, and_assoc]

@[simp] theorem materializedNames_append (fields more : List Field) :
    materializedNames (fields ++ more) = materializedNames fields ++ materializedNames more := by
  simp [materializedNames]

theorem materializedNames_singleton {field : Field} (materialized : field.isMaterialized = true) :
    materializedNames [field] = [field.name] := by
  simp [materializedNames, materialized]

theorem materializedNames_singleton_mark {field : Field} (mark : field.isMaterialized = false) :
    materializedNames [field] = [] := by
  simp [materializedNames, mark]

theorem mem_materializedNames_of_bare {fields after : List Field}
    (keeps : ∀ known ∈ fields, ∃ kept ∈ after, kept.bare = known.bare) {name : String}
    (member : name ∈ materializedNames fields) : name ∈ materializedNames after := by
  obtain ⟨known, knownMember, materialized, rfl⟩ := mem_materializedNames.mp member
  obtain ⟨kept, keptMember, same⟩ := keeps known knownMember
  exact mem_materializedNames.mpr ⟨kept, keptMember,
    (Field.isMaterialized_of_bare same).trans materialized, (Field.bare_eq_iff.mp same).1⟩

/-- A field that takes the place of another one of its name leaves the names as they are. -/
theorem materializedNames_set {fields : List Field} {slot : Nat} {first other : Field}
    (place : fields[slot]? = some first) (name : other.name = first.name)
    (materialized : other.isMaterialized = first.isMaterialized) :
    materializedNames (fields.set slot other) = materializedNames fields := by
  induction fields generalizing slot with
  | nil => simp at place
  | cons field rest ih =>
    cases slot with
    | zero =>
      obtain rfl : field = first := by simpa using place
      simp [materializedNames, List.filter_cons, materialized, apply_ite, name]
    | succ slot =>
      have restPlace : rest[slot]? = some first := by simpa using place
      have restNames := ih restPlace
      simp only [materializedNames] at restNames ⊢
      cases kept : field.isMaterialized <;> simp [kept, restNames]

/-- A new materialized name keeps the names different. -/
theorem nodup_materializedNames_append {fields : List Field} {field : Field}
    (nodup : (materializedNames fields).Nodup)
    (free : field.isMaterialized = true → field.name ∉ materializedNames fields) :
    (materializedNames (fields ++ [field])).Nodup := by
  rw [materializedNames_append]
  cases materialized : field.isMaterialized with
  | false => simpa [materializedNames_singleton_mark materialized] using nodup
  | true =>
    rw [materializedNames_singleton materialized]
    refine List.nodup_append.mpr ⟨nodup, by simp, ?_⟩
    rintro known member _ single rfl
    exact free materialized (List.mem_singleton.mp single ▸ member)

/-! ## Placing a field behind others -/

/-- The mark that an element leaves when an earlier field has taken its name. -/
def aliasOf (field : Field) (former : String) : Field :=
  { field with
    name := former
    kind := .coalescedAlias field.name
    coalescedFrom := none
    documentation := [] }

/-- Every alias points to a materialized field. -/
def PointersInside (fields : List Field) : Prop :=
  ∀ pointer ∈ fields, ∀ into, pointer.kind = .coalescedAlias into → into ∈ materializedNames fields

/-- The ways in which a field is placed behind others: it becomes an alias of the one that has its
name, it is known already, or its name is free. -/
inductive Placed (fields : List Field) (field : Field) : List Field → Prop
  | aliased {slot : Nat} {first : Field} {documentation : List String} {former : String}
      (place : fields[slot]? = some first) (name : first.name = field.name)
      (materialized : first.isMaterialized = true) :
      Placed fields field (fields.set slot { first with documentation } ++ [aliasOf field former])
  | known : Placed fields field fields
  | appended (free : field.isMaterialized = true → field.name ∉ materializedNames fields) :
      Placed fields field (fields ++ [field])

namespace Placed

variable {fields after : List Field} {field : Field}

/-- No field is lost. -/
theorem keeps (placed : Placed fields field after) {known : Field} (member : known ∈ fields) :
    ∃ kept ∈ after, kept.bare = known.bare := by
  cases placed with
  | @aliased slot first documentation former place name materialized =>
    -- The first field of the name gets more documentation, and all others stay.
    let documented : Field := { first with documentation }
    rcases mem_set_or_eq documented place member with kept | rfl
    · exact ⟨known, List.mem_append_left _ kept, rfl⟩
    · obtain ⟨bound, _⟩ := List.getElem?_eq_some_iff.mp place
      exact ⟨documented, List.mem_append_left _ (List.mem_set bound documented), rfl⟩
  | known => exact ⟨known, member, rfl⟩
  | appended => exact ⟨known, List.mem_append_left _ member, rfl⟩

/-- Every field was there before, or is the placed one or an alias in its place. -/
theorem cases_of_mem (placed : Placed fields field after) {known : Field} (member : known ∈ after) :
    (∃ old ∈ fields, known.bare = old.bare) ∨ known = field ∨
      ∃ former, known = aliasOf field former := by
  cases placed with
  | @aliased slot first documentation former place name materialized =>
    rcases List.mem_append.mp member with old | new
    · rcases List.mem_or_eq_of_mem_set old with old | rfl
      · exact .inl ⟨known, old, rfl⟩
      · exact .inl ⟨first, List.mem_of_getElem? place, rfl⟩
    · exact .inr (.inr ⟨former, List.mem_singleton.mp new⟩)
  | known => exact .inl ⟨known, member, rfl⟩
  | appended =>
    rcases List.mem_append.mp member with old | new
    · exact .inl ⟨known, old, rfl⟩
    · exact .inr (.inl (List.mem_singleton.mp new))

/-- The names of the materialized fields stay different. -/
theorem nodup (placed : Placed fields field after) (distinct : (materializedNames fields).Nodup) :
    (materializedNames after).Nodup := by
  cases placed with
  | aliased place name materialized =>
    -- The alias is not materialized, and the field before it has kept its name.
    refine nodup_materializedNames_append ?_ (fun wrong => absurd wrong Bool.false_ne_true)
    rw [materializedNames_set place]
    · exact distinct
    · rfl
    · rfl
  | known => exact distinct
  | appended free => exact nodup_materializedNames_append distinct free

/-- Aliases that point to a materialized field still do, and so does one that is made. -/
theorem pointersInside (placed : Placed fields field after) (inside : PointersInside fields)
    (noPointer : ∀ into, field.kind ≠ .coalescedAlias into) : PointersInside after := by
  have stays : ∀ into ∈ materializedNames fields, into ∈ materializedNames after :=
    fun _ => mem_materializedNames_of_bare fun _ => placed.keeps
  have old {known pointer : Field} {into : String} (member : known ∈ fields)
      (same : pointer.bare = known.bare) (points : pointer.kind = .coalescedAlias into) :
      into ∈ materializedNames after :=
    stays into (inside known member into ((Field.bare_eq_iff.mp same).2.2.1.symm.trans points))
  intro pointer member into points
  cases placed with
  | @aliased slot first documentation former place name materialized =>
    have firstMember := List.mem_of_getElem? place
    rcases List.mem_append.mp member with known | new
    · rcases List.mem_or_eq_of_mem_set known with known | rfl
      · exact old known rfl points
      · exact old firstMember rfl points
    · obtain rfl := List.mem_singleton.mp new
      obtain rfl : field.name = into := FieldKind.coalescedAlias.inj points
      exact stays _ (mem_materializedNames.mpr ⟨first, firstMember, materialized, name⟩)
  | known => exact old member rfl points
  | appended =>
    rcases List.mem_append.mp member with known | new
    · exact old known rfl points
    · obtain rfl := List.mem_singleton.mp new
      exact absurd points (noPointer into)

end Placed

/-! ### Looking for the field that has a name -/

variable {fields : List Field} {name : String} {test : Field → Bool}

/-- The field in a slot that is looked up by a test is the first one that passes it. -/
theorem find?_of_findIdx? {slot : Option (Nat × Field)}
    (found : (fields.findIdx? test).bind (fun slot => fields[slot]?.map (slot, ·)) = slot) :
    fields.find? test = slot.map (·.2) := by
  rw [List.find?_eq_bind_findIdx?_getElem?, ← found, Option.map_bind]
  simp [Function.comp_def]

theorem place_of_findIdx? {slot : Nat} {first : Field}
    (found : (fields.findIdx? test).bind (fun slot => fields[slot]?.map (slot, ·)) =
      some (slot, first))
    (tests : ∀ field, test field = true ↔ field.isMaterialized = true ∧ field.name = name) :
    fields[slot]? = some first ∧ first.isMaterialized = true ∧ first.name = name := by
  obtain ⟨position, index, found⟩ := Option.bind_eq_some_iff.mp found
  obtain ⟨known, place, same⟩ := Option.map_eq_some_iff.mp found
  cases same
  obtain ⟨bound, holds, _⟩ := List.findIdx?_eq_some_iff_getElem.mp index
  obtain ⟨_, rfl⟩ := List.getElem?_eq_some_iff.mp place
  exact ⟨place, (tests _).mp holds⟩

theorem free_of_findIdx?
    (missing : (fields.findIdx? test).bind (fun slot => fields[slot]?.map (slot, ·)) = none)
    (tests : ∀ field, test field = true ↔ field.isMaterialized = true ∧ field.name = name) :
    name ∉ materializedNames fields := by
  intro taken
  obtain ⟨known, member, holds⟩ := mem_materializedNames.mp taken
  cases found : fields.findIdx? test with
  | none =>
    have different := List.findIdx?_eq_none_iff.mp found known member
    rw [(tests known).mpr holds] at different
    cases different
  | some slot =>
    obtain ⟨bound, _⟩ := List.findIdx?_eq_some_iff_getElem.mp found
    simp [found, bound] at missing

end EntityGraph
