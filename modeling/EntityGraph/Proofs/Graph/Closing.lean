import EntityGraph.Proofs.Graph.Stages

/-!
# Exactly closed entities

The dependencies of an entity of the graph are its parent and the targets of its references, and it
asks for a library exactly if one of its scalars needs it. Nothing is missing, because every entity
is closed after its last field. Nothing is stale either: a dependency comes in with a field or a
parent, and while entities are built neither goes away. Merging starts from no dependencies at all,
and the bags that grow afterwards have none.
-/
namespace EntityGraph

/-! ## What is asked of an entity -/

/-- The owner of a field of the kind depends on the target. -/
inductive FieldKind.RefersTo (target : String) : FieldKind → Prop
  | toOne {oneToOne : Bool} {onDelete : OnDelete} {relatedName : Option String} :
      RefersTo target (.toOne target oneToOne onDelete relatedName)
  | manyToMany {relatedName : Option String} : RefersTo target (.manyToMany target relatedName)

theorem FieldKind.dependency?_eq_some_iff {kind : FieldKind} {target : String} :
    kind.dependency? = some target ↔ kind.RefersTo target := by
  constructor
  · intro dependency
    cases kind with
    | toOne other =>
      obtain rfl : other = target := Option.some.inj dependency
      exact .toOne
    | manyToMany other =>
      obtain rfl : other = target := Option.some.inj dependency
      exact .manyToMany
    | _ => cases dependency
  · rintro ⟨⟩
    · rfl
    · rfl

/-- A field of the kind stores values of a scalar, one or many. -/
inductive FieldKind.Stores (repr : ScalarRepr) : FieldKind → Prop
  | scalar : Stores repr (.scalar repr)
  | collection : Stores repr (.collection repr)

theorem FieldKind.repr?_eq_some_iff {kind : FieldKind} {repr : ScalarRepr} :
    kind.repr? = some repr ↔ kind.Stores repr := by
  constructor
  · intro stored
    cases kind with
    | scalar other =>
      obtain rfl : other = repr := Option.some.inj stored
      exact .scalar
    | collection other =>
      obtain rfl : other = repr := Option.some.inj stored
      exact .collection
    | _ => cases stored
  · rintro ⟨⟩
    · rfl
    · rfl

/-- A value that is a date or a time. -/
inductive Literal.IsDateOrTime : Literal → Prop
  | date (value : Date) : IsDateOrTime (.date value)
  | dateTime (value : DateTime) : IsDateOrTime (.dateTime value)

theorem Literal.isTemporal_iff {literal : Literal} :
    literal.isTemporal = true ↔ literal.IsDateOrTime := by
  constructor
  · intro temporal
    cases literal with
    | date value => exact .date value
    | dateTime value => exact .dateTime value
    | _ => cases temporal
  · rintro ⟨⟩
    · rfl
    · rfl

/-- A range of values that begins or ends with the bound. -/
inductive Validator.IsRange (bound : Literal) : Validator → Prop
  | minValue {exclusive : Bool} : IsRange bound (.minValue bound exclusive)
  | maxValue {exclusive : Bool} : IsRange bound (.maxValue bound exclusive)

theorem Validator.isTemporal_iff {validator : Validator} :
    validator.isTemporal = true ↔ ∃ bound, validator.IsRange bound ∧ bound.IsDateOrTime := by
  constructor
  · intro temporal
    cases validator with
    | minValue bound => exact ⟨bound, .minValue, Literal.isTemporal_iff.mp temporal⟩
    | maxValue bound => exact ⟨bound, .maxValue, Literal.isTemporal_iff.mp temporal⟩
    | _ => cases temporal
  · rintro ⟨bound, ⟨⟩, temporal⟩
    · exact Literal.isTemporal_iff.mpr temporal
    · exact Literal.isTemporal_iff.mpr temporal

/-- Dates or times occur as values, as the default or as a bound of the values. -/
def ScalarRepr.InvolvesDates (repr : ScalarRepr) : Prop :=
  (repr.kind = .date ∨ repr.kind = .dateTime) ∨
    (∃ literal, repr.defaultValue = some literal ∧ literal.IsDateOrTime) ∨
    ∃ validator ∈ repr.validators, ∃ bound, validator.IsRange bound ∧ bound.IsDateOrTime

theorem ScalarRepr.isTemporal_iff {repr : ScalarRepr} :
    repr.isTemporal = true ↔ repr.InvolvesDates := by
  have default : (repr.defaultValue.map Literal.isTemporal).getD false = true ↔
      ∃ literal, repr.defaultValue = some literal ∧ literal.IsDateOrTime := by
    cases repr.defaultValue with
    | none => simp
    | some literal => simp [Literal.isTemporal_iff]
  rw [isTemporal, Bool.or_eq_true, Bool.or_eq_true, default, List.any_eq_true, or_assoc]
  simp only [ScalarKind.isTemporal, Bool.or_eq_true, beq_iff_eq, Validator.isTemporal_iff]
  rfl

namespace Entity

/-- What the entity depends on and asks for is what its fields and its parent give reason for. -/
structure IsExactlyClosed (entity : Entity) : Prop where
  dependencies : ∀ name, name ∈ entity.dependencies ↔
    (∃ field ∈ entity.fields, field.kind.RefersTo name) ∨ entity.parent = some name
  decimal : entity.imports.decimal = true ↔
    ∃ field ∈ entity.fields, ∃ repr, field.kind.Stores repr ∧ repr.kind = .decimal
  date : entity.imports.date = true ↔
    ∃ field ∈ entity.fields, ∃ repr, field.kind.Stores repr ∧ repr.InvolvesDates

variable {entity later : Entity}

theorem mem_referredNames_iff {name : String} :
    name ∈ entity.referredNames ↔
      (∃ field ∈ entity.fields, field.kind.RefersTo name) ∨ entity.parent = some name := by
  simp only [mem_referredNames, FieldKind.dependency?_eq_some_iff]

/-- A test of the scalars of all fields. -/
theorem any_repr_iff {test : ScalarRepr → Bool} :
    (entity.fields.filterMap fun field => field.kind.repr?).any test = true ↔
      ∃ field ∈ entity.fields, ∃ repr, field.kind.Stores repr ∧ test repr = true := by
  simp only [List.any_eq_true, List.mem_filterMap, FieldKind.repr?_eq_some_iff]
  constructor
  · rintro ⟨repr, ⟨field, member, stored⟩, passes⟩
    exact ⟨field, member, repr, stored, passes⟩
  · rintro ⟨field, member, repr, stored, passes⟩
    exact ⟨repr, ⟨field, member, stored⟩, passes⟩

/-- The imports are those that closing computes. -/
def HasClosedImports (entity : Entity) : Prop := entity.imports = entity.close.imports

theorem close_hasClosedImports (entity : Entity) : entity.close.HasClosedImports := rfl

/-- A closed entity that has no dependency without a reason. -/
theorem isExactlyClosed_of_closed (closed : entity.IsClosed) (founded : entity.IsFounded)
    (imports : entity.HasClosedImports) : entity.IsExactlyClosed := by
  have same : entity.imports = entity.close.imports := imports
  refine ⟨fun name => ?_, ?_, ?_⟩
  · rw [← mem_referredNames_iff]
    exact ⟨founded name, closed name⟩
  · rw [same]
    refine any_repr_iff.trans ?_
    simp only [beq_iff_eq]
  · rw [same]
    refine any_repr_iff.trans ?_
    simp only [ScalarRepr.isTemporal_iff]

end Entity

namespace Compile

/-! ## Merging -/

theorem GrownEntity.isExactlyClosed {entity later : Entity} (grown : GrownEntity entity later)
    (exactly : entity.IsExactlyClosed) : later.IsExactlyClosed := by
  -- A field that has grown refers to what it did before, and stores the same scalar.
  have refers (name : String) : (∃ field ∈ later.fields, field.kind.RefersTo name) ↔
      ∃ field ∈ entity.fields, field.kind.RefersTo name := by
    simp only [← FieldKind.dependency?_eq_some_iff]
    constructor
    · rintro ⟨field, member, target⟩
      obtain ⟨old, oldMember, step⟩ := grown.exists_earlier member
      exact ⟨old, oldMember, step.dependency?.symm.trans target⟩
    · rintro ⟨field, member, target⟩
      obtain ⟨new, newMember, step⟩ := grown.exists_later member
      exact ⟨new, newMember, step.dependency?.trans target⟩
  have stores (Holds : ScalarRepr → Prop) :
      (∃ field ∈ later.fields, ∃ repr, field.kind.Stores repr ∧ Holds repr) ↔
        ∃ field ∈ entity.fields, ∃ repr, field.kind.Stores repr ∧ Holds repr := by
    simp only [← FieldKind.repr?_eq_some_iff]
    constructor
    · rintro ⟨field, member, repr, stored, holds⟩
      obtain ⟨old, oldMember, step⟩ := grown.exists_earlier member
      exact ⟨old, oldMember, repr, step.repr?.symm.trans stored, holds⟩
    · rintro ⟨field, member, repr, stored, holds⟩
      obtain ⟨new, newMember, step⟩ := grown.exists_later member
      exact ⟨new, newMember, repr, step.repr?.trans stored, holds⟩
  refine ⟨fun name => ?_, ?_, ?_⟩
  · rw [grown.dependencies, grown.parent, refers]
    exact exactly.dependencies name
  · rw [grown.imports, stores]
    exact exactly.decimal
  · rw [grown.imports, stores]
    exact exactly.date

/-- A merged entity is closed from scratch. -/
theorem mergeGroup_isExactlyClosed {book : RuleBook} {first entity : Entity}
    {others merged later : List Entity}
    (given : mergeGroup book first others merged = .ok (entity, later)) :
    entity.IsExactlyClosed := by
  obtain ⟨⟨parent, members, grown⟩, _, given⟩ := Result.bind_eq_ok.mp given
  obtain ⟨fields, _, given⟩ := Result.bind_eq_ok.mp given
  obtain ⟨kept, _, given⟩ := Result.bind_eq_ok.mp given
  cases given
  refine Entity.isExactlyClosed_of_closed (Entity.close_isClosed _) ?_
    (Entity.close_hasClosedImports _)
  apply Entity.isFounded_close
  intro name dependency
  cases dependency

theorem isExactlyClosed_law (book : RuleBook) : MergeLaw book fun _ members entity =>
    (∀ member ∈ members, member.IsExactlyClosed) → entity.IsExactlyClosed := by
  refine .of_property Entity.IsExactlyClosed ?_ ?_
  · intro first others merged later entity _ given
    exact mergeGroup_isExactlyClosed given
  · intro entity later grown exactly
    exact grown.isExactlyClosed exactly

end Compile

/-! ## The graph -/

open Compile

variable {index : Schema.Index} {settings : Settings} {graph : Graph} {levels : Nat}

/-- Every entity that has been built is exactly closed in the end. -/
theorem Stages.built_isExactlyClosed (stages : Stages index settings graph levels) {entity : Entity}
    (member : entity ∈ stages.state.builtEntities) : entity.IsExactlyClosed := by
  obtain ⟨construction⟩ := stages.construction
  obtain ⟨path, found, _⟩ := stages.mem_built_iff.mp member
  have founded := isFounded_of_build stages.built path entity found
  have imports := construction.finished Entity.close_hasClosedImports found
  exact Entity.isExactlyClosed_of_closed (construction.isClosed found) founded imports

/-- The dependencies of every entity of the graph are exactly its parent and the targets of its
references, each of them once, and its imports are exactly those that its scalars need. -/
theorem entities_exactlyClosed (compiled : compile index settings levels = .ok graph) :
    ∀ entity ∈ graph.entities, entity.IsExactlyClosed ∧ entity.dependencies.Nodup := by
  obtain ⟨stages⟩ := exists_stages compiled
  intro entity member
  constructor
  · refine stages.follows_law (isExactlyClosed_law stages.book) member fun built inGroup => ?_
    exact stages.built_isExactlyClosed (State.mem_builtAs.mp inGroup).1
  · exact (stages.merged_isSorted entity (stages.mem_merged_iff.mpr member)).nodup

/-- Two types of rows that refer to a part. One has a price, the other a date. -/
def pricedRows : Schema.Index :=
  .ofSequences [
    ("Left", [("part", "Part", .one), ("price", "xs:decimal", .one)]),
    ("Right", [("part", "Part", .one), ("since", "xs:date", .one)]),
    ("Part", [("name", "xs:string", .one)])]

/-- Both types become one entity. -/
def oneRow : Settings :=
  { settingsOf ["Left", "Right"] with typeMap := [⟨"Left|Right", "Row", true⟩] }

/-- The merged rows depend on the part, and need both libraries. The part needs nothing. -/
theorem entities_exactlyClosed_of_pricedRows :
    ∃ graph, compile pricedRows oneRow = .ok graph ∧
      graph.entities.map (fun entity => (entity.name, entity.dependencies, entity.imports)) =
        [("Part", [], ⟨false, false⟩), ("Row", ["Part"], ⟨true, true⟩)] ∧
      ∀ entity ∈ graph.entities, entity.IsExactlyClosed ∧ entity.dependencies.Nodup := by
  have evaluated : (compile pricedRows oneRow).toOption.map (·.entities.map fun entity =>
      (entity.name, entity.dependencies, entity.imports)) =
      some [("Part", [], ⟨false, false⟩), ("Row", ["Part"], ⟨true, true⟩)] := by decide +kernel
  obtain ⟨graph, compiled, seen⟩ := Result.exists_ok_of_map evaluated
  exact ⟨graph, compiled, seen, entities_exactlyClosed compiled⟩

end EntityGraph
