import EntityGraph.Proofs.Build.Provenance
import EntityGraph.Proofs.Graph.Stages

/-!
# Multiplicity of fields

The draft of a field is consistent: it is a list or leads to many rows exactly if its element does
not occur exactly once. Only two settings take that away. A kind override makes a scalar of a
relation to many, whose number of occurrences stays; and an extra field that leads to many rows has
the number of occurrences of any extra field, which is one. Merging adds no exception of its own.
-/
namespace EntityGraph

namespace Compile

/-! ## Built fields -/

/-- A rule of the type path gives the kind of the field, which is a scalar although its element does
not occur once. -/
def KindOverridden (book : RuleBook) (entity path : String) (field : Field) : Prop :=
  (∃ repr, field.kind = .scalar repr) ∧ field.maxOccurs ≠ .one ∧
    ∃ rules, book.forType entity path = .ok rules ∧ (rules.kind? field.name).isSome = true

/-- The field is an extra field of the type path that leads to many rows, although it occurs
once. -/
def ConfiguredToMany (book : RuleBook) (entity path : String) (field : Field) : Prop :=
  (∃ target relatedName, field.kind = .manyToMany target relatedName) ∧ field.maxOccurs = .one ∧
    ∃ rules, book.forType entity path = .ok rules ∧
      ∃ extra ∈ rules.options.addFields,
        extra.name = field.name ∧ extra.manyToMany = true ∧ extra.target.isSome = true

/-- The multiplicity of a field is that of its kind, or the settings of one of the type paths say
otherwise. -/
def HasMultiplicity (book : RuleBook) (entity : String) (paths : List String) (field : Field) :
    Prop :=
  field.IsConsistent ∨
    ∃ path ∈ paths, KindOverridden book entity path field ∨ ConfiguredToMany book entity path field

theorem Draft.isConsistent {context : Context} {state : State} {scope : Scope} {draft : Field}
    (drafted : Draft context state scope draft) : draft.IsConsistent := by
  cases drafted with
  | value _ consistent => exact consistent
  | reverseOneToMany _ | reverseOneToOne _ | manyToMany _ => rfl

theorem exists_scalar_of_shape {kind : FieldKind} (shape : kind.shape = .scalar default) :
    ∃ repr, kind = .scalar repr := by
  cases kind <;> simp_all [FieldKind.shape]

theorem exists_manyToMany_of_shape {kind : FieldKind} {target : String}
    (shape : kind.shape = .manyToMany target none) :
    ∃ relatedName, kind = .manyToMany target relatedName := by
  cases kind <;> simp_all [FieldKind.shape]

/-- A finished draft is consistent, or its kind has been overridden. -/
theorem Draft.finished_multiplicity {context : Context} {state : State} {scope : Scope}
    {text primitive : Option String} {draft field : Field}
    (drafted : Draft context state scope draft)
    (finished : finishField context scope text primitive draft = .ok field)
    (rules : context.book.forType scope.entity scope.typePath = .ok scope.rules) :
    HasMultiplicity context.book scope.entity [scope.typePath] field := by
  obtain ⟨declared, kind, _⟩ := finishField_form finished
  obtain ⟨name, _, occurs, _⟩ := Field.declaration_eq_iff.mp declared
  rcases kind with same | ⟨_, override, given, scalar⟩
  · exact .inl (Field.isConsistent_of_shape same occurs drafted.isConsistent)
  · obtain ⟨repr, scalar⟩ := exists_scalar_of_shape scalar
    -- The override does no harm to a reference, which occurs once like a scalar.
    by_cases one : field.maxOccurs = .one
    · refine .inl ?_
      rw [Field.IsConsistent, scalar, one]
      rfl
    · refine .inr ⟨_, List.mem_singleton_self _, .inl ⟨⟨repr, scalar⟩, one, scope.rules, rules, ?_⟩⟩
      rw [name, given]
      rfl

theorem Origin.multiplicity {context : Context} {state : State} {scope : Scope} {field : Field}
    (origin : Origin context state scope field)
    (rules : context.book.forType scope.entity scope.typePath = .ok scope.rules) :
    HasMultiplicity context.book scope.entity [scope.typePath] field := by
  cases origin with
  | dropped | parentAlias | content | back _ | bag => exact .inl rfl
  | finished drafted finished => exact drafted.finished_multiplicity finished rules
  | @extra extra kind configured asked =>
    cases asked with
    | scalar _ | toOne _ _ _ => exact .inl rfl
    | @manyToMany target entity given many _ =>
      exact .inr ⟨_, List.mem_singleton_self _, .inr ⟨⟨entity, none, rfl⟩, rfl, scope.rules, rules,
        extra, configured, rfl, many, by simp [given]⟩⟩

/-- A name for the other end and documentation do not matter for the multiplicity. -/
theorem HasMultiplicity.of_same {book : RuleBook} {entity : String} {paths : List String}
    {field other : Field} (multiplicity : HasMultiplicity book entity paths other)
    (kind : field.kind.shape = other.kind.shape) (occurs : field.maxOccurs = other.maxOccurs)
    (name : field.name = other.name) : HasMultiplicity book entity paths field := by
  rcases multiplicity with consistent | ⟨path, member, ⟨⟨repr, scalar⟩, many, given⟩ |
    ⟨⟨target, relatedName, toMany⟩, one, given⟩⟩
  · exact .inl (Field.isConsistent_of_shape kind occurs consistent)
  · rw [scalar] at kind
    exact .inr ⟨path, member, .inl ⟨exists_scalar_of_shape kind, occurs ▸ many, name ▸ given⟩⟩
  · rw [toMany] at kind
    obtain ⟨ownName, own⟩ := exists_manyToMany_of_shape kind
    exact .inr ⟨path, member, .inr ⟨⟨target, ownName, own⟩, occurs ▸ one, name ▸ given⟩⟩

theorem HasMultiplicity.mono {book : RuleBook} {entity : String} {paths more : List String}
    {field : Field} (multiplicity : HasMultiplicity book entity paths field) (sub : paths ⊆ more) :
    HasMultiplicity book entity more field := by
  rcases multiplicity with consistent | ⟨path, member, given⟩
  · exact .inl consistent
  · exact .inr ⟨path, sub member, given⟩

/-- Every materialized field of a built entity has its multiplicity. -/
theorem Construction.multiplicity {index : Schema.Index} {settings : Settings} {book : RuleBook}
    {state : State} (construction : Construction index settings book state) {path : String}
    {entity : Entity} (found : state.entities.get? path = some entity) {field : Field}
    (member : field ∈ entity.fields) (materialized : field.isMaterialized = true) :
    HasMultiplicity book entity.name [path] field := by
  cases construction.traced path entity found field member with
  | mark kind => simp [Field.isMaterialized, kind, FieldKind.isMaterialized] at materialized
  | @added earlier scope offered relatedName steps added same =>
    obtain ⟨name, _, kind, _, _, _, occurs, _⟩ := Field.bare_eq_iff.mp same
    have shape : field.kind.shape = offered.kind.shape :=
      (congrArg FieldKind.shape kind).trans (FieldKind.shape_setRelatedName _ _)
    have multiplicity := (added.origin.multiplicity added.fits.rules).of_same shape occurs name
    rwa [construction.book_eq, ← added.entity_name steps found, added.path_eq] at multiplicity

/-! ## Fields of a graph -/

theorem isConsistent_iff {field : Field} :
    field.IsConsistent ↔ (field.kind.isCollection = true ↔ field.maxOccurs ≠ .one) := by
  rw [Field.IsConsistent, Bool.eq_iff_iff, Bool.not_eq_true', ← Bool.not_eq_true,
    Schema.MaxOccurs.isOne_iff]

theorem KindOverridden.not_isConsistent {book : RuleBook} {entity path : String} {field : Field}
    (overridden : KindOverridden book entity path field) : ¬field.IsConsistent := by
  obtain ⟨⟨repr, scalar⟩, many, _⟩ := overridden
  rw [isConsistent_iff, scalar]
  exact fun same => Bool.false_ne_true (same.mpr many)

theorem ConfiguredToMany.not_isConsistent {book : RuleBook} {entity path : String} {field : Field}
    (configured : ConfiguredToMany book entity path field) : ¬field.IsConsistent := by
  obtain ⟨⟨target, relatedName, toMany⟩, one, _⟩ := configured
  rw [isConsistent_iff, toMany]
  exact fun same => same.mp rfl one

/-- The multiplicity of references and bags does not depend on their details. -/
theorem blends_multiplicity (book : RuleBook) (entity : String) (paths : List String)
    (field : Field) :
    Blends fun kind most => kind.isMaterialized = true →
      HasMultiplicity book entity paths { field with kind, maxOccurs := most } := by
  -- Neither of the two exceptions is about references or bags.
  have exchange {kind other : FieldKind} {most : Schema.MaxOccurs}
      (multiplicity : HasMultiplicity book entity paths { field with kind, maxOccurs := most })
      (plain : kind.isCollection = other.isCollection) (noScalar : ∀ repr, kind ≠ .scalar repr)
      (noRelation : ∀ target relatedName, kind ≠ .manyToMany target relatedName) :
      HasMultiplicity book entity paths { field with kind := other, maxOccurs := most } := by
    rcases multiplicity with consistent | ⟨_, _, ⟨⟨repr, scalar⟩, _⟩ | ⟨⟨target, name, toMany⟩, _⟩⟩
    · exact .inl (plain.symm.trans consistent)
    · exact absurd scalar (noScalar repr)
    · exact absurd toMany (noRelation target name)
  constructor
  · intro target oneToOne onDelete relatedName otherOneToOne otherOnDelete otherName most otherMost
      first _ _
    exact exchange (first rfl) rfl (by simp) (by simp)
  · intro entries joined most first _
    exact exchange (first rfl) rfl (by simp) (by simp)

end Compile

open Compile

theorem Stages.hasMultiplicity {index : Schema.Index} {settings : Settings} {graph : Graph}
    {levels : Nat} (stages : Stages index settings graph levels) {entity : Entity}
    (member : entity ∈ graph.entities) {field : Field} (fieldMember : field ∈ entity.fields)
    (materialized : field.isMaterialized = true) :
    HasMultiplicity stages.book entity.name entity.sourceTypes field := by
  obtain ⟨construction⟩ := stages.construction
  refine stages.blended member fieldMember materialized
    (blends_multiplicity stages.book entity.name entity.sourceTypes field) ?_ materialized
  intro path built found named source known knownMember name knownMaterialized
  have multiplicity := construction.multiplicity found knownMember knownMaterialized
  rw [named] at multiplicity
  have one : [path] ⊆ entity.sourceTypes := by simpa using source
  exact (multiplicity.mono one).of_same rfl rfl name.symm

/-- The kind of a materialized field fits its number of occurrences, unless the settings of one of
the type paths override the kind of a relation to many, or declare an extra field of that kind. -/
theorem multiplicity_consistent_iff {index : Schema.Index} {settings : Settings} {graph : Graph}
    {levels : Nat} (compiled : compile index settings levels = .ok graph) :
    ∃ book, RuleBook.ofSettings settings = .ok book ∧
      ∀ entity ∈ graph.entities, ∀ field ∈ entity.materializedFields,
        (field.kind.isCollection = true ↔ field.maxOccurs ≠ .one) ↔
          ¬∃ path ∈ entity.sourceTypes,
            KindOverridden book entity.name path field ∨
              ConfiguredToMany book entity.name path field := by
  obtain ⟨stages⟩ := exists_stages compiled
  refine ⟨stages.book, stages.book_read, fun entity member field fieldMember => ?_⟩
  obtain ⟨inFields, materialized⟩ := List.mem_filter.mp fieldMember
  rw [← isConsistent_iff]
  constructor
  · rintro consistent ⟨path, _, overridden | configured⟩
    · exact overridden.not_isConsistent consistent
    · exact configured.not_isConsistent consistent
  · exact (stages.hasMultiplicity member inFields materialized).resolve_right

theorem multiplicity_consistent_iff_of_ownerSchema :
    ∃ graph, compile ownerSchema (settingsOf ["Owner"]) = .ok graph ∧
      ∃ book, RuleBook.ofSettings (settingsOf ["Owner"]) = .ok book ∧
        ∀ entity ∈ graph.entities, ∀ field ∈ entity.materializedFields,
          (field.kind.isCollection = true ↔ field.maxOccurs ≠ .one) ↔
            ¬∃ path ∈ entity.sourceTypes,
              KindOverridden book entity.name path field ∨
                ConfiguredToMany book entity.name path field := by
  have evaluated : (compile ownerSchema (settingsOf ["Owner"])).toOption.map
      (·.entities.map fun entity => (entity.name, entity.materializedFields.map (·.maxOccurs))) =
        some [("Owner", [.unbounded]), ("Row", [.one])] := by decide +kernel
  obtain ⟨graph, compiled, _⟩ := Result.exists_ok_of_map evaluated
  exact ⟨graph, compiled, multiplicity_consistent_iff compiled⟩

/-- Owners whose rows are to be kept as a text. -/
def overriddenRows : Settings :=
  { settingsOf ["Owner"] with
    entities := [⟨"Owner", { EntityOptions.none with kindOverrides := [⟨"rows", .text⟩] }, []⟩] }

/-- Owners with an extra relation to the same rows. -/
def extraRows : Settings :=
  let extra : ExtraField := ⟨"extra", some "Row", true, none, none, false, none⟩
  { settingsOf ["Owner"] with
    entities := [⟨"Owner", { EntityOptions.none with addFields := [extra] }, []⟩] }

/-- A graph in which a field is found whose kind does not fit its number of occurrences. -/
theorem exists_inconsistent_of_evaluated {index : Schema.Index} {settings : Settings}
    (evaluated : (compile index settings).toOption.map
      (·.entities.any (·.materializedFields.any fun field =>
        field.kind.isCollection == field.maxOccurs.isOne)) = some true) :
    ∃ graph, compile index settings = .ok graph ∧
      ∃ entity ∈ graph.entities, ∃ field ∈ entity.materializedFields,
        ¬(field.kind.isCollection = true ↔ field.maxOccurs ≠ .one) := by
  obtain ⟨graph, compiled, entity, inGraph, field, inEntity, seen⟩ :=
    exists_field_of_evaluated evaluated
  refine ⟨graph, compiled, entity, inGraph, field, inEntity, fun consistent => ?_⟩
  have fits := isConsistent_iff.mpr consistent
  rw [Field.IsConsistent, beq_iff_eq.mp seen] at fits
  simp at fits

/-- Both settings produce such a field. -/
theorem multiplicity_inconsistent_of_settings :
    (∃ graph, compile ownerSchema overriddenRows = .ok graph ∧
      ∃ entity ∈ graph.entities, ∃ field ∈ entity.materializedFields,
        ¬(field.kind.isCollection = true ↔ field.maxOccurs ≠ .one)) ∧
    ∃ graph, compile ownerSchema extraRows = .ok graph ∧
      ∃ entity ∈ graph.entities, ∃ field ∈ entity.materializedFields,
        ¬(field.kind.isCollection = true ↔ field.maxOccurs ≠ .one) := by
  constructor
  · exact exists_inconsistent_of_evaluated (by decide +kernel)
  · exact exists_inconsistent_of_evaluated (by decide +kernel)

end EntityGraph
