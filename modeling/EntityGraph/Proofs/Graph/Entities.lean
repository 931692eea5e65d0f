import EntityGraph.Proofs.Graph.Stages

/-!
# The entities of a graph

A built entity has every name at most once among its materialized fields, and no name is longer than
the limit. Merging keeps both: it blends fields of one name, and puts those that coalescing has
given one name together.

A compilation hands entities of different names to the ordering, all of them closed. So its graph
has all of them, each one after what it requires, and after its other dependencies unless a cycle
leads through both.
-/
namespace EntityGraph

open Compile

/-! ## Names -/

/-- A limit on the names of materialized fields survives merging. -/
theorem blends_materialized (Kept : Prop) :
    Blends fun kind _ => kind.isMaterialized = true → Kept :=
  ⟨fun _ _ _ _ _ _ _ _ _ first _ _ => first rfl, fun _ _ _ first _ => first rfl⟩

namespace Stages

variable {index : Schema.Index} {settings : Settings} {graph : Graph} {levels : Nat}
  {entity : Entity}

theorem fieldNames_nodup (stages : Stages index settings graph levels)
    (member : entity ∈ graph.entities) :
    (materializedNames entity.fields).Nodup := by
  obtain ⟨construction⟩ := stages.construction
  refine (stages.mergedFrom member).nodup fun built inGroup => ?_
  obtain ⟨path, found, _⟩ := stages.mem_built_iff.mp (State.mem_builtAs.mp inGroup).1
  exact construction.distinctFields path built found

theorem name_length (stages : Stages index settings graph levels) (member : entity ∈ graph.entities)
    {field : Field} (fieldMember : field ∈ entity.fields)
    (materialized : field.isMaterialized = true) :
    field.name.length ≤ settings.compiler.identifierLimit := by
  obtain ⟨construction⟩ := stages.construction
  refine stages.blended member fieldMember materialized (blends_materialized _) ?_ materialized
  intro path built found _ _ known knownMember name knownMaterialized
  exact name ▸ construction.name_length found knownMember knownMaterialized

end Stages

/-- The entities of a graph have different names, and so have the materialized fields of each of
them, whose names are not longer than the limit. -/
theorem names_distinct_and_short {index : Schema.Index} {settings : Settings} {graph : Graph}
    {levels : Nat} (compiled : compile index settings levels = .ok graph) :
    (graph.entities.map (·.name)).Nodup ∧
      ∀ entity ∈ graph.entities, (entity.materializedFields.map (·.name)).Nodup ∧
        ∀ field ∈ entity.materializedFields,
          field.name.length ≤ settings.compiler.identifierLimit := by
  obtain ⟨stages⟩ := exists_stages compiled
  refine ⟨stages.names_nodup, fun entity member => ⟨stages.fieldNames_nodup member, ?_⟩⟩
  intro field fieldMember
  obtain ⟨inFields, materialized⟩ := List.mem_filter.mp fieldMember
  exact stages.name_length member inFields materialized

theorem names_distinct_and_short_of_ownerSchema :
    ∃ graph, compile ownerSchema (settingsOf ["Owner"]) = .ok graph ∧
      (graph.entities.map (·.name)).Nodup ∧
      ∀ entity ∈ graph.entities, (entity.materializedFields.map (·.name)).Nodup ∧
        ∀ field ∈ entity.materializedFields, field.name.length ≤ 63 := by
  have evaluated : (compile ownerSchema (settingsOf ["Owner"])).toOption.map
      (·.entities.map fun entity => (entity.name, entity.materializedFields.map (·.name))) =
        some [("Owner", ["rows"]), ("Row", ["owner"])] := by decide +kernel
  obtain ⟨graph, compiled, _⟩ := Result.exists_ok_of_map evaluated
  exact ⟨graph, compiled, names_distinct_and_short compiled⟩

/-! ## Order -/

/-- The order of emission is right for closed entities of different names, which is what every
compilation orders. -/
theorem emission_respects_dependencies :
    (∀ (entities emitted : List Entity) (notices : Diagnostics),
      (entities.map (·.name)).Nodup → (∀ entity ∈ entities, entity.IsClosed) →
        emissionOrder entities = .ok (emitted, notices) → IsEmissionOrder entities emitted) ∧
    ∀ (index : Schema.Index) (settings : Settings) (graph : Graph) (levels : Nat),
      compile index settings levels = .ok graph →
        ∃ stages : Stages index settings graph levels,
          (stages.merged.map (·.name)).Nodup ∧ (∀ entity ∈ stages.merged, entity.IsClosed) ∧
            IsEmissionOrder stages.merged graph.entities := by
  constructor
  · intro entities emitted notices distinct closed ordered
    exact isEmissionOrder_of_emissionOrder distinct closed ordered
  · intro index settings graph levels compiled
    obtain ⟨stages⟩ := exists_stages compiled
    exact ⟨stages, stages.merging.distinct, stages.merged_isClosed, stages.isEmissionOrder⟩

/-- Two entities that refer to each other, of which only the first may not do without the other. -/
def mutualReferences : List Entity :=
  let referring (name target : String) (nullable : Bool) : Entity :=
    { Entity.ofTypePath name name with
      fields := [{ Field.ofKind "other" "other" (.toOne target false .protect none) with nullable }]
      dependencies := [target] }
  [referring "First" "Second" false, referring "Second" "First" true]

theorem emission_respects_dependencies_of_mutualReferences :
    (∃ emitted notices, emissionOrder mutualReferences = .ok (emitted, notices) ∧
      emitted.map (·.name) = ["Second", "First"] ∧ IsEmissionOrder mutualReferences emitted) ∧
    ∃ graph, compile ownerSchema (settingsOf ["Owner"]) = .ok graph ∧
      graph.entities.map (·.name) = ["Owner", "Row"] ∧
      ∃ stages : Stages ownerSchema (settingsOf ["Owner"]) graph,
        IsEmissionOrder stages.merged graph.entities := by
  constructor
  · have evaluated : (emissionOrder mutualReferences).toOption.map (·.1.map (·.name)) =
        some ["Second", "First"] := by decide
    obtain ⟨⟨emitted, notices⟩, ordered, names⟩ := Result.exists_ok_of_map evaluated
    refine ⟨emitted, notices, ordered, names, ?_⟩
    refine emission_respects_dependencies.1 mutualReferences emitted notices ?_ ?_ ordered
    · decide
    · simp [mutualReferences, Entity.IsClosed, Entity.referredNames, Entity.ofTypePath,
        Field.ofKind, FieldKind.dependency?]
  · have evaluated : (compile ownerSchema (settingsOf ["Owner"])).toOption.map
        (·.entities.map (·.name)) = some ["Owner", "Row"] := by decide +kernel
    obtain ⟨graph, compiled, names⟩ := Result.exists_ok_of_map evaluated
    obtain ⟨stages, _, _, order⟩ := emission_respects_dependencies.2 _ _ graph _ compiled
    exact ⟨graph, compiled, names, stages, order⟩

end EntityGraph
