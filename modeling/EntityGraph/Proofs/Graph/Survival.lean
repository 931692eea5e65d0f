import EntityGraph.Proofs.Graph.Stages
import EntityGraph.Proofs.Merge.Signatures
import EntityGraph.Proofs.Merge.Survival

/-!
# Fields that survive merging

If the settings tolerate no difference, then every materialized field of a type path that has been
merged with others is still in the graph: in the merged entity, as an alias there, or in an
ancestor. The exception is a field behind a mark of its name and path, which the merge never looks
at. Apart from this, every alias of the graph points to a materialized field of its entity or of an
ancestor.
-/
namespace EntityGraph

open Relation (ReflTransGen TransGen)

namespace Compile

/-! ## Building -/

theorem Draft.not_pointer {context : Context} {state : State} {scope : Scope} {draft : Field}
    (drafted : Draft context state scope draft) (into : String) :
    draft.kind ≠ .coalescedAlias into := by
  intro points
  cases drafted with
  | @value _ kind _ value _ =>
    obtain rfl : kind = .coalescedAlias into := points
    exact value.elim
  | reverseOneToMany | reverseOneToOne | manyToMany => cases points

/-- No field is added as an alias. -/
theorem Origin.not_pointer {context : Context} {state : State} {scope : Scope} {field : Field}
    (origin : Origin context state scope field) (into : String) :
    field.kind ≠ .coalescedAlias into := by
  intro points
  cases origin with
  | dropped | parentAlias | content | back | bag => cases points
  | finished drafted finished =>
    obtain ⟨_, kind, _⟩ := finishField_form finished
    rw [FieldKind.shape_eq_coalescedAlias.mpr points] at kind
    rcases kind with same | ⟨_, _, _, scalar⟩
    · exact drafted.not_pointer into (FieldKind.shape_eq_coalescedAlias.mp same.symm)
    · rw [FieldKind.shape_eq_coalescedAlias.mpr points] at scalar
      cases scalar
  | extra _ asked => cases asked <;> cases points

/-- Every alias of every entity points to a materialized field of it. -/
def State.PointsInside (state : State) : Prop :=
  ∀ path entity, state.entities.get? path = some entity → PointersInside entity.fields

theorem Step.pointsInside_kept {context : Context} {before after : Progress}
    (step : Step context before after) (inside : before.state.PointsInside) :
    after.state.PointsInside := by
  intro path entity found
  cases step.fieldSource found with
  | empty fields => simp [PointersInside, fields]
  | same foundOld fields => exact fields ▸ inside _ _ foundOld
  | @added _ _ offered relatedName foundOld added insertion =>
    refine insertion.placed.pointersInside (inside _ _ foundOld) fun into points => ?_
    refine added.origin.not_pointer into (FieldKind.shape_eq_coalescedAlias.mp ?_)
    rw [← FieldKind.shape_setRelatedName relatedName]
    exact FieldKind.shape_eq_coalescedAlias.mpr points

theorem Construction.pointsInside {index : Schema.Index} {settings : Settings} {book : RuleBook}
    {state : State} (construction : Construction index settings book state) :
    state.PointsInside :=
  construction.holds (fun progress => progress.state.PointsInside)
    (fun _ _ _ found => by cases found) fun _ _ step => step.pointsInside_kept

end Compile

open Compile

/-! ## The graph -/

/-- An ancestor of the entity has a matching field of the name and path. -/
def Graph.Inherits (graph : Graph) (entity : Entity) (field : Field) : Prop :=
  ∃ ancestor ∈ graph.entities,
    TransGen (HasParent graph.entities) entity.name ancestor.name ∧
      ∃ known ∈ ancestor.fields, known.name = field.name ∧ known.dottedPath = field.dottedPath ∧
        Matches field known

/-- A field is still there: in the entity, as an alias of a field of its name, or in an ancestor. -/
def Graph.Keeps (graph : Graph) (entity : Entity) (field : Field) : Prop :=
  entity.Retains field ∨ entity.PointsFrom field ∨ graph.Inherits entity field

/-- The entity or an ancestor has a materialized field of the name. -/
def Graph.HasNamed (graph : Graph) (entity : Entity) (name : String) : Prop :=
  ∃ owner ∈ graph.entities, ReflTransGen (HasParent graph.entities) entity.name owner.name ∧
    name ∈ materializedNames owner.fields

theorem Graph.Keeps.hasNamed {graph : Graph} {entity : Entity} {field : Field}
    (keeps : graph.Keeps entity field) (member : entity ∈ graph.entities)
    (materialized : field.isMaterialized = true) : graph.HasNamed entity field.name := by
  rcases keeps with retains | points | ⟨ancestor, inGraph, above, known, knownMember, name, _, same⟩
  · exact ⟨entity, member, .refl, retains.name_mem⟩
  · exact ⟨entity, member, .refl, points.name_mem⟩
  · refine ⟨ancestor, inGraph, above.to_reflTransGen, mem_materializedNames.mpr ?_⟩
    exact ⟨known, knownMember, same.isMaterialized.trans materialized, name⟩

namespace Stages

variable {index : Schema.Index} {settings : Settings} {graph : Graph} {levels : Nat}

/-- Several type paths were built under the name of the entity, and a mark in one of them hides the
field. -/
def Loses (stages : Stages index settings graph levels) (entity built : Entity) (field : Field) :
    Prop :=
  1 < (stages.state.builtAs entity.name).length ∧ built.Hides field

theorem keeps (stages : Stages index settings graph levels) (strict : settings.IsStrict)
    {entity : Entity} (member : entity ∈ graph.entities) {built : Entity}
    (inGroup : built ∈ stages.state.builtAs entity.name) {field : Field}
    (fieldMember : field ∈ built.fields) (materialized : field.isMaterialized = true)
    (found : ¬stages.Loses entity built field) : graph.Keeps entity field := by
  have noTolerance (other : Entity) : ¬Tolerates stages.book other field.dottedPath :=
    not_tolerates_of_isStrict strict stages.book_read other field.dottedPath
  obtain ⟨construction⟩ := stages.construction
  obtain ⟨inBuilt, _⟩ := State.mem_builtAs.mp inGroup
  obtain ⟨path, foundBuilt, _⟩ := stages.mem_built_iff.mp inBuilt
  have survived := stages.follows_law (survivedFrom_law stages.book) member
  have outcome := survived.outcome built inGroup (construction.distinctFields path built foundBuilt)
    field fieldMember materialized fun several hides => found ⟨several, hides⟩
  cases outcome with
  | retained retains => exact .inl retains
  | pointed points => exact .inr (.inl points)
  | inherited parent covered =>
    obtain ⟨ancestor, inGraph, above, known, knownMember, name, dottedPath, same⟩ :=
      stages.exists_ancestor member parent covered
    exact .inr (.inr ⟨ancestor, inGraph, above, known, knownMember, name, dottedPath,
      same.resolve_right (noTolerance ancestor)⟩)
  | tolerated _ tolerates => exact absurd tolerates (noTolerance _)

/-- Every materialized field that has been built is still in the graph, unless a mark hides it in
one of several type paths of an entity. Every alias points to a materialized field of its entity or
of an ancestor, with the same exception. -/
structure KeepsFields (stages : Stages index settings graph levels) : Prop where
  fields : ∀ entity ∈ graph.entities, ∀ built ∈ stages.state.builtAs entity.name,
    ∀ field ∈ built.fields, field.isMaterialized = true → ¬stages.Loses entity built field →
      graph.Keeps entity field
  pointers : ∀ entity ∈ graph.entities, ∀ pointer ∈ entity.fields, ∀ into,
    pointer.kind = .coalescedAlias into →
      graph.HasNamed entity into ∨
        ∃ built ∈ stages.state.builtAs entity.name, ∃ field ∈ built.fields,
          field.isMaterialized = true ∧ field.name = into ∧ stages.Loses entity built field

end Stages

/-- If the settings tolerate no difference, then merging keeps the fields and the targets of aliases,
but for fields that are hidden by marks. -/
theorem fields_survive_merging {index : Schema.Index} {settings : Settings} {graph : Graph}
    {levels : Nat} (compiled : compile index settings levels = .ok graph)
    (strict : settings.IsStrict) :
    ∃ stages : Stages index settings graph levels, stages.KeepsFields := by
  obtain ⟨stages⟩ := exists_stages compiled
  refine ⟨stages, fun entity member built inGroup field fieldMember materialized found => ?_,
    fun entity member pointer inEntity into points => ?_⟩
  · exact stages.keeps strict member inGroup fieldMember materialized found
  · have survived := stages.follows_law (survivedFrom_law stages.book) member
    rcases survived.pointers pointer inEntity into points with
      inside | ⟨built, inGroup, known, knownMember, knownPoints⟩
    · exact .inl ⟨entity, member, .refl, inside⟩
    · -- The alias was built beside a materialized field of its name, which is still there.
      obtain ⟨construction⟩ := stages.construction
      obtain ⟨inBuilt, _⟩ := State.mem_builtAs.mp inGroup
      obtain ⟨path, foundBuilt, _⟩ := stages.mem_built_iff.mp inBuilt
      obtain ⟨field, fieldMember, materialized, rfl⟩ := mem_materializedNames.mp
        (construction.pointsInside path built foundBuilt known knownMember into knownPoints)
      by_cases lost : stages.Loses entity built field
      · exact .inr ⟨built, inGroup, field, fieldMember, materialized, rfl, lost⟩
      · exact .inl ((stages.keeps strict member inGroup fieldMember materialized lost).hasNamed
          member materialized)

/-! ## Opaque rows -/

/-- The paths of a bag. -/
def FieldKind.bagPaths : FieldKind → List String
  | .jsonBag entries => entries.names
  | _ => []

/-- Two types of rows, each with an element of its own. -/
def opaqueRows : Schema.Index :=
  .ofSequences [("Left", [("size", "xs:string", .one)]), ("Right", [("color", "xs:string", .one)])]

/-- Both types become one entity. -/
def rowsWith (options : EntityOptions) : Settings :=
  { settingsOf ["Left", "Right"] with
    typeMap := [⟨"Left|Right", "Row", true⟩]
    entities := [⟨"Row", options, []⟩] }

/-- The elements of the rows are kept in the bag. -/
def baggedRows : Settings :=
  rowsWith { EntityOptions.none with jsonFields := ["size", "color"] }

/-- The bag of the merged rows has the entries of both types. -/
theorem fields_survive_merging_of_opaqueRows :
    ∃ graph, compile opaqueRows baggedRows = .ok graph ∧ baggedRows.IsStrict ∧
      graph.entities.map (fun entity =>
        entity.fields.map fun field => (field.name, field.kind.bagPaths)) =
          [[("attrs", ["color", "size"])]] ∧
      ∃ stages : Stages opaqueRows baggedRows graph, stages.KeepsFields := by
  have evaluated : (compile opaqueRows baggedRows).toOption.map (·.entities.map fun entity =>
      entity.fields.map fun field => (field.name, field.kind.bagPaths)) =
      some [[("attrs", ["color", "size"])]] := by decide +kernel
  obtain ⟨graph, compiled, seen⟩ := Result.exists_ok_of_map evaluated
  have strict : baggedRows.IsStrict := by decide
  exact ⟨graph, compiled, strict, seen, fields_survive_merging compiled strict⟩

/-! ## Fields that are lost -/

/-- Two types of rows, in each of which two elements have one path. -/
def dottedRows : Schema.Index :=
  let row := [("a", "A", Schema.MaxOccurs.one), ("a.b", "xs:string", .one)]
  .ofSequences [("A", [("b", "xs:string", .one)]), ("Left", row), ("Right", row)]

/-- The first of the two elements is left out, and the second one has its name. -/
def maskedRows : Settings :=
  rowsWith { EntityOptions.none with
    flattenFields := ["a"]
    dropFields := ["a_b"]
    coalesceFields := [⟨"a\\.b", "a_b"⟩] }

/-- An element of one type has the name of the bag of the other type. -/
def contestedRows : Settings :=
  rowsWith { EntityOptions.none with
    jsonFields := ["color"]
    coalesceFields := [⟨"size", "attrs"⟩] }

/-- Something has been built with a field that passes a test. -/
theorem Stages.exists_built_of_evaluated {index : Schema.Index} {settings : Settings}
    {graph : Graph} (stages : Stages index settings graph) (test : Field → Bool)
    (evaluated : (build index settings).toOption.map
      (·.2.builtEntities.any (·.fields.any test)) = some true) :
    ∃ built ∈ stages.state.builtEntities, ∃ field ∈ built.fields, test field = true := by
  rw [stages.built] at evaluated
  obtain ⟨built, inBuilt, seen⟩ := List.any_eq_true.mp (Option.some.inj evaluated)
  obtain ⟨field, member, seen⟩ := List.any_eq_true.mp seen
  exact ⟨built, inBuilt, field, member, seen⟩

/-- A materialized field behind a mark is lost together with its name, and the entries of a bag are
lost if another field of its name comes first, although no difference is tolerated. -/
theorem fields_lost_by_merging :
    (maskedRows.IsStrict ∧ ∃ graph, compile dottedRows maskedRows = .ok graph ∧
      ∃ stages : Stages dottedRows maskedRows graph, ∃ entity ∈ graph.entities,
        ∃ built ∈ stages.state.builtAs entity.name, ∃ field ∈ built.fields,
          field.isMaterialized = true ∧ ¬graph.Keeps entity field) ∧
    contestedRows.IsStrict ∧ ∃ graph, compile opaqueRows contestedRows = .ok graph ∧
      ∃ stages : Stages opaqueRows contestedRows graph, ∃ entity ∈ graph.entities,
        ∃ built ∈ stages.state.builtAs entity.name, ∃ field ∈ built.fields,
          "color" ∈ field.kind.bagPaths ∧
            ∀ owner ∈ graph.entities, ∀ known ∈ owner.fields, known.kind.bagPaths = [] := by
  refine ⟨⟨by decide, ?_⟩, by decide, ?_⟩
  · have evaluated : (compile dottedRows maskedRows).toOption.map (fun graph =>
        graph.entities.all fun entity => (materializedNames entity.fields).isEmpty) =
        some true := by decide +kernel
    obtain ⟨graph, compiled, empty⟩ := Result.exists_ok_of_map evaluated
    obtain ⟨stages⟩ := exists_stages compiled
    obtain ⟨built, inBuilt, field, member, materialized⟩ :=
      stages.exists_built_of_evaluated Field.isMaterialized (by decide +kernel)
    obtain ⟨entity, inGraph, name⟩ := stages.exists_entity inBuilt
    refine ⟨graph, compiled, stages, entity, inGraph, built,
      State.mem_builtAs.mpr ⟨inBuilt, name.symm⟩, field, member, materialized, fun keeps => ?_⟩
    -- Whatever keeps the field has its name, and no name is left.
    obtain ⟨owner, inGraph, _, named⟩ := keeps.hasNamed inGraph materialized
    have none := List.all_eq_true.mp empty owner inGraph
    rw [List.isEmpty_iff.mp none] at named
    cases named
  · have evaluated : (compile opaqueRows contestedRows).toOption.map (fun graph =>
        graph.entities.all fun entity => entity.fields.all (·.kind.bagPaths.isEmpty)) =
        some true := by decide +kernel
    obtain ⟨graph, compiled, empty⟩ := Result.exists_ok_of_map evaluated
    obtain ⟨stages⟩ := exists_stages compiled
    obtain ⟨built, inBuilt, field, member, holds⟩ :=
      stages.exists_built_of_evaluated (fun field => field.kind.bagPaths.contains "color")
        (by decide +kernel)
    obtain ⟨entity, inGraph, name⟩ := stages.exists_entity inBuilt
    refine ⟨graph, compiled, stages, entity, inGraph, built,
      State.mem_builtAs.mpr ⟨inBuilt, name.symm⟩, field, member, by simpa using holds, ?_⟩
    intro owner inGraph known knownMember
    have all := List.all_eq_true.mp empty owner inGraph
    exact List.isEmpty_iff.mp (List.all_eq_true.mp all known knownMember)

end EntityGraph
