import EntityGraph.Compile.Graph
import EntityGraph.Proofs.Build.Provenance
import EntityGraph.Proofs.Merge.Groups
import EntityGraph.Proofs.Merge.Notes
import EntityGraph.Proofs.Order.Emission

/-!
# The stages of a compilation

A compilation that succeeds has built entities by type path, has merged those of one name, and has
put the merged ones into the order of emission. What holds of everything that was built, and
survives merging, therefore holds of the entities of the graph. Nothing is noted on a field before
it is merged.
-/
namespace EntityGraph

namespace Compile.State

/-- The entities of all type paths. -/
abbrev builtEntities (state : State) : List Entity := state.entities.map (·.2)

/-- The entities that were built under a name. -/
def builtAs (state : State) (name : String) : List Entity :=
  state.builtEntities.filter (·.name == name)

theorem mem_builtAs {state : State} {name : String} {built : Entity} :
    built ∈ state.builtAs name ↔ built ∈ state.builtEntities ∧ built.name = name := by
  simp [builtAs]

/-- Whatever stands at a type path has been built. -/
theorem mem_builtEntities_of_get? {state : State} {path : String} {built : Entity}
    (found : state.entities.get? path = some built) : built ∈ state.builtEntities :=
  List.mem_map.mpr ⟨(path, built), Table.mem_of_get? found, rfl⟩

end Compile.State

open Compile
open Relation (ReflTransGen TransGen)

theorem book_read_of_build {index : Schema.Index} {settings : Settings} {levels : Nat}
    {book : RuleBook} {state : State} (built : build index settings levels = .ok (book, state)) :
    RuleBook.ofSettings settings = .ok book := by
  obtain ⟨_, _, built⟩ := Result.bind_eq_ok.mp built
  obtain ⟨book, read, built⟩ := Result.bind_eq_ok.mp built
  obtain ⟨_, _, built⟩ := Result.bind_eq_ok.mp built
  obtain ⟨_, _, built⟩ := Result.bind_eq_ok.mp built
  exact (Prod.mk.inj (Result.pure_eq_ok.mp built)).1 ▸ read

/-- What the stages of a compilation have made on the way to a graph. -/
structure Stages (index : Schema.Index) (settings : Settings) (graph : Graph)
    (levels : Nat := levelBound index settings) where
  book : RuleBook
  state : State
  merged : List Entity
  notices : Diagnostics
  built : build index settings levels = .ok (book, state)
  merges : mergeEntities book state.builtEntities = .ok merged
  emits : emissionOrder merged = .ok (graph.entities, notices)

theorem exists_stages {index : Schema.Index} {settings : Settings} {graph : Graph} {levels : Nat}
    (compiled : compile index settings levels = .ok graph) :
    Nonempty (Stages index settings graph levels) := by
  obtain ⟨⟨book, state⟩, built, finished⟩ := Result.bind_eq_ok.mp compiled
  obtain ⟨merged, merges, finished⟩ := Result.bind_eq_ok.mp finished
  obtain ⟨⟨entities, notices⟩, emits, finished⟩ := Result.bind_eq_ok.mp finished
  obtain rfl := Result.pure_eq_ok.mp finished
  exact ⟨⟨book, state, merged, notices, built, merges, emits⟩⟩

namespace Stages

variable {index : Schema.Index} {settings : Settings} {graph : Graph} {levels : Nat}

theorem construction (stages : Stages index settings graph levels) :
    Nonempty (Construction index settings stages.book stages.state) :=
  exists_construction stages.built

theorem book_read (stages : Stages index settings graph levels) :
    RuleBook.ofSettings settings = .ok stages.book :=
  book_read_of_build stages.built

theorem merging (stages : Stages index settings graph levels) :
    Merged stages.book stages.state.builtEntities stages.merged :=
  mergeEntities_merged stages.merges

/-- An entity that has been built stands at its type path, which is its only source. -/
theorem mem_built_iff (stages : Stages index settings graph levels) {entity : Entity} :
    entity ∈ stages.state.builtEntities ↔
      ∃ path, stages.state.entities.get? path = some entity ∧ entity.sourceTypes = [path] := by
  obtain ⟨construction⟩ := stages.construction
  have wellFormed := construction.wellFormed
  constructor
  · intro member
    obtain ⟨⟨path, _⟩, entry, rfl⟩ := List.mem_map.mp member
    have found := Table.get?_of_mem wellFormed.sorted.nodup entry
    exact ⟨path, found, wellFormed.source path _ found⟩
  · rintro ⟨path, found, _⟩
    exact State.mem_builtEntities_of_get? found

theorem paths_nodup (stages : Stages index settings graph levels) :
    stages.state.entities.names.Nodup := by
  obtain ⟨construction⟩ := stages.construction
  exact construction.wellFormed.sorted.nodup

/-- Every built entity has its type path as its source, and no other. -/
theorem built_sourceTypes (stages : Stages index settings graph levels) :
    stages.state.builtEntities.map Entity.sourceTypes =
      stages.state.entities.names.map fun path => [path] := by
  obtain ⟨construction⟩ := stages.construction
  rw [Table.names, List.map_map, List.map_map]
  refine List.map_congr_left fun entry inTable => ?_
  have found := Table.get?_of_mem stages.paths_nodup inTable
  exact construction.wellFormed.source entry.1 entry.2 found

theorem built_isClosed (stages : Stages index settings graph levels) {entity : Entity}
    (member : entity ∈ stages.state.builtEntities) : entity.IsClosed := by
  obtain ⟨construction⟩ := stages.construction
  obtain ⟨path, found, _⟩ := stages.mem_built_iff.mp member
  exact construction.isClosed found

theorem merged_isClosed (stages : Stages index settings graph levels) :
    ∀ entity ∈ stages.merged, entity.IsClosed := by
  intro entity member
  refine (stages.merging.from_group entity member).closed fun built inGroup => ?_
  exact stages.built_isClosed (State.mem_builtAs.mp inGroup).1

theorem merged_isSorted (stages : Stages index settings graph levels) :
    ∀ entity ∈ stages.merged, entity.IsSorted := by
  intro entity member
  refine (stages.merging.from_group entity member).sorted fun built inGroup => ?_
  obtain ⟨construction⟩ := stages.construction
  obtain ⟨path, found, _⟩ := stages.mem_built_iff.mp (State.mem_builtAs.mp inGroup).1
  exact (construction.isLinked path built found).sorted

theorem isEmissionOrder (stages : Stages index settings graph levels) :
    IsEmissionOrder stages.merged graph.entities :=
  isEmissionOrder_of_emissionOrder stages.merging.distinct stages.merged_isClosed stages.emits

theorem mem_merged_iff (stages : Stages index settings graph levels) {entity : Entity} :
    entity ∈ stages.merged ↔ entity ∈ graph.entities := stages.isEmissionOrder.perm.mem_iff.symm

theorem names_nodup (stages : Stages index settings graph levels) :
    (graph.entities.map (·.name)).Nodup :=
  (stages.isEmissionOrder.perm.map _).nodup_iff.mpr stages.merging.distinct

/-- An entity of the graph has been merged from what was built under its name. -/
theorem mergedFrom (stages : Stages index settings graph levels) {entity : Entity}
    (member : entity ∈ graph.entities) :
    MergedFrom stages.book stages.merged (stages.state.builtAs entity.name) entity :=
  stages.merging.from_group entity (stages.mem_merged_iff.mpr member)

/-- Whatever law the merge of groups follows, the entities of the graph keep to it. -/
theorem follows_law (stages : Stages index settings graph levels)
    {From : List Entity → List Entity → Entity → Prop} (law : MergeLaw stages.book From)
    {entity : Entity} (member : entity ∈ graph.entities) :
    From stages.merged (stages.state.builtAs entity.name) entity :=
  (mergeEntities_law law stages.merges).2 entity (stages.mem_merged_iff.mpr member)

/-- What was built under the name of an entity of the graph has become a part of it. -/
theorem source_mem (stages : Stages index settings graph levels) {entity built : Entity}
    (member : entity ∈ graph.entities) (inGroup : built ∈ stages.state.builtAs entity.name)
    {path : String} (source : path ∈ built.sourceTypes) : path ∈ entity.sourceTypes :=
  (stages.mergedFrom member).sources.mem_iff.mpr (List.mem_flatMap.mpr ⟨built, inGroup, source⟩)

/-- The type paths of an entity of the graph are those that have been built under its name. -/
theorem mem_sourceTypes_iff (stages : Stages index settings graph levels) {entity : Entity}
    (member : entity ∈ graph.entities) {path : String} :
    path ∈ entity.sourceTypes ↔ stages.state.NameAt path entity.name := by
  rw [(stages.mergedFrom member).sources.mem_iff, List.mem_flatMap]
  constructor
  · rintro ⟨built, inGroup, source⟩
    obtain ⟨inBuilt, named⟩ := State.mem_builtAs.mp inGroup
    obtain ⟨place, found, sources⟩ := stages.mem_built_iff.mp inBuilt
    rw [sources, List.mem_singleton] at source
    exact ⟨built, source ▸ found, named⟩
  · rintro ⟨built, found, named⟩
    have inBuilt := State.mem_builtEntities_of_get? found
    obtain ⟨construction⟩ := stages.construction
    have source := construction.wellFormed.source path built found
    exact ⟨built, State.mem_builtAs.mpr ⟨inBuilt, named⟩, source ▸ List.mem_singleton_self path⟩

/-- Every entity of the graph has been built for some type path. -/
theorem exists_source (stages : Stages index settings graph levels) {entity : Entity}
    (member : entity ∈ graph.entities) : ∃ path, path ∈ entity.sourceTypes := by
  have named : entity.name ∈ stages.state.builtEntities.map (·.name) :=
    (stages.merging.names _).mp (List.mem_map_of_mem (stages.mem_merged_iff.mpr member))
  obtain ⟨built, inBuilt, name⟩ := List.mem_map.mp named
  obtain ⟨path, found, _⟩ := stages.mem_built_iff.mp inBuilt
  exact ⟨path, (stages.mem_sourceTypes_iff member).mpr ⟨built, found, name⟩⟩

/-- Every name under which something was built is that of an entity of the graph. -/
theorem exists_entity (stages : Stages index settings graph levels) {built : Entity}
    (inBuilt : built ∈ stages.state.builtEntities) :
    ∃ entity ∈ graph.entities, entity.name = built.name := by
  have named : built.name ∈ stages.merged.map (·.name) :=
    (stages.merging.names _).mpr (List.mem_map_of_mem inBuilt)
  obtain ⟨entity, member, name⟩ := List.mem_map.mp named
  exact ⟨entity, stages.mem_merged_iff.mp member, name⟩

theorem hasParent_iff (stages : Stages index settings graph levels) {child parent : String} :
    HasParent stages.merged child parent ↔ HasParent graph.entities child parent := by
  simp only [HasParent, stages.mem_merged_iff]

/-- A field that an entity of the graph has left to its parents is there in the graph. -/
theorem exists_ancestor (stages : Stages index settings graph levels) {entity : Entity}
    (member : entity ∈ graph.entities) {start : String} (parent : entity.parent = some start)
    {field : Field} (covered : Covered stages.book stages.merged start field) :
    ∃ ancestor ∈ graph.entities, TransGen (HasParent graph.entities) entity.name ancestor.name ∧
      ∃ known ∈ ancestor.fields, known.name = field.name ∧ known.dottedPath = field.dottedPath ∧
        (Matches field known ∨ Tolerates stages.book ancestor field.dottedPath) := by
  obtain ⟨ancestor, inMerged, lineage, found⟩ := covered
  have upward : ReflTransGen (HasParent graph.entities) start ancestor.name :=
    Relation.ReflTransGen.mono (fun _ _ => stages.hasParent_iff.mp) _ _ lineage
  exact ⟨ancestor, stages.mem_merged_iff.mp inMerged, .head' ⟨entity, member, rfl, parent⟩ upward,
    found⟩

/-- What holds of every built field of the name, and survives merging, holds of a materialized
field of the graph. -/
theorem blended (stages : Stages index settings graph levels) {entity : Entity}
    (member : entity ∈ graph.entities) {field : Field} (fieldMember : field ∈ entity.fields)
    (materialized : field.isMaterialized = true)
    {Holds : FieldKind → Schema.MaxOccurs → Prop} (blends : Blends Holds)
    (all : ∀ path built, stages.state.entities.get? path = some built → built.name = entity.name →
      path ∈ entity.sourceTypes → ∀ known ∈ built.fields, known.name = field.name →
        Holds known.kind known.maxOccurs) : Holds field.kind field.maxOccurs := by
  refine (stages.mergedFrom member).blended field fieldMember materialized Holds blends ?_
  intro built inGroup known knownMember name
  obtain ⟨inBuilt, named⟩ := State.mem_builtAs.mp inGroup
  obtain ⟨path, found, source⟩ := stages.mem_built_iff.mp inBuilt
  have reached : path ∈ entity.sourceTypes :=
    stages.source_mem member inGroup (source ▸ List.mem_singleton_self path)
  exact all path built found named reached known knownMember name

end Stages

/-! ## Fields before merging -/

namespace Compile

theorem Draft.notes_eq {context : Context} {state : State} {scope : Scope} {draft : Field}
    (drafted : Draft context state scope draft) : draft.notes = [] := by
  cases drafted <;> rfl

theorem Draft.isMaterialized {context : Context} {state : State} {scope : Scope} {draft : Field}
    (drafted : Draft context state scope draft) : draft.kind.isMaterialized = true := by
  cases drafted with
  | @value _ kind _ value _ =>
    cases kind with
    | scalar | collection | toOne => rfl
    | _ => exact value.elim
  | reverseOneToMany | reverseOneToOne | manyToMany => rfl

/-- A field as it is built: nothing is noted on it, and the mark of a dropped element is not
nullable. -/
def IsUnmerged (field : Field) : Prop :=
  field.notes = [] ∧ (field.isDropped = true → field.nullable = false)

theorem Origin.isUnmerged {context : Context} {state : State} {scope : Scope} {field : Field}
    (origin : Origin context state scope field) : IsUnmerged field := by
  cases origin with
  | dropped | parentAlias | content | back => exact ⟨rfl, fun _ => rfl⟩
  | @finished _ field _ _ drafted finished =>
    refine ⟨(finishField_notes finished).trans drafted.notes_eq, fun dropped => ?_⟩
    -- A field that is drafted is materialized, and so it is when it is finished.
    have mark : field.isMaterialized = false := by
      rw [Field.isMaterialized, kind_of_isDropped dropped]
      rfl
    rcases (finishField_form finished).2.1 with same | ⟨_, _, _, same⟩
    · rw [Field.isMaterialized, FieldKind.isMaterialized_of_shape same,
        drafted.isMaterialized] at mark
      cases mark
    · rw [Field.isMaterialized, kind_of_isDropped dropped] at mark
      rw [kind_of_isDropped dropped] at same
      cases same
  | bag => exact ⟨rfl, fun dropped => absurd dropped Bool.false_ne_true⟩
  | extra configured asked =>
    refine ⟨rfl, fun dropped => ?_⟩
    cases asked <;> exact absurd dropped Bool.false_ne_true

theorem IsUnmerged.of_bare {field other : Field} (unmerged : IsUnmerged field)
    (same : other.bare = field.bare) : IsUnmerged other := by
  obtain ⟨_, _, kind, nullable, notes, _⟩ := Field.bare_eq_iff.mp same
  refine ⟨notes.trans unmerged.1, fun dropped => nullable.trans (unmerged.2 ?_)⟩
  rwa [Field.isDropped, kind] at dropped

theorem IsUnmerged.withRelatedName {field : Field} (unmerged : IsUnmerged field)
    (relatedName : Option String) : IsUnmerged (withRelatedName field relatedName) := by
  refine ⟨unmerged.1, fun dropped => unmerged.2 ?_⟩
  have shape := FieldKind.shape_setRelatedName relatedName field.kind
  have kind : setRelatedName relatedName field.kind = .dropped := kind_of_isDropped dropped
  rw [kind] at shape
  unfold Field.isDropped
  cases own : field.kind with
  | dropped => rfl
  | _ =>
    rw [own] at shape
    cases shape

/-- Merging is the first to note anything. -/
theorem Construction.isUnmerged {index : Schema.Index} {settings : Settings} {book : RuleBook}
    {state : State} (construction : Construction index settings book state) {path : String}
    {entity : Entity} (found : state.entities.get? path = some entity) :
    ∀ field ∈ entity.fields, IsUnmerged field := by
  refine construction.holds (fun progress => ∀ path entity,
      progress.state.entities.get? path = some entity → ∀ field ∈ entity.fields, IsUnmerged field)
    (fun _ _ _ found => by cases found) (fun before after step unmerged => ?_) path entity found
  intro path entity found field member
  cases step.fieldSource found with
  | empty fields => simp [fields] at member
  | same foundOld fields => exact unmerged _ _ foundOld field (fields ▸ member)
  | added foundOld added insertion =>
    rcases insertion.placed.cases_of_mem member with
      ⟨known, knownMember, same⟩ | rfl | ⟨former, rfl⟩
    · exact (unmerged _ _ foundOld known knownMember).of_bare same
    · exact added.origin.isUnmerged.withRelatedName _
    · exact ⟨added.origin.isUnmerged.1, fun dropped => absurd dropped Bool.false_ne_true⟩

end Compile

/-- The groups that are merged are fresh. -/
theorem Stages.isFresh {index : Schema.Index} {settings : Settings} {graph : Graph}
    {levels : Nat} (stages : Stages index settings graph levels) (name : String) :
    IsFresh (stages.state.builtAs name) := by
  obtain ⟨construction⟩ := stages.construction
  have unmerged {built : Entity} (inGroup : built ∈ stages.state.builtAs name) :
      ∀ field ∈ built.fields, IsUnmerged field := by
    obtain ⟨path, found, _⟩ := stages.mem_built_iff.mp (State.mem_builtAs.mp inGroup).1
    exact construction.isUnmerged found
  refine ⟨fun built inGroup field member => (unmerged inGroup field member).1,
    fun built inGroup field member => (unmerged inGroup field member).2,
    fun built inGroup => ?_, ?_⟩
  · obtain ⟨path, _, source⟩ := stages.mem_built_iff.mp (State.mem_builtAs.mp inGroup).1
    rw [source]
    rfl
  · have all : (stages.state.builtEntities.map Entity.sourceTypes).Nodup := by
      rw [stages.built_sourceTypes]
      exact stages.paths_nodup.map fun _ _ same => List.singleton_injective same
    exact all.sublist (List.filter_sublist.map _)

/-! ## Small schemas -/

/-- A schema of complex types, each of which is a sequence of elements with their types and numbers
of occurrences. -/
def Schema.Index.ofSequences
    (types : List (String × List (String × String × Schema.MaxOccurs))) : Schema.Index :=
  let element (name type : String) (most : Schema.MaxOccurs) : Schema.Particle :=
    .element ⟨some name, none, some type, none, none, ⟨1, most⟩, none, none, none⟩
  let complexType (name : String) (parts : List Schema.Particle) : Schema.ComplexType :=
    ⟨some name, false, none, [], some (.compositor .sequence .once parts), none, none, none⟩
  { (default : Schema.Index) with
    complexTypes := .ofList (types.map fun (name, members) =>
      (name, complexType name (members.map fun (name, type, most) => element name type most))) }

/-- An element of a named type. -/
def typedElement (name type : String) (most : Schema.MaxOccurs) : Schema.Element :=
  ⟨some name, none, some type, none, none, ⟨1, most⟩, none, none, none⟩

theorem elementComplexType_typedElement {index : Schema.Index} {name type : String}
    {most : Schema.MaxOccurs} {declared : Schema.ComplexType}
    (notBuiltin : Schema.isBuiltin type = false)
    (known : index.complexType? type = some declared) :
    index.elementComplexType (typedElement name type most) = .ok (some declared) := by
  have effective : Schema.Index.effectiveTypeName (typedElement name type most) = some type := rfl
  simp [Schema.Index.elementComplexType, effective, notBuiltin, known]

/-- A type whose content is a compositor with one element. -/
def wrapping (name : String) (kind : Schema.Compositor) (member : Schema.Element) :
    Schema.ComplexType :=
  ⟨some name, false, none, [], some (.compositor kind .once [.element member]), none, none, none⟩

/-- An owner of many rows of one type. -/
def ownerSchema : Schema.Index :=
  .ofSequences [("Owner", [("rows", "Row", .unbounded)]), ("Row", [])]

/-- Nothing but the roots. -/
def settingsOf (roots : List String) : Settings := Settings.standard.withRoots roots

/-- A graph that passes a test for some materialized field has such a field. -/
theorem exists_field_of_evaluated {index : Schema.Index} {settings : Settings} {test : Field → Bool}
    (evaluated : (compile index settings).toOption.map
      (·.entities.any (·.materializedFields.any test)) = some true) :
    ∃ graph, compile index settings = .ok graph ∧
      ∃ entity ∈ graph.entities, ∃ field ∈ entity.materializedFields, test field = true := by
  obtain ⟨graph, compiled, seen⟩ := Result.exists_ok_of_map evaluated
  obtain ⟨entity, inGraph, seen⟩ := List.any_eq_true.mp seen
  obtain ⟨field, inEntity, seen⟩ := List.any_eq_true.mp seen
  exact ⟨graph, compiled, entity, inGraph, field, inEntity, seen⟩

end EntityGraph
