import EntityGraph.Proofs.Build.Provenance
import EntityGraph.Proofs.Graph.Entities

/-!
# Relations to owned rows

When a relation to owned rows is added to an entity, the other end has been built, and refers back
unless its rules leave that field out. No later step takes the field away, so that in the end every
such relation has its other end.

In the graph, the target of such a relation is always there, and built from a single type path it
has the field that refers back. When several type paths are merged, the fields of one name that they
refer back by become one, which keeps the other side of one relation only: the name of such a field
is chosen among the fields of a type path, not of an entity.
-/
namespace EntityGraph

namespace Compile

/-! ## Relations of a build -/

/-- The target of a relation to owned rows, the name of the field that refers back, and whether
there is at most one row. -/
def ownedRows? : FieldKind → Option (String × String × Bool)
  | .reverseOneToMany target name => some (target, name, false)
  | .reverseOneToOne target name => some (target, name, true)
  | _ => none

theorem ownedRows?_shape (kind : FieldKind) : ownedRows? kind.shape = ownedRows? kind := by
  cases kind <;> rfl

theorem Draft.isOtherEnd {context : Context} {state : State} {scope : Scope} {draft : Field}
    (drafted : Draft context state scope draft) {target name : String} {oneToOne : Bool}
    (owned : ownedRows? draft.kind = some (target, name, oneToOne)) :
    ∃ path, state.IsOtherEnd context.book path target scope.entity draft.name name oneToOne := by
  cases drafted with
  | @value site kind most value consistent =>
    have plain : ownedRows? kind = none := by
      cases kind <;> simp_all [State.IsValue, ownedRows?]
    exact absurd (plain.symm.trans owned) (by simp)
  | reverseOneToMany back | reverseOneToOne back =>
    cases owned
    exact ⟨_, back⟩
  | manyToMany _ => cases owned

theorem Origin.isOtherEnd {context : Context} {state : State} {scope : Scope} {field : Field}
    (origin : Origin context state scope field) {target name : String} {oneToOne : Bool}
    (owned : ownedRows? field.kind = some (target, name, oneToOne)) :
    ∃ path, state.IsOtherEnd context.book path target scope.entity field.name name oneToOne := by
  cases origin with
  | dropped | parentAlias | content | back _ | bag => cases owned
  | @finished draft _ _ _ drafted finished =>
    obtain ⟨declared, kind, _⟩ := finishField_form finished
    -- A relation whose kind has been overridden is no relation any more.
    rcases kind with same | ⟨_, _, _, scalar⟩
    · rw [← ownedRows?_shape, same, ownedRows?_shape] at owned
      rw [(Field.declaration_eq_iff.mp declared).1]
      exact drafted.isOtherEnd owned
    · rw [← ownedRows?_shape, scalar] at owned
      cases owned
  | extra _ asked => cases asked <;> cases owned

/-- In the end of a build every relation to owned rows has its other end. -/
theorem Construction.isOtherEnd {index : Schema.Index} {settings : Settings} {book : RuleBook}
    {state : State} (construction : Construction index settings book state) {path : String}
    {entity : Entity} (found : state.entities.get? path = some entity) {field : Field}
    (member : field ∈ entity.fields) {target name : String} {oneToOne : Bool}
    (owned : ownedRows? field.kind = some (target, name, oneToOne)) :
    ∃ targetPath, state.IsOtherEnd book targetPath target entity.name field.name name oneToOne := by
  rw [← construction.book_eq]
  cases construction.traced path entity found field member with
  | mark kind =>
    rw [kind] at owned
    cases owned
  | @added earlier scope offered relatedName steps added same =>
    obtain ⟨fieldName, _, kind, _⟩ := Field.bare_eq_iff.mp same
    rw [← ownedRows?_shape, kind, withRelatedName, FieldKind.shape_setRelatedName,
      ownedRows?_shape] at owned
    obtain ⟨targetPath, other⟩ := added.origin.isOtherEnd owned
    have later := steps.isOtherEnd other
    rw [added.entity_name steps found, fieldName]
    exact ⟨targetPath, later⟩

end Compile

open Compile
open Relation (ReflTransGen TransGen)

/-! ## Relations of a graph -/

/-- The field refers to the owner, as the other side of a relation. -/
def IsOtherSide (owner relation : String) (field : Field) : Prop :=
  ∃ oneToOne onDelete, field.kind = .toOne owner oneToOne onDelete (some relation)

namespace IsOtherSide

variable {owner relation : String} {field : Field}

theorem isMaterialized (back : IsOtherSide owner relation field) :
    field.isMaterialized = true := by
  obtain ⟨_, _, kind⟩ := back
  simp [Field.isMaterialized, kind, FieldKind.isMaterialized]

/-- A field is the other side of one relation only. -/
theorem unique (back : IsOtherSide owner relation field) {otherOwner otherRelation : String}
    (other : IsOtherSide otherOwner otherRelation field) :
    otherOwner = owner ∧ otherRelation = relation := by
  obtain ⟨_, _, kind⟩ := back
  obtain ⟨_, _, otherKind⟩ := other
  obtain ⟨owners, _, _, relations⟩ := FieldKind.toOne.inj (otherKind.symm.trans kind)
  exact ⟨owners, Option.some.inj relations⟩

end IsOtherSide

/-- Merging the other sides of one relation gives its other side. -/
theorem blends_otherSide (owner relation : String) :
    Blends fun kind _ => kind.isMaterialized = true →
      ∃ oneToOne onDelete, kind = .toOne owner oneToOne onDelete (some relation) := by
  constructor
  · intro target oneToOne onDelete relatedName otherOneToOne otherOnDelete otherName _ _ _ second _
    obtain ⟨_, _, kind⟩ := second rfl
    exact ⟨_, _, kind⟩
  · intro entries joined _ first _
    obtain ⟨_, _, kind⟩ := first rfl
    cases kind

namespace Graph

/-- An entity of the graph has a relation to owned rows of a target, which is to refer back by a
field. -/
def OwnsRows (graph : Graph) (owner relation target back : String) : Prop :=
  ∃ entity ∈ graph.entities, entity.name = owner ∧
    ∃ field ∈ entity.fields, field.name = relation ∧
      ∃ oneToOne, ownedRows? field.kind = some (target, back, oneToOne)

instance (graph : Graph) (owner relation target back : String) :
    Decidable (graph.OwnsRows owner relation target back) :=
  inferInstanceAs (Decidable (∃ entity ∈ graph.entities, entity.name = owner ∧
    ∃ field ∈ entity.fields, field.name = relation ∧
      ∃ oneToOne, ownedRows? field.kind = some (target, back, oneToOne)))

/-- The target of a relation, or one of its ancestors, has the field that refers back. -/
def HasOtherSide (graph : Graph) (owner relation target back : String) : Prop :=
  ∃ ancestor ∈ graph.entities, ReflTransGen (HasParent graph.entities) target ancestor.name ∧
    ∃ field ∈ ancestor.fields, field.name = back ∧ IsOtherSide owner relation field

/-- What was built for the target under the name of the field refers back to the relation, and so
does what the ancestors of the target have in its place. -/
structure Undisputed (graph : Graph) (state : State) (owner relation target back : String) :
    Prop where
  sources : ∀ built ∈ state.builtAs target, ∀ field ∈ built.fields, field.name = back →
    (field.isMaterialized = true ∨ field.dottedPath = "") → IsOtherSide owner relation field
  ancestors : ∀ ancestor ∈ graph.entities,
    TransGen (HasParent graph.entities) target ancestor.name →
      ∀ field ∈ ancestor.fields, field.name = back → field.dottedPath = "" →
        IsOtherSide owner relation field

/-- What was built for the target under the name of the field refers back to relations of the
graph. -/
def OnlyOtherSides (graph : Graph) (state : State) (target back : String) : Prop :=
  ∀ built ∈ state.builtAs target, ∀ field ∈ built.fields, field.name = back →
    (field.isMaterialized = true ∨ field.dottedPath = "") →
      ∃ owner relation, graph.OwnsRows owner relation target back ∧
        IsOtherSide owner relation field

end Graph

namespace Stages

variable {index : Schema.Index} {settings : Settings} {graph : Graph} {levels : Nat}
  {owner relation target back : String}

/-- What was built for the target of a relation is its other end. -/
theorem isOtherEnd (stages : Stages index settings graph levels)
    (owns : graph.OwnsRows owner relation target back) :
    ∃ path oneToOne,
      stages.state.IsOtherEnd stages.book path target owner relation back oneToOne := by
  obtain ⟨construction⟩ := stages.construction
  obtain ⟨entity, member, rfl, field, fieldMember, rfl, oneToOne, owned⟩ := owns
  have materialized : field.isMaterialized = true := by
    cases kind : field.kind <;>
      simp_all [ownedRows?, Field.isMaterialized, FieldKind.isMaterialized]
  have blends : Blends fun kind _ => ∀ oneToOne, ownedRows? kind = some (target, back, oneToOne) →
      ∃ path,
        stages.state.IsOtherEnd stages.book path target entity.name field.name back oneToOne :=
    ⟨by simp [ownedRows?], by simp [ownedRows?]⟩
  obtain ⟨path, other⟩ := stages.blended member fieldMember materialized blends
    (fun path built found named _ known knownMember name oneToOne knownOwned => by
      obtain ⟨targetPath, other⟩ := construction.isOtherEnd found knownMember knownOwned
      rw [named, name] at other
      exact ⟨targetPath, other⟩) oneToOne owned
  exact ⟨path, oneToOne, other⟩

/-- Type paths have one entity each. -/
theorem builtEntities_nodup (stages : Stages index settings graph levels) :
    stages.state.builtEntities.Nodup := by
  refine List.Nodup.of_map Entity.sourceTypes ?_
  rw [stages.built_sourceTypes]
  exact stages.paths_nodup.map fun _ _ same => List.singleton_inj.mp same

/-- What was built under the name of an entity of one type path is a single entity. -/
theorem builtAs_of_single_source (stages : Stages index settings graph levels)
    {entity built : Entity} (member : entity ∈ graph.entities) {path : String}
    (single : entity.sourceTypes = [path]) (inGroup : built ∈ stages.state.builtAs entity.name) :
    stages.state.builtAs entity.name = [built] := by
  have atPath : ∀ other ∈ stages.state.builtAs entity.name,
      stages.state.entities.get? path = some other := by
    intro other otherGroup
    obtain ⟨otherPath, found, source⟩ :=
      stages.mem_built_iff.mp (State.mem_builtAs.mp otherGroup).1
    have reached := stages.source_mem member otherGroup (source ▸ List.mem_singleton_self otherPath)
    rw [single, List.mem_singleton] at reached
    exact reached ▸ found
  have same : ∀ other ∈ stages.state.builtAs entity.name, other = built := fun other otherGroup =>
    Option.some.inj ((atPath other otherGroup).symm.trans (atPath built inGroup))
  -- A list of one entity, over and over, in which nothing is repeated.
  have replicated := List.eq_replicate_of_mem same
  have distinct : (stages.state.builtAs entity.name).Nodup := stages.builtEntities_nodup.filter _
  have short : (stages.state.builtAs entity.name).length ≤ 1 := by
    rw [replicated] at distinct
    exact List.nodup_replicate.mp distinct
  have one : (stages.state.builtAs entity.name).length = 1 :=
    Nat.le_antisymm short (List.length_pos_of_mem inGroup)
  rw [replicated, one]
  rfl

/-- Names of entities of the graph are not used twice. -/
theorem eq_of_name (stages : Stages index settings graph levels) {first second : Entity}
    (inGraph : first ∈ graph.entities) (alsoInGraph : second ∈ graph.entities)
    (same : first.name = second.name) : first = second :=
  List.inj_on_of_nodup_map stages.names_nodup inGraph alsoInGraph same

section Target

variable {entity built : Entity} {path : String} {oneToOne : Bool}

/-- What refers back in the only entity of a name does so in the graph. -/
theorem hasOtherSide_of_single (stages : Stages index settings graph levels)
    (member : entity ∈ graph.entities) (named : entity.name = target)
    (single : entity.sourceTypes = [path]) (inGroup : built ∈ stages.state.builtAs entity.name)
    (refers : RefersBack built owner relation back oneToOne) :
    graph.HasOtherSide owner relation target back := by
  have grown := (stages.mergedFrom member).single built
    (stages.builtAs_of_single_source member single inGroup)
  obtain ⟨field, fieldMember, name, _, kind⟩ := refers
  obtain ⟨later, laterMember, step⟩ := grown.exists_later fieldMember
  refine ⟨entity, member, named ▸ .refl, later, laterMember, step.name.trans name, oneToOne,
    .cascade, ?_⟩
  rcases step.kind_cases with same | ⟨_, _, bag, _⟩
  · exact same.trans kind
  · rw [kind] at bag
    cases bag

/-- What refers back, and is undisputed, does so in the graph: merging keeps it, unless an ancestor
has it already. -/
theorem hasOtherSide_of_undisputed (stages : Stages index settings graph levels)
    (member : entity ∈ graph.entities) (named : entity.name = target)
    (undisputed : graph.Undisputed stages.state owner relation target back)
    (inGroup : built ∈ stages.state.builtAs entity.name)
    (refers : RefersBack built owner relation back oneToOne) :
    graph.HasOtherSide owner relation target back := by
  subst named
  obtain ⟨field, fieldMember, rfl, root, _⟩ := refers
  have everywhere : ∀ other ∈ stages.state.builtAs entity.name, ∀ known ∈ other.fields,
      known.name = field.name → known.dottedPath = field.dottedPath →
        known.isMaterialized = true := by
    intro other otherGroup known knownMember name path
    have refers := undisputed.sources other otherGroup known knownMember name
      (.inr (path.trans root))
    exact refers.isMaterialized
  -- Merging keeps the name, or the entity has adopted a parent and left the field to an ancestor.
  rcases (stages.mergedFrom member).complete built inGroup field fieldMember everywhere with
    kept | ⟨start, parent, covered⟩
  · obtain ⟨merged, mergedMember, materialized, name⟩ := mem_materializedNames.mp kept
    refine ⟨entity, member, .refl, merged, mergedMember, name, ?_⟩
    refine stages.blended member mergedMember materialized (blends_otherSide owner relation) ?_
      materialized
    intro path other foundOther otherNamed _ known knownMember knownName knownMaterialized
    have otherGroup : other ∈ stages.state.builtAs entity.name :=
      State.mem_builtAs.mpr ⟨State.mem_builtEntities_of_get? foundOther, otherNamed⟩
    exact undisputed.sources other otherGroup known knownMember (knownName.trans name)
      (.inl knownMaterialized)
  · obtain ⟨ancestor, inGraph, above, found, foundMember, name, path, _⟩ :=
      stages.exists_ancestor member parent covered
    exact ⟨ancestor, inGraph, above.to_reflTransGen, found, foundMember, name,
      undisputed.ancestors ancestor inGraph above found foundMember name (path.trans root)⟩

/-- The other side of a relation to an entity without parent is a field of that entity. -/
theorem exists_otherSide (stages : Stages index settings graph levels)
    (member : entity ∈ graph.entities) (named : entity.name = target)
    (parentless : entity.parent = none)
    (otherSide : graph.HasOtherSide owner relation target back) :
    ∃ field ∈ entity.fields, field.name = back ∧ IsOtherSide owner relation field := by
  obtain ⟨ancestor, ancestorMember, lineage, has⟩ := otherSide
  rcases Relation.ReflTransGen.cases_head lineage with same | ⟨parent, link, _⟩
  · rwa [← stages.eq_of_name member ancestorMember (named.trans same)] at has
  · obtain ⟨child, childMember, childName, parent⟩ := link
    rw [stages.eq_of_name childMember member (childName.trans named.symm), parentless] at parent
    cases parent

/-- An entity without parent is the other side of one relation only, by the fields of one name. -/
theorem unique_otherSide (stages : Stages index settings graph levels)
    (member : entity ∈ graph.entities) (named : entity.name = target)
    (parentless : entity.parent = none) (otherSide : graph.HasOtherSide owner relation target back)
    {otherOwner otherRelation : String}
    (other : graph.HasOtherSide otherOwner otherRelation target back) :
    otherOwner = owner ∧ otherRelation = relation := by
  obtain ⟨field, fieldMember, name, refers⟩ :=
    stages.exists_otherSide member named parentless otherSide
  obtain ⟨second, secondMember, secondName, secondRefers⟩ :=
    stages.exists_otherSide member named parentless other
  have same : field = second := List.inj_on_of_nodup_map (stages.fieldNames_nodup member)
    (List.mem_filter.mpr ⟨fieldMember, refers.isMaterialized⟩)
    (List.mem_filter.mpr ⟨secondMember, secondRefers.isMaterialized⟩) (name.trans secondName.symm)
  exact refers.unique (same ▸ secondRefers)

/-- An entity without parent is undisputed if only one relation uses the name, and nothing but
relations does. -/
theorem undisputed_of_unique (stages : Stages index settings graph levels)
    (member : entity ∈ graph.entities) (named : entity.name = target)
    (parentless : entity.parent = none)
    (only : graph.OnlyOtherSides stages.state target back)
    (unique : ∀ otherOwner otherRelation, graph.OwnsRows otherOwner otherRelation target back →
      otherOwner = owner ∧ otherRelation = relation) :
    graph.Undisputed stages.state owner relation target back := by
  constructor
  · intro built inGroup field fieldMember name present
    obtain ⟨otherOwner, otherRelation, owns, refers⟩ :=
      only built inGroup field fieldMember name present
    obtain ⟨rfl, rfl⟩ := unique otherOwner otherRelation owns
    exact refers
  · intro ancestor _ above
    obtain ⟨parent, ⟨child, childMember, childName, has⟩, _⟩ := TransGen.head'_iff.mp above
    rw [stages.eq_of_name childMember member (childName.trans named.symm), parentless] at has
    cases has

end Target

end Stages

/-- A relation to owned rows leads to an entity of the graph. Unless the rules of that entity leave
the field out, the entity refers back if it comes from one type path or the name is undisputed. If
it has no parent and only relations use the name, all of them have their other sides exactly if
there is one of them. -/
theorem otherSide_of_ownsRows {index : Schema.Index} {settings : Settings} {graph : Graph}
    {levels : Nat} (compiled : compile index settings levels = .ok graph) :
    ∃ stages : Stages index settings graph levels, ∀ owner relation target back,
      graph.OwnsRows owner relation target back →
        ∃ entity ∈ graph.entities, entity.name = target ∧
          ((∀ path ∈ entity.sourceTypes, ¬LeftOut stages.book path target back) →
            ((∃ path, entity.sourceTypes = [path]) ∨
                graph.Undisputed stages.state owner relation target back →
              graph.HasOtherSide owner relation target back) ∧
            (entity.parent = none → graph.OnlyOtherSides stages.state target back →
              ((∀ otherOwner otherRelation, graph.OwnsRows otherOwner otherRelation target back →
                  graph.HasOtherSide otherOwner otherRelation target back) ↔
                ∀ otherOwner otherRelation, graph.OwnsRows otherOwner otherRelation target back →
                  otherOwner = owner ∧ otherRelation = relation))) := by
  obtain ⟨stages⟩ := exists_stages compiled
  refine ⟨stages, fun owner relation target back owns => ?_⟩
  obtain ⟨path, oneToOne, built, found, builtName, refers⟩ := stages.isOtherEnd owns
  have inBuilt := State.mem_builtEntities_of_get? found
  obtain ⟨entity, member, named⟩ := stages.exists_entity inBuilt
  have inGroup : built ∈ stages.state.builtAs entity.name :=
    State.mem_builtAs.mpr ⟨inBuilt, named.symm⟩
  have targetName : entity.name = target := named.trans builtName
  refine ⟨entity, member, targetName, fun kept => ?_⟩
  obtain ⟨construction⟩ := stages.construction
  have source : path ∈ entity.sourceTypes := stages.source_mem member inGroup
    (construction.wellFormed.source path built found ▸ List.mem_singleton_self path)
  -- No rule leaves the field out, so what was built has it.
  have refersBack := refers.resolve_left (kept path source)
  have undisputed (free : graph.Undisputed stages.state owner relation target back) :
      graph.HasOtherSide owner relation target back :=
    stages.hasOtherSide_of_undisputed member targetName free inGroup refersBack
  constructor
  · rintro (⟨onlyPath, single⟩ | free)
    · exact stages.hasOtherSide_of_single member targetName single inGroup refersBack
    · exact undisputed free
  · intro parentless only
    constructor
    · -- There is only one field of the name, which is the other side of one relation.
      intro all otherOwner otherRelation other
      exact stages.unique_otherSide member targetName parentless (all owner relation owns)
        (all otherOwner otherRelation other)
    · intro unique otherOwner otherRelation other
      obtain ⟨rfl, rfl⟩ := unique otherOwner otherRelation other
      exact undisputed (stages.undisputed_of_unique member targetName parentless only unique)

/-- The rules of an entity keep a field. -/
theorem not_leftOut_of_evaluated {settings : Settings} {book : RuleBook}
    (read : RuleBook.ofSettings settings = .ok book) {path entity name : String}
    (kept : (RuleBook.ofSettings settings).toOption.map (fun book =>
      (book.forType entity path).toOption.map (·.dropAfterProcessing.contains name)) =
        some (some false)) : ¬LeftOut book path entity name := by
  rintro ⟨rules, given, dropped⟩
  simp [read, given, dropped, Except.toOption] at kept

theorem otherSide_of_ownsRows_of_ownerSchema :
    ∃ graph, compile ownerSchema (settingsOf ["Owner"]) = .ok graph ∧
      graph.OwnsRows "Owner" "rows" "Row" "owner" ∧
      graph.HasOtherSide "Owner" "rows" "Row" "owner" := by
  have evaluated : (compile ownerSchema (settingsOf ["Owner"])).toOption.map (fun graph =>
      decide (graph.OwnsRows "Owner" "rows" "Row" "owner" ∧
        ∀ entity ∈ graph.entities, entity.name = "Row" → entity.sourceTypes = ["Row"])) =
      some true := by decide +kernel
  obtain ⟨graph, compiled, seen⟩ := Result.exists_ok_of_map evaluated
  obtain ⟨owns, sources⟩ := of_decide_eq_true seen
  obtain ⟨stages, sides⟩ := otherSide_of_ownsRows compiled
  obtain ⟨entity, member, named, side⟩ := sides _ _ _ _ owns
  have source := sources entity member named
  refine ⟨graph, compiled, owns, (side fun path inSources => ?_).1 (.inl ⟨"Row", source⟩)⟩
  obtain rfl : path = "Row" := by simpa [source] using inSources
  exact not_leftOut_of_evaluated stages.book_read (by decide)

/-- An owner of rows of two types. -/
def twoRowTypes : Schema.Index :=
  .ofSequences [("Owner", [("first", "Left", .unbounded), ("second", "Right", .unbounded)]),
    ("Left", []), ("Right", [])]

/-- The rows of both types become one entity. -/
def mergedRows : Settings := { settingsOf ["Owner"] with typeMap := [⟨"Left|Right", "Row", true⟩] }

/-- When the types of the rows of two relations are merged, the rows refer back to one of them
only, although no rule leaves a field out. -/
theorem otherSide_lost_by_merging :
    ∃ graph, compile twoRowTypes mergedRows = .ok graph ∧
      graph.OwnsRows "Owner" "first" "Row" "owner" ∧
      graph.OwnsRows "Owner" "second" "Row" "owner" ∧
      (∀ stages : Stages twoRowTypes mergedRows graph, ∀ entity ∈ graph.entities,
        entity.name = "Row" → ∀ path ∈ entity.sourceTypes,
          ¬LeftOut stages.book path "Row" "owner") ∧
      ¬graph.HasOtherSide "Owner" "second" "Row" "owner" := by
  have evaluated : (compile twoRowTypes mergedRows).toOption.map (fun graph =>
      decide (graph.OwnsRows "Owner" "first" "Row" "owner" ∧
        graph.OwnsRows "Owner" "second" "Row" "owner" ∧
        (∀ entity ∈ graph.entities, entity.name = "Row" →
          ∀ path ∈ entity.sourceTypes, path = "Left" ∨ path = "Right") ∧
        ∀ entity ∈ graph.entities, ∀ field ∈ entity.fields,
          isOtherEnd "second" field = false)) = some true := by decide +kernel
  obtain ⟨graph, compiled, seen⟩ := Result.exists_ok_of_map evaluated
  obtain ⟨first, second, sources, none⟩ := of_decide_eq_true seen
  refine ⟨graph, compiled, first, second, fun stages entity member named path inSources => ?_, ?_⟩
  · rcases sources entity member named path inSources with rfl | rfl
    · exact not_leftOut_of_evaluated stages.book_read (by decide)
    · exact not_leftOut_of_evaluated stages.book_read (by decide)
  · rintro ⟨ancestor, member, _, field, fieldMember, _, _, _, kind⟩
    have otherEnd := none ancestor member field fieldMember
    simp [isOtherEnd, kind] at otherEnd

end EntityGraph
