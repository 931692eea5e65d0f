import EntityGraph.Proofs.Graph.Stages

/-!
# Repeated elements in a graph

An element that may occur more or less than once becomes a field that leads to many values, and the
field does so in the graph as well. Only a rule can take that away: one that has the element occur
once, flattens it or replaces its kind, or one that tolerates fields that differ. What surrounds the
element is never looked at: a sequence that repeats, or an element that is flattened although it
repeats, leaves single values behind without a word.
-/
namespace EntityGraph

open Compile
open Relation (ReflTransGen TransGen)

namespace Entity

/-- The entity has a field of the name and path that leads to many values. -/
def HasMany (entity : Entity) (name dottedPath : String) : Prop :=
  ∃ field ∈ entity.fields, field.name = name ∧ field.dottedPath = dottedPath ∧
    field.kind.isCollection = true

/-- Every materialized field of the name and path leads to many values. -/
def HasOnlyMany (entity : Entity) (name dottedPath : String) : Prop :=
  ∀ field ∈ entity.fields, field.name = name → field.dottedPath = dottedPath →
    field.isMaterialized = true → field.kind.isCollection = true

/-- The entity has a mark of the path in place of a field of the name. -/
def HasMark (entity : Entity) (name dottedPath : String) : Prop :=
  ∃ mark ∈ entity.fields, mark.dottedPath = dottedPath ∧ mark.isMaterialized = false ∧
    (mark.name = name ∨ mark.kind = .coalescedAlias name)

/-- The rules of a type path of the entity tolerate fields that differ. -/
def ToleratesMismatch (book : RuleBook) (entity : Entity) (dottedPath : String) : Prop :=
  ∃ path ∈ entity.sourceTypes, ∃ rules, book.forType entity.name path = .ok rules ∧
    rules.ignoreMergeMismatch.contains dottedPath = true

theorem toleratesMismatch_of_sourced {book : RuleBook} {entity : Entity} {dottedPath : String}
    (tolerates : Tolerates book entity dottedPath) {source : String}
    (sourced : source ∈ entity.sourceTypes) : entity.ToleratesMismatch book dottedPath := by
  obtain ⟨rules, read, contains⟩ := tolerates
  cases sources : entity.sourceTypes with
  | nil => simp [sources] at sourced
  | cons first rest =>
    simp only [rulesOf, sources, List.head?_cons, Option.getD_some] at read
    exact ⟨first, by simp [sources], rules, read, contains⟩

end Entity

/-- What leads to many values in a type path of an entity does so in the graph: in the entity, or in
an ancestor that the field has been left to. Otherwise the rules of the entity or of an ancestor
tolerate fields that differ. -/
inductive Graph.KeepsMany (graph : Graph) (book : RuleBook) (entity : Entity)
    (name dottedPath : String) : Prop
  | own (many : entity.HasOnlyMany name dottedPath)
  | inherited {ancestor : Entity} (member : ancestor ∈ graph.entities)
      (lineage : TransGen (HasParent graph.entities) entity.name ancestor.name)
      (many : ancestor.HasMany name dottedPath)
  | tolerated {other : Entity} (member : other ∈ graph.entities)
      (lineage : ReflTransGen (HasParent graph.entities) entity.name other.name)
      (tolerates : other.ToleratesMismatch book dottedPath)

namespace Stages

variable {index : Schema.Index} {settings : Settings} {graph : Graph} {levels : Nat}

/-- Without a mark among them, a name and path belong to one field only. -/
theorem allMany_of_not_hasMark (stages : Stages index settings graph levels) {path : String}
    {built : Entity} (found : stages.state.entities.get? path = some built) {field : Field}
    (member : field ∈ built.fields) (many : field.kind.isCollection = true)
    (unmarked : ¬built.HasMark field.name field.dottedPath) : AllMany built.fields field := by
  obtain ⟨construction⟩ := stages.construction
  have distinct := construction.distinctFields path built found
  have materialized : field.isMaterialized = true := FieldKind.isMaterialized_of_isCollection many
  intro known knownMember name dottedPath
  have knownMaterialized : known.isMaterialized = true := by
    by_contra mark
    exact unmarked ⟨known, knownMember, dottedPath, Bool.eq_false_iff.mpr mark, .inl name⟩
  obtain rfl : known = field := List.inj_on_of_nodup_map distinct
    (List.mem_filter.mpr ⟨knownMember, knownMaterialized⟩)
    (List.mem_filter.mpr ⟨member, materialized⟩) name
  exact many

/-- Merging keeps a field that leads to many values in all of its forms at a type path. -/
theorem keepsMany (stages : Stages index settings graph levels) {entity built : Entity}
    (member : entity ∈ graph.entities) (inGroup : built ∈ stages.state.builtAs entity.name)
    {field : Field} (fieldMember : field ∈ built.fields) (many : field.kind.isCollection = true)
    (all : AllMany built.fields field) :
    graph.KeepsMany stages.book entity field.name field.dottedPath := by
  rcases (stages.mergedFrom member).many built inGroup field fieldMember all with
    ⟨other, otherGroup, tolerates⟩ | ⟨start, parent, covered⟩ | kept
  · obtain ⟨inBuilt, named⟩ := State.mem_builtAs.mp otherGroup
    obtain ⟨path, _, sources⟩ := stages.mem_built_iff.mp inBuilt
    obtain ⟨source, sourced, rules, read, contains⟩ :=
      Entity.toleratesMismatch_of_sourced tolerates (sources ▸ List.mem_singleton_self path)
    exact .tolerated member .refl
      ⟨source, stages.source_mem member otherGroup sourced, rules, named ▸ read, contains⟩
  · obtain ⟨ancestor, inGraph, above, known, knownMember, name, dottedPath, same⟩ :=
      stages.exists_ancestor member parent covered
    rcases same with matches_ | tolerates
    · have collection : known.kind.isCollection = true := by
        rw [isCollection_eq_contains, matches_.category, ← isCollection_eq_contains]
        exact many
      exact .inherited inGraph above ⟨known, knownMember, name, dottedPath, collection⟩
    · obtain ⟨source, sourced⟩ := stages.exists_source inGraph
      exact .tolerated inGraph above.to_reflTransGen
        (Entity.toleratesMismatch_of_sourced tolerates sourced)
  · refine .own fun known knownMember name dottedPath materialized => ?_
    exact kept known (List.mem_filter.mpr ⟨knownMember, materialized⟩) name dottedPath

end Stages

/-- A compilation that succeeds has walked the content of the first root. Wherever it has walked a
content model, the entity of the place has a field for every repeated element whose number of
occurrences is kept by the rules, and this field leads to many values in every entity of the graph
that the place belongs to. A mark in its place says that another field has its name. -/
theorem repeated_elements_lead_to_many {index : Schema.Index} {settings : Settings} {graph : Graph}
    {levels : Nat} (compiled : compile index settings levels = .ok graph) :
    ∃ stages : Stages index settings graph levels,
      ∃ construction : Construction index settings stages.book stages.state,
        construction.context.index = index ∧
        (∀ root rest path type, settings.compiler.roots = root :: rest →
          index.resolveRoot root = .ok (path, type) →
            WalksType construction.context (.start construction.resolver) stages.state path
              type) ∧
        ∀ scope content declaration, construction.Walks scope content →
          content.Holds declaration → declaration.occurs.most ≠ .one →
            KeepsCount construction.context scope declaration →
              ∃ built, stages.state.entities.get? scope.typePath = some built ∧
                (built.HasMark (scope.settledName declaration) (scope.elementPath declaration) ∨
                  built.HasMany (scope.settledName declaration) (scope.elementPath declaration) ∧
                    ∀ entity ∈ graph.entities, scope.typePath ∈ entity.sourceTypes →
                      graph.KeepsMany stages.book entity (scope.settledName declaration)
                        (scope.elementPath declaration)) := by
  obtain ⟨stages⟩ := exists_stages compiled
  obtain ⟨construction, sameIndex, fromRoot⟩ := exists_construction_from_root stages.built
  refine ⟨stages, construction, sameIndex, fromRoot, ?_⟩
  intro scope content declaration walks part repeated keeps
  obtain ⟨built, found, field, fieldMember, dottedPath, which⟩ :=
    construction.holdsRepeated walks declaration part repeated keeps
  refine ⟨built, found, ?_⟩
  rw [or_iff_not_imp_left]
  intro unmarked
  rcases which with alias_ | ⟨name, many⟩
  · exact absurd ⟨field, fieldMember, dottedPath, by rw [Field.isMaterialized, alias_]; rfl,
      .inr alias_⟩ unmarked
  · rw [← name, ← dottedPath] at unmarked ⊢
    refine ⟨⟨field, fieldMember, rfl, rfl, many⟩, fun entity member source => ?_⟩
    obtain ⟨same, foundSame, named⟩ := (stages.mem_sourceTypes_iff member).mp source
    obtain rfl : same = built := Option.some.inj (foundSame.symm.trans found)
    have inGroup : same ∈ stages.state.builtAs entity.name :=
      State.mem_builtAs.mpr ⟨State.mem_builtEntities_of_get? found, named⟩
    exact stages.keepsMany member inGroup fieldMember many
      (stages.allMany_of_not_hasMark found fieldMember many unmarked)

/-! ## Rows without rules -/

/-- The element of the owner that repeats. -/
def rowsElement : Schema.Element :=
  ⟨some "rows", none, some "Row", none, none, ⟨1, .unbounded⟩, none, none, none⟩

/-- The content of the owner. -/
def rowsContent : Schema.Particle := .compositor .sequence .once [.element rowsElement]

/-- Without settings for entities, no type path has rules. -/
theorem forType_of_settingsOf {roots : List String} {book : RuleBook}
    (read : RuleBook.ofSettings (settingsOf roots) = .ok book) (entity path : String) :
    book.forType entity path = .ok .plain := by
  obtain ⟨_, _, read⟩ := Result.bind_eq_ok.mp read
  obtain ⟨_, _, read⟩ := Result.bind_eq_ok.mp read
  obtain rfl := Result.pure_eq_ok.mp read
  exact FieldRules.ofOptions_none

/-- Without rules, the rows of an owner lead to many values wherever the owner is found. -/
theorem repeated_elements_lead_to_many_of_ownerSchema :
    ∃ graph, compile ownerSchema (settingsOf ["Owner"]) = .ok graph ∧
      ∃ stages : Stages ownerSchema (settingsOf ["Owner"]) graph,
        ∃ construction : Construction ownerSchema (settingsOf ["Owner"]) stages.book stages.state,
          ∃ entity,
            let scope := Scope.outermost "Owner" entity .plain
            construction.Walks scope rowsContent ∧ rowsContent.Holds rowsElement ∧
              rowsElement.occurs.most ≠ .one ∧
              KeepsCount construction.context scope rowsElement ∧
              ∃ built, stages.state.entities.get? "Owner" = some built ∧
                (built.HasMark "rows" "rows" ∨
                  built.HasMany "rows" "rows" ∧
                    ∀ entity ∈ graph.entities, "Owner" ∈ entity.sourceTypes →
                      graph.KeepsMany stages.book entity "rows" "rows") := by
  have evaluated : (compile ownerSchema (settingsOf ["Owner"])).toOption.map
      (fun graph => graph.entities.length) = some 2 := by decide +kernel
  obtain ⟨graph, compiled, _⟩ := Result.exists_ok_of_map evaluated
  obtain ⟨stages, construction, _, fromRoot, all⟩ := repeated_elements_lead_to_many compiled
  obtain ⟨entity, _, walks⟩ := fromRoot "Owner" [] "Owner" _ rfl rfl
  have ruled : construction.context.book.forType entity "Owner" = .ok .plain := by
    rw [construction.book_eq]
    exact forType_of_settingsOf stages.book_read entity "Owner"
  have walked := walks rowsContent .plain rfl ruled rfl
  have part : rowsContent.Holds rowsElement := .inside List.mem_cons_self .element
  have repeated : rowsElement.occurs.most ≠ .one := by decide
  have keeps : KeepsCount construction.context (.outermost "Owner" entity .plain) rowsElement :=
    keepsCount_of_plain construction.context rfl rowsElement
  refine ⟨graph, compiled, stages, construction, entity, walked, part, repeated, keeps, ?_⟩
  have result := all _ _ _ walked part repeated keeps
  have settled : (Scope.outermost "Owner" entity .plain).settledName rowsElement = "rows" :=
    (names_of_plain rfl rowsElement).1
  have path : (Scope.outermost "Owner" entity .plain).elementPath rowsElement = "rows" :=
    (names_of_plain rfl rowsElement).2
  rwa [settled, path] at result

/-! ## Repetition that is lost -/

/-- Owners whose rows are said to occur once. -/
def singleRows : Settings :=
  { settingsOf ["Owner"] with
    entities := [⟨"Owner", { EntityOptions.none with oneToOneFields := ["rows"] }, []⟩] }

/-- Owners whose rows are put into the owner itself. -/
def flattenedRows : Settings :=
  { settingsOf ["Owner"] with
    entities := [⟨"Owner", { EntityOptions.none with flattenFields := ["rows"] }, []⟩] }

/-- An owner of many rows, each of which has a city. -/
def cityRows : Schema.Index :=
  .ofSequences [("Owner", [("rows", "Row", .unbounded)]), ("Row", [("city", "xs:string", .one)])]

/-- An owner whose content may be there any number of times. -/
def repeatedCity : Schema.Index :=
  let city : Schema.Element :=
    ⟨some "city", none, some "xs:string", none, none, .once, none, none, none⟩
  let content : Schema.Particle := .compositor .sequence ⟨1, .unbounded⟩ [.element city]
  { (default : Schema.Index) with
    complexTypes := .ofList
      [("Owner", ⟨some "Owner", false, none, [], some content, none, none, none⟩)] }

/-- A graph in which the field of a path has a single value. -/
def Graph.HasSingle (graph : Graph) (dottedPath : String) : Prop :=
  ∃ entity ∈ graph.entities, ∃ field ∈ entity.materializedFields,
    field.dottedPath = dottedPath ∧ field.kind.isCollection = false

theorem exists_single_of_evaluated {index : Schema.Index} {settings : Settings}
    {dottedPath : String}
    (evaluated : (compile index settings).toOption.map
      (·.entities.any (·.materializedFields.any fun field =>
        field.dottedPath == dottedPath && !field.kind.isCollection)) = some true) :
    ∃ graph, compile index settings = .ok graph ∧ graph.HasSingle dottedPath := by
  obtain ⟨graph, compiled, entity, inGraph, field, inEntity, seen⟩ :=
    exists_field_of_evaluated evaluated
  obtain ⟨path, single⟩ := Bool.and_eq_true_iff.mp seen
  refine ⟨graph, compiled, entity, inGraph, field, inEntity, beq_iff_eq.mp path, ?_⟩
  simpa using single

/-- Elements that repeat, or that stand in an element or in content that does, become fields with a
single value. -/
theorem repetition_lost_by_settings :
    (∃ graph, compile ownerSchema singleRows = .ok graph ∧ graph.HasSingle "rows") ∧
      (∃ graph, compile cityRows flattenedRows = .ok graph ∧ graph.HasSingle "rows.city") ∧
      ∃ graph, compile repeatedCity (settingsOf ["Owner"]) = .ok graph ∧
        graph.HasSingle "city" := by
  refine ⟨?_, ?_, ?_⟩
  · exact exists_single_of_evaluated (by decide +kernel)
  · exact exists_single_of_evaluated (by decide +kernel)
  · exact exists_single_of_evaluated (by decide +kernel)

end EntityGraph
