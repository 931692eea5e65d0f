import EntityGraph.Proofs.Build.Inheritance
import EntityGraph.Proofs.Graph.Relations

/-!
# The element behind the parent

The rules may select the parent of an entity by the name of a field. The field is then marked, and
the entity inherits from the type of the element that has the name. The mark is set by the name
alone, though: an attribute of that name, or an element of a type whose parent is another one, is
marked as well, and nothing of it is in the graph.
-/
namespace EntityGraph

open Compile
open Schema (ComplexType Index Particle)

namespace Stages

variable {index : Index} {settings : Settings} {graph : Graph} {levels : Nat}

/-- The entity of a type path has been built from the type. -/
def BuiltFrom (stages : Stages index settings graph levels) (path : String) (type : ComplexType) :
    Prop :=
  ∃ roots names given levels before after,
    BuildRun ⟨index, settings, stages.book, roots⟩ names path given levels before after ∧
      Outlasts path after stages.state ∧ Defines index path given type

/-- The members of a type have been walked in the place of the type path, and all fields that this
has left at the path are in the entity. -/
def WalkedInto (stages : Stages index settings graph levels) (entity : Entity) (path : String)
    (rules : FieldRules) (type : ComplexType) : Prop :=
  ∃ roots levels before after walked,
    (walkMembers ⟨index, settings, stages.book, roots⟩
      (Compile.onward ⟨index, settings, stages.book, roots⟩ levels)
      (.outermost path entity.name rules) type).run before = .ok ((), after) ∧
    after.entities.get? path = some walked ∧
    ∀ field ∈ walked.fields, ∃ kept ∈ entity.fields,
      kept.name = field.name ∧ kept.dottedPath = field.dottedPath ∧
        kept.isMaterialized = field.isMaterialized

/-- An entity inherits from a type path: the entity of that path is its parent, or the members of
the type are among its own. -/
inductive InheritsFrom (stages : Stages index settings graph levels) (entity : Entity)
    (path : String) (rules : FieldRules) (parent : String) : Prop
  | linked {other : Entity} (links : rules.includesParentFields = false)
      (member : other ∈ graph.entities) (source : parent ∈ other.sourceTypes)
      (hasParent : entity.parent = some other.name) :
      InheritsFrom stages entity path rules parent
  | included {type : ComplexType} (includes : rules.includesParentFields = true)
      (isType : index.complexType? parent = some type)
      (walked : stages.WalkedInto entity path rules type) :
      InheritsFrom stages entity path rules parent

/-- An entity of one type path is what was built for the path, up to its bags. -/
theorem grownEntity_of_single (stages : Stages index settings graph levels) {entity : Entity}
    (member : entity ∈ graph.entities) {path : String} (single : entity.sourceTypes = [path]) :
    ∃ built, stages.state.entities.get? path = some built ∧ built.name = entity.name ∧
      GrownEntity built entity := by
  have source : path ∈ entity.sourceTypes := single ▸ List.mem_singleton_self path
  obtain ⟨built, found, named⟩ := (stages.mem_sourceTypes_iff member).mp source
  have inGroup : built ∈ stages.state.builtAs entity.name :=
    State.mem_builtAs.mpr ⟨State.mem_builtEntities_of_get? found, named⟩
  have alone := stages.builtAs_of_single_source member single inGroup
  exact ⟨built, found, named, (stages.mergedFrom member).single built alone⟩

theorem inheritsFrom_of_inherits (stages : Stages index settings graph levels) {roots : List String}
    {names : List NameRule} {words : Vocabulary index} {entity built : Entity}
    {path parent : String} {rules : FieldRules}
    (tracked : Tracked ⟨index, settings, stages.book, roots⟩ names words [] stages.state)
    (atPath : stages.state.entities.get? path = some built) (named : built.name = entity.name)
    (grown : GrownEntity built entity)
    (inherits : Inherits ⟨index, settings, stages.book, roots⟩ names rules path parent
      stages.state) : stages.InheritsFrom entity path rules parent := by
  have ofPath {place : String} {known : Entity}
      (found : stages.state.entities.get? place = some known) :
      known.name = (nameOf names place).entity :=
    tracked.named ▸ tracked.wellFormed.named place known found
  cases inherits with
  | linked links found hasParent isBuilt =>
    obtain ⟨builtParent, foundParent⟩ := State.isBuilt_iff.mp isBuilt
    obtain ⟨other, inGraph, otherName⟩ :=
      stages.exists_entity (State.mem_builtEntities_of_get? foundParent)
    obtain rfl := Option.some.inj (found.symm.trans atPath)
    refine .linked links inGraph ?_ ?_
    · exact (stages.mem_sourceTypes_iff inGraph).mpr ⟨builtParent, foundParent, otherName.symm⟩
    · rw [grown.parent, hasParent, otherName, ofPath foundParent]
  | included includes isType ran left found kept =>
    obtain rfl := Option.some.inj (found.symm.trans atPath)
    rw [← ofPath atPath, named] at ran
    refine .included includes isType ⟨roots, _, _, _, _, ran, left, fun field member => ?_⟩
    obtain ⟨same, sameMember, bare⟩ := kept.fields field member
    obtain ⟨later, laterMember, grows⟩ := grown.exists_later sameMember
    obtain ⟨name, dottedPath, _⟩ := Field.bare_eq_iff.mp bare
    exact ⟨later, laterMember, grows.name.trans name, grows.dottedPath.trans dottedPath,
      grows.isMaterialized.trans (Field.isMaterialized_of_bare bare)⟩

end Stages

/-- The settings name a root of the type. -/
def IsRootType (index : Index) (settings : Settings) (type : ComplexType) : Prop :=
  ∃ selector ∈ settings.compiler.roots, ∃ path, index.resolveRoot selector = .ok (path, type)

/-- A field of an entity of one type path is marked as the parent only if it is the mark of a member
of the schema by whose name the rules select the parent. Where the type has content of its own, and
the rules do not name the parent, the content has an element of the name; and the entity inherits
from the type of the element, if that has a name. -/
theorem marked_elements_are_inherited {index : Index} {settings : Settings} {graph : Graph}
    {levels : Nat} (compiled : compile index settings levels = .ok graph) :
    ∃ stages : Stages index settings graph levels,
      ∀ entity ∈ graph.entities, ∀ path, entity.sourceTypes = [path] →
        ∀ field ∈ entity.fields, field.kind = .parentAlias →
          ∃ rules member, stages.book.forType entity.name path = .ok rules ∧
            ReachedMember index (IsRootType index settings) member ∧ IsMark rules member field ∧
            (rules.isCustom = false → ∃ type, stages.BuiltFrom path type ∧
              (rules.options.parentType = none → ∀ content, type.content = some content →
                ∃ declaration, content.element? field.name = some declaration ∧
                  ∀ parent, Index.effectiveTypeName declaration = some parent →
                    stages.InheritsFrom entity path rules parent)) := by
  obtain ⟨stages⟩ := exists_stages compiled
  refine ⟨stages, fun entity member path single field fieldMember mark => ?_⟩
  obtain ⟨roots, names, tracked⟩ := build_tracked (.reached index (IsRootType index settings))
    (fun selector inRoots root gives => .start ⟨selector, inRoots, root.1, gives⟩) stages.built
  obtain ⟨built, found, named, grown⟩ := stages.grownEntity_of_single member single
  have ofPath : (nameOf names path).entity = entity.name :=
    (tracked.named ▸ tracked.wellFormed.named path built found).symm.trans named
  -- The mark has been there since the build, and the run behind the entity has read the same rules.
  obtain ⟨old, oldMember, grows⟩ := grown.exists_earlier fieldMember
  have oldMark : old.kind = .parentAlias := by
    rcases grows.kind_cases with kind | ⟨_, _, _, kind⟩
    · exact kind ▸ mark
    · rw [mark] at kind
      cases kind
  obtain ⟨rules, source, met, read, isMark⟩ := tracked.marked path built found old oldMember oldMark
  obtain ⟨given, levels, before, after, run, outlasts⟩ :=
    (tracked.finished path (State.isBuilt_iff.mpr ⟨built, found⟩)).resolve_left List.not_mem_nil
  obtain ⟨sameRules, readAgain, typed⟩ := run.inherits
  obtain rfl : rules = sameRules := Except.ok.inj (read.symm.trans readAgain)
  have isMark := isMark.of_same grows.name grows.dottedPath
  refine ⟨rules, source, ofPath ▸ read, met, isMark, fun plain => ?_⟩
  obtain ⟨type, defines, settled⟩ := typed plain
  refine ⟨type, ⟨roots, names, given, levels, before, after, run, outlasts, defines⟩, ?_⟩
  intro orphan content has
  obtain ⟨declaration, inside, inherits⟩ := settled orphan content has field.name isMark.selected
  exact ⟨declaration, inside, fun parent hasType =>
    stages.inheritsFrom_of_inherits tracked found named grown
      ((inherits parent hasType).mono outlasts)⟩

/-- An owner with a header, and attributes. -/
def headerSchema (attributes : List Schema.AttributeItem) : Index :=
  let schema : Index :=
    .ofSequences [("Owner", [("header", "Header", .one)]),
      ("Header", [("code", "xs:string", .one)])]
  { schema with
    complexTypes := schema.complexTypes.map fun (name, type) =>
      (name, if name = "Owner" then { type with attributes } else type) }

/-- The header is the parent of its owner. -/
def headerSettings : Settings :=
  { settingsOf ["Owner"] with
    entities := [⟨"Owner", { EntityOptions.none with parentField := some "header" }, []⟩] }

theorem eq_parentAlias_of_beq {kind : FieldKind} (same : (kind == .parentAlias) = true) :
    kind = .parentAlias := by
  cases kind <;> first | rfl | exact absurd same Bool.false_ne_true

theorem marked_elements_are_inherited_of_headerSchema :
    ∃ graph, compile (headerSchema []) headerSettings = .ok graph ∧
      ∃ stages : Stages (headerSchema []) headerSettings graph, ∃ entity ∈ graph.entities,
        entity.sourceTypes = ["Owner"] ∧ entity.parent = some "Header" ∧
          ∃ field ∈ entity.fields, field.kind = .parentAlias ∧ field.dottedPath = "header" ∧
            ∃ rules member type, IsMark rules member field ∧ rules.isCustom = false ∧
              rules.options.parentType = none ∧
              stages.BuiltFrom "Owner" type ∧ ∀ content, type.content = some content →
                ∃ declaration, content.element? field.name = some declaration ∧
                  ∀ parent, Index.effectiveTypeName declaration = some parent →
                    stages.InheritsFrom entity "Owner" rules parent := by
  have evaluated : (compile (headerSchema []) headerSettings).toOption.map (fun graph => decide
      (∃ entity ∈ graph.entities, entity.name = "Owner" ∧ entity.sourceTypes = ["Owner"] ∧
        entity.parent = some "Header" ∧ ∃ field ∈ entity.fields,
          (field.kind == .parentAlias) = true ∧ field.dottedPath = "header")) = some true := by
    decide +kernel
  have rulesRead : (RuleBook.ofSettings headerSettings).toOption.map (fun book =>
      (book.forType "Owner" "Owner").toOption.map fun rules =>
        (rules.isCustom, rules.options.parentType)) = some (some (false, none)) := by decide
  obtain ⟨graph, compiled, seen⟩ := Result.exists_ok_of_map evaluated
  obtain ⟨entity, member, named, single, hasParent, field, inEntity, mark, dottedPath⟩ :=
    of_decide_eq_true seen
  obtain ⟨stages, marked⟩ := marked_elements_are_inherited compiled
  obtain ⟨rules, source, read, _, isMark, typed⟩ :=
    marked entity member "Owner" single field inEntity (eq_parentAlias_of_beq mark)
  rw [stages.book_read] at rulesRead
  rw [named] at read
  obtain ⟨plain, orphan⟩ : rules.isCustom = false ∧ rules.options.parentType = none := by
    simpa [read, Except.toOption] using rulesRead
  obtain ⟨type, built, settled⟩ := typed plain
  exact ⟨graph, compiled, stages, entity, member, single, hasParent, field, inEntity,
    eq_parentAlias_of_beq mark, dottedPath, rules, source, type, isMark, plain, orphan, built,
    settled orphan⟩

/-- An attribute and an element of one name are both marked as the parent. The entity inherits from
the type of the element, and the values of the attribute are nowhere in the graph. -/
theorem attribute_marked_as_parent :
    ∃ graph, compile (headerSchema [.single
        ⟨some "header", none, some "xs:string", none, .optional, none, none, none⟩])
      headerSettings = .ok graph ∧
      (∃ entity ∈ graph.entities, entity.sourceTypes = ["Owner"] ∧ entity.parent = some "Header" ∧
        ∃ field ∈ entity.fields, field.kind = .parentAlias ∧ field.dottedPath = "@header") ∧
      ∀ entity ∈ graph.entities, ∀ field ∈ entity.fields, field.dottedPath = "@header" →
        field.isMaterialized = false := by
  have evaluated : (compile (headerSchema [.single
        ⟨some "header", none, some "xs:string", none, .optional, none, none, none⟩])
      headerSettings).toOption.map (fun graph => decide (
      (∃ entity ∈ graph.entities, entity.sourceTypes = ["Owner"] ∧ entity.parent = some "Header" ∧
        ∃ field ∈ entity.fields, (field.kind == .parentAlias) = true ∧
          field.dottedPath = "@header") ∧
      ∀ entity ∈ graph.entities, ∀ field ∈ entity.fields, field.dottedPath = "@header" →
        field.isMaterialized = false)) = some true := by decide +kernel
  obtain ⟨graph, compiled, seen⟩ := Result.exists_ok_of_map evaluated
  obtain ⟨⟨entity, member, single, hasParent, field, inEntity, mark, dottedPath⟩, lost⟩ :=
    of_decide_eq_true seen
  exact ⟨graph, compiled, ⟨entity, member, single, hasParent, field, inEntity,
    eq_parentAlias_of_beq mark, dottedPath⟩, lost⟩

end EntityGraph
