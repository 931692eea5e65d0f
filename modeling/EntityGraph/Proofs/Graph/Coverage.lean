import EntityGraph.Proofs.Graph.Stages
import EntityGraph.Proofs.Order.Emission
import Mathlib.Data.List.Flatten

/-!
# Nothing is lost

The entities of a graph divide the type paths that were built among them, and all roots are there.
Parents and targets are names of entities of the graph, unless the settings say otherwise.

Emitting an entity gives one notice for each of its dependencies that no entity has. An entity is
emitted once, so the notices of a walk are those of the entities that it emits, in whatever order it
comes to them: a dependency that leads nowhere is noticed once, and nothing else is noticed as such.
-/
namespace EntityGraph.Compile

/-! ## Missing dependencies -/

/-- The dependency of an entity is another entity that does not exist. -/
def isMissing (entities : Table Entity) (name target : String) : Bool :=
  target != name && !entities.has target

/-- The notices about one entity. -/
def noticesAbout (entities : Table Entity) (name : String) : Diagnostics :=
  ((dependenciesOf entities name).filter (isMissing entities name)).map (neverBuilt name)

/-- A part of a walk has given the notices about all entities that it has emitted, and those of
`more`. -/
def Reports (entities : Table Entity) (before after : Emission) (more : Diagnostics) : Prop :=
  ∃ added, after.names = before.names ++ added ∧ ∀ notice,
    after.notices.count notice = before.notices.count notice +
      (added.flatMap (noticesAbout entities)).count notice + more.count notice

namespace Reports

variable {entities : Table Entity}

theorem refl (emission : Emission) : Reports entities emission emission [] := ⟨[], by simp⟩

theorem trans {first second third : Emission} {more others : Diagnostics}
    (left : Reports entities first second more) (right : Reports entities second third others) :
    Reports entities first third (more ++ others) := by
  obtain ⟨added, names, counts⟩ := left
  obtain ⟨later, laterNames, laterCounts⟩ := right
  refine ⟨added ++ later, by rw [laterNames, names, List.append_assoc], fun notice => ?_⟩
  have early := counts notice
  have late := laterCounts notice
  rw [List.flatMap_append, List.count_append, List.count_append]
  omega

/-- Emitting an entity behind its notices. -/
theorem emit {before after : Emission} {name : String}
    (reports : Reports entities before after (noticesAbout entities name)) :
    Reports entities before (after.emit name) [] := by
  obtain ⟨added, names, counts⟩ := reports
  refine ⟨added ++ [name], by rw [Emission.emit, names, List.append_assoc], fun notice => ?_⟩
  have count := counts notice
  rw [List.flatMap_append, List.count_append, List.flatMap_singleton, List.count_nil]
  exact count.trans (Nat.add_assoc _ _ _)

variable {depth : Nat} (waiting : List String) (name : String)
  (visits : ∀ waiting name emission,
    Reports entities emission (Compile.visit entities depth waiting name emission) [])

include visits in
theorem dependency (emission : Emission) (target : String) :
    Reports entities emission (visitDependency entities depth waiting name emission target)
      (([target].filter (isMissing entities name)).map (neverBuilt name)) := by
  unfold visitDependency
  split
  next same =>
    have kept : isMissing entities name target = false := by simp [isMissing, same]
    simpa [kept] using refl emission
  next different =>
    split
    next absent =>
      have missing : isMissing entities name target = true := by
        simpa [isMissing, different] using absent
      exact ⟨[], by simp [Emission.notice], by simp [Emission.notice, missing]⟩
    next present =>
      have kept : isMissing entities name target = false := by
        simpa [isMissing, different] using present
      have none : [target].filter (isMissing entities name) = [] := by simp [kept]
      rw [none]
      split
      · exact visits _ _ _
      · exact refl emission

include visits in
theorem dependencies (targets : List String) (emission : Emission) :
    Reports entities emission
      (targets.foldl (visitDependency entities depth waiting name) emission)
      ((targets.filter (isMissing entities name)).map (neverBuilt name)) := by
  induction targets generalizing emission with
  | nil => exact refl emission
  | cons target rest ih =>
    have all := (dependency waiting name visits emission target).trans (ih _)
    rwa [← List.map_append, ← List.filter_append] at all

theorem visit (depth : Nat) (waiting : List String) (name : String) (emission : Emission) :
    Reports entities emission (Compile.visit entities depth waiting name emission) [] := by
  induction depth generalizing waiting name emission with
  | zero => exact refl emission
  | succ depth ih =>
    rw [visit_succ]
    split
    · exact refl emission
    · exact (dependencies waiting name ih (dependenciesOf entities name) emission).emit

end Reports

/-- The notices of the whole walk are those about all entities. -/
theorem emission_notices_perm (entities : Table Entity) :
    (emission entities).notices.Perm
      ((emission entities).names.flatMap (noticesAbout entities)) := by
  have walk : ∀ (names : List String) (start : Emission), Reports entities start
      (names.foldl (fun emission name => visit entities (entities.length + 1) [] name emission)
        start) [] := by
    intro names
    induction names with
    | nil => exact Reports.refl
    | cons name rest ih => exact fun start => (Reports.visit _ [] name start).trans (ih _)
  have all : Reports entities ⟨[], []⟩ (emission entities) [] := walk entities.names ⟨[], []⟩
  obtain ⟨added, names, counts⟩ := all
  rw [List.nil_append] at names
  rw [List.perm_iff_count, names]
  intro notice
  simpa using counts notice

/-- A notice tells which dependency of which entity is missing. -/
theorem neverBuilt_inj {name target other otherTarget : String} :
    neverBuilt name target = neverBuilt other otherTarget ↔
      name = other ∧ target = otherTarget := by
  constructor
  · intro same
    simp only [neverBuilt, Diagnostic.plain, Diagnostic.mk.injEq, true_and, and_true] at same
    obtain ⟨rfl, message⟩ := same
    exact ⟨rfl, by simpa using message⟩
  · rintro ⟨rfl, rfl⟩
    rfl

theorem mem_noticesAbout {entities : Table Entity} {name : String} {notice : Diagnostic} :
    notice ∈ noticesAbout entities name ↔
      ∃ target ∈ dependenciesOf entities name, target ≠ name ∧ target ∉ entities.names ∧
        notice = neverBuilt name target := by
  simp only [noticesAbout, isMissing, List.mem_map, List.mem_filter, Bool.and_eq_true,
    bne_iff_ne, Bool.not_eq_true', Bool.eq_false_iff, ne_eq, Table.has_iff_mem_names]
  constructor
  · rintro ⟨target, ⟨depends, different, absent⟩, rfl⟩
    exact ⟨target, depends, different, absent, rfl⟩
  · rintro ⟨target, depends, different, absent, rfl⟩
    exact ⟨target, ⟨depends, different, absent⟩, rfl⟩

/-- No notice is given twice, if no dependency is listed twice. -/
theorem nodup_noticesAbout {entities : Table Entity} {names : List String} (nodup : names.Nodup)
    (once : ∀ name ∈ names, (dependenciesOf entities name).Nodup) :
    (names.flatMap (noticesAbout entities)).Nodup := by
  refine List.nodup_flatMap.mpr ⟨fun name member => ?_, nodup.pairwise_of_forall_ne ?_⟩
  · exact ((once name member).filter _).map fun _ _ same => (neverBuilt_inj.mp same).2
  · intro name _ other _ different notice first second
    obtain ⟨target, _, _, _, rfl⟩ := mem_noticesAbout.mp first
    obtain ⟨otherTarget, _, _, _, same⟩ := mem_noticesAbout.mp second
    exact different (neverBuilt_inj.mp same).1

/-! ## The result of emission -/

variable {entities emitted : List Entity} {notices : Diagnostics}
  (distinct : (entities.map (·.name)).Nodup) (closed : ∀ entity ∈ entities, entity.IsClosed)
  (returned : emissionOrder entities = .ok (emitted, notices))

include distinct closed returned

/-- Every notice is about a dependency that no entity has, and there is one for each of them. -/
theorem mem_notices_iff (notice : Diagnostic) :
    notice ∈ notices ↔
      ∃ entity ∈ entities, ∃ target ∈ entity.dependencies, target ≠ entity.name ∧
        target ∉ entities.map (·.name) ∧ notice = neverBuilt entity.name target := by
  obtain ⟨_, namesPerm, _, rfl⟩ := isWalk_of_emissionOrder distinct closed returned
  rw [(emission_notices_perm (byName entities)).mem_iff, List.mem_flatMap]
  constructor
  · rintro ⟨name, _, about⟩
    obtain ⟨target, depends, different, absent, rfl⟩ := mem_noticesAbout.mp about
    rw [(byName_names_perm distinct).mem_iff] at absent
    obtain ⟨entity, member, rfl, dependency⟩ := (dependsOn_byName_iff distinct _ _).mp depends
    exact ⟨entity, member, target, dependency, different, absent, rfl⟩
  · rintro ⟨entity, member, target, dependency, different, absent, rfl⟩
    have named := (byName_names_perm distinct).mem_iff.mpr (List.mem_map_of_mem member)
    rw [← (byName_names_perm distinct).mem_iff] at absent
    refine ⟨entity.name, namesPerm.mem_iff.mpr named, mem_noticesAbout.mpr ⟨target, ?_⟩⟩
    exact ⟨(dependsOn_byName_iff distinct _ _).mpr ⟨entity, member, rfl, dependency⟩, different,
      absent, rfl⟩

theorem nodup_notices (sorted : ∀ entity ∈ entities, entity.IsSorted) : notices.Nodup := by
  obtain ⟨sound, _, _, rfl⟩ := isWalk_of_emissionOrder distinct closed returned
  rw [(emission_notices_perm (byName entities)).nodup_iff]
  refine nodup_noticesAbout sound.nodup fun name _ => ?_
  cases found : (byName entities).get? name with
  | none => simp [dependenciesOf, found]
  | some entity =>
    have member := ((get?_byName_iff distinct name entity).mp found).1
    simpa [dependenciesOf, found] using (sorted entity member).nodup

end EntityGraph.Compile

namespace EntityGraph

open Compile

/-! ## Names -/

/-- An entity of the graph has the name. -/
def Graph.Emits (graph : Graph) (name : String) : Prop :=
  ∃ entity ∈ graph.entities, entity.name = name

/-- Nothing is lost or doubled between building and emission, and no name leads nowhere without
notice. -/
structure Stages.IsWhole {index : Schema.Index} {settings : Settings} {graph : Graph}
    {levels : Nat} (stages : Stages index settings graph levels) : Prop where
  paths_nodup : stages.state.entities.names.Nodup
  sources_perm : (graph.entities.flatMap (·.sourceTypes)).Perm stages.state.entities.names
  sources_ne_nil : ∀ entity ∈ graph.entities, entity.sourceTypes ≠ []
  roots : ∀ root ∈ settings.compiler.roots, ∃ path type,
    index.resolveRoot root = .ok (path, type) ∧ path ∈ stages.state.entities.names
  named : ∃ resolver, NameResolver.ofRules settings.typeMap = .ok resolver ∧
    ∀ entity ∈ graph.entities, ∀ path ∈ entity.sourceTypes,
      entity.name = (nameOf resolver.rules path).entity
  parents : ∀ entity ∈ graph.entities, ∀ parent, entity.parent = some parent → graph.Emits parent
  targets : ∀ entity ∈ graph.entities, ∀ field ∈ entity.fields, ∀ target,
    field.kind.target? = some target →
      graph.Emits target ∨
        ∃ path ∈ entity.sourceTypes, ConfiguredTarget stages.book entity.name path field.name target
  /-- A missing dependency is noticed once. -/
  noticed : ∀ entity ∈ graph.entities, ∀ target ∈ entity.dependencies, target ≠ entity.name →
    ¬graph.Emits target → graph.diagnostics.count (neverBuilt entity.name target) = 1
  /-- No other notice is about missing dependencies. -/
  unresolved : ∀ notice ∈ graph.diagnostics, notice.code = .unresolvedDependency →
    ∃ entity ∈ graph.entities, ∃ target ∈ entity.dependencies, target ≠ entity.name ∧
      ¬graph.Emits target ∧ notice = neverBuilt entity.name target

namespace Stages

variable {index : Schema.Index} {settings : Settings} {graph : Graph} {levels : Nat}

/-! ## Sources -/

theorem mem_names_iff (stages : Stages index settings graph levels) {path : String} :
    path ∈ stages.state.entities.names ↔ ∃ entity ∈ graph.entities, path ∈ entity.sourceTypes := by
  constructor
  · intro built
    obtain ⟨known, found⟩ := Table.exists_get?_of_mem_names built
    obtain ⟨entity, member, name⟩ := stages.exists_entity (State.mem_builtEntities_of_get? found)
    exact ⟨entity, member, (stages.mem_sourceTypes_iff member).mpr ⟨known, found, name.symm⟩⟩
  · rintro ⟨entity, member, source⟩
    obtain ⟨known, found, _⟩ := (stages.mem_sourceTypes_iff member).mp source
    exact Table.mem_names_of_get? found

theorem sourceTypes_nodup (stages : Stages index settings graph levels) {entity : Entity}
    (member : entity ∈ graph.entities) : entity.sourceTypes.Nodup := by
  rw [(stages.mergedFrom member).sources.nodup_iff]
  -- All sources of all built entities are different, and these are some of them.
  have all : (stages.state.builtEntities.flatMap (·.sourceTypes)).Nodup := by
    rw [List.flatMap_def, stages.built_sourceTypes, ← List.flatMap_def, List.flatMap_singleton']
    exact stages.paths_nodup
  have some : (stages.state.builtAs entity.name).Sublist stages.state.builtEntities :=
    List.filter_sublist
  exact all.sublist (some.flatMap _)

/-- The type paths that were built are divided among the entities. -/
theorem sources_perm (stages : Stages index settings graph levels) :
    (graph.entities.flatMap (·.sourceTypes)).Perm stages.state.entities.names := by
  have distinct : graph.entities.Nodup := List.Nodup.of_map _ stages.names_nodup
  refine (List.perm_ext_iff_of_nodup ?_ stages.paths_nodup).mpr fun path => ?_
  · refine List.nodup_flatMap.mpr ⟨fun entity member => stages.sourceTypes_nodup member, ?_⟩
    refine distinct.pairwise_of_forall_ne fun entity member other otherMember different => ?_
    intro path source otherSource
    -- The name that was built for the path is that of both entities.
    obtain ⟨_, found, name⟩ := (stages.mem_sourceTypes_iff member).mp source
    obtain ⟨_, alsoFound, otherName⟩ := (stages.mem_sourceTypes_iff otherMember).mp otherSource
    obtain rfl := Option.some.inj (found.symm.trans alsoFound)
    exact different (List.inj_on_of_nodup_map stages.names_nodup member otherMember
      (name.symm.trans otherName))
  · rw [List.mem_flatMap, stages.mem_names_iff]

/-! ## Names that lead to entities -/

theorem emits_of_nameAt (stages : Stages index settings graph levels) {path name : String}
    (named : stages.state.NameAt path name) : graph.Emits name := by
  obtain ⟨built, found, rfl⟩ := named
  exact stages.exists_entity (State.mem_builtEntities_of_get? found)

theorem emits_parent (stages : Stages index settings graph levels) {entity : Entity}
    (member : entity ∈ graph.entities) {parent : String} (has : entity.parent = some parent) :
    graph.Emits parent := by
  obtain ⟨construction⟩ := stages.construction
  obtain ⟨built, inGroup, builtHas⟩ := (stages.mergedFrom member).parent parent has
  obtain ⟨path, found, _⟩ := stages.mem_built_iff.mp (State.mem_builtAs.mp inGroup).1
  obtain ⟨place, named⟩ := (construction.isLinked path built found).parent parent builtHas
  exact stages.emits_of_nameAt named

theorem emits_target (stages : Stages index settings graph levels) {entity : Entity}
    (member : entity ∈ graph.entities) {field : Field} (fieldMember : field ∈ entity.fields)
    {target : String} (leads : field.kind.target? = some target) :
    graph.Emits target ∨
      ∃ path ∈ entity.sourceTypes,
        ConfiguredTarget stages.book entity.name path field.name target := by
  obtain ⟨construction⟩ := stages.construction
  have materialized : field.isMaterialized = true := by
    cases kind : field.kind <;>
      simp_all [FieldKind.target?, Field.isMaterialized, FieldKind.isMaterialized]
  have blends : Blends fun kind _ => kind.target? = some target →
      graph.Emits target ∨ ∃ path ∈ entity.sourceTypes,
        ConfiguredTarget stages.book entity.name path field.name target :=
    ⟨fun _ _ _ _ _ _ _ _ _ first _ => first, fun _ _ _ _ none => by cases none⟩
  refine stages.blended member fieldMember materialized blends ?_ leads
  intro path built found named source known knownMember name knownLeads
  rcases construction.target found knownMember knownLeads with ⟨place, there⟩ | configured
  · exact .inl (stages.emits_of_nameAt there)
  · exact .inr ⟨path, source, named ▸ name ▸ configured⟩

/-! ## Notices -/

/-- The notices of a graph are those of the build and those of the emission. -/
theorem diagnostics_eq (stages : Stages index settings graph levels)
    (compiled : compile index settings levels = .ok graph) :
    graph.diagnostics = stages.state.notices ++ stages.notices := by
  obtain ⟨⟨book, state⟩, built, finished⟩ := Result.bind_eq_ok.mp compiled
  cases stages.built.symm.trans built
  obtain ⟨merged, merges, finished⟩ := Result.bind_eq_ok.mp finished
  cases stages.merges.symm.trans merges
  obtain ⟨⟨entities, notices⟩, emits, finished⟩ := Result.bind_eq_ok.mp finished
  cases stages.emits.symm.trans emits
  exact (congrArg Graph.diagnostics (Result.pure_eq_ok.mp finished)).symm

theorem mem_notices_iff (stages : Stages index settings graph levels) (notice : Diagnostic) :
    notice ∈ stages.notices ↔
      ∃ entity ∈ graph.entities, ∃ target ∈ entity.dependencies, target ≠ entity.name ∧
        ¬graph.Emits target ∧ notice = neverBuilt entity.name target := by
  have emits (name : String) : name ∈ stages.merged.map (·.name) ↔ graph.Emits name := by
    simp only [List.mem_map, Graph.Emits, stages.mem_merged_iff]
  rw [Compile.mem_notices_iff stages.merging.distinct stages.merged_isClosed stages.emits]
  simp only [stages.mem_merged_iff, emits]

theorem notices_nodup (stages : Stages index settings graph levels) : stages.notices.Nodup :=
  nodup_notices stages.merging.distinct stages.merged_isClosed stages.emits stages.merged_isSorted

theorem isUnnoticed (stages : Stages index settings graph levels) : stages.state.IsUnnoticed := by
  obtain ⟨construction⟩ := stages.construction
  exact construction.isUnnoticed

end Stages

/-- Whenever a compilation succeeds, nothing is lost on the way to the graph. -/
theorem exists_whole_stages {index : Schema.Index} {settings : Settings} {graph : Graph}
    {levels : Nat} (compiled : compile index settings levels = .ok graph) :
    ∃ stages : Stages index settings graph levels, stages.IsWhole := by
  obtain ⟨stages⟩ := exists_stages compiled
  obtain ⟨construction⟩ := stages.construction
  refine ⟨stages, stages.paths_nodup, stages.sources_perm, ?_, ?_, ?_, fun entity member parent =>
    stages.emits_parent member, fun entity member field fieldMember target =>
    stages.emits_target member fieldMember, ?_, ?_⟩
  · intro entity member
    obtain ⟨path, source⟩ := stages.exists_source member
    exact List.ne_nil_of_mem source
  · intro root member
    obtain ⟨path, type, name, resolves, _, found, _⟩ := construction.rooted root member
    exact ⟨path, type, resolves, Table.mem_names_of_get? found⟩
  · refine ⟨construction.resolver, construction.read, fun entity member path source => ?_⟩
    obtain ⟨built, found, name⟩ := (stages.mem_sourceTypes_iff member).mp source
    have rules : stages.state.resolver.rules = construction.resolver.rules :=
      construction.steps.rules
    rw [← name, ← rules]
    exact construction.wellFormed.named path built found
  · intro entity member target dependency different missing
    rw [stages.diagnostics_eq compiled, List.count_append]
    have noted := (stages.mem_notices_iff _).mpr
      ⟨entity, member, target, dependency, different, missing, rfl⟩
    -- The build itself never gives this notice, and the emission gives it once.
    have early : stages.state.notices.count (neverBuilt entity.name target) = 0 :=
      List.count_eq_zero.mpr fun given => stages.isUnnoticed _ given rfl
    rw [early, List.count_eq_one_of_mem stages.notices_nodup noted]
  · intro notice given code
    rw [stages.diagnostics_eq compiled] at given
    rcases List.mem_append.mp given with early | late
    · exact absurd code (stages.isUnnoticed notice early)
    · exact (stages.mem_notices_iff notice).mp late

/-- Owners with an extra reference to an entity that no type has. -/
def strayReference : Settings :=
  let extra : ExtraField := ⟨"extra", some "Stray", false, none, none, false, none⟩
  { settingsOf ["Owner"] with
    entities := [⟨"Owner", { EntityOptions.none with addFields := [extra] }, []⟩] }

/-- The extra reference is the only one that leads nowhere. -/
theorem exists_whole_stages_of_strayReference :
    ∃ graph, compile ownerSchema strayReference = .ok graph ∧
      (graph.entities.map fun entity => (entity.sourceTypes, entity.dependencies)) =
        [(["Owner"], ["Stray"]), (["Row"], ["Owner"])] ∧
      graph.diagnostics.filter (·.code == .unresolvedDependency) = [neverBuilt "Owner" "Stray"] ∧
      ∃ stages : Stages ownerSchema strayReference graph, stages.IsWhole := by
  have evaluated : (compile ownerSchema strayReference).toOption.map (fun graph =>
      (graph.entities.map fun entity => (entity.sourceTypes, entity.dependencies),
        graph.diagnostics.filter (·.code == .unresolvedDependency))) =
      some ([(["Owner"], ["Stray"]), (["Row"], ["Owner"])], [neverBuilt "Owner" "Stray"]) := by
    decide +kernel
  obtain ⟨graph, compiled, seen⟩ := Result.exists_ok_of_map evaluated
  obtain ⟨entities, diagnostics⟩ := Prod.mk.inj seen
  exact ⟨graph, compiled, entities, diagnostics, exists_whole_stages compiled⟩

end EntityGraph
