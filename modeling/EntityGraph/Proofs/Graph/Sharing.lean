import EntityGraph.Proofs.Build.Provenance
import EntityGraph.Proofs.Graph.Coverage
import EntityGraph.Proofs.Graph.Stages

/-!
# Type paths that share an entity

Several type paths may have one entity, if their naming rules permit it. The build asks for the
permission when it comes to a path whose entity is there already, and asks the rule of that path
only. So whichever path of an entity was built first, all others have the permission. Whether the
first one has such a rule is never asked, so the order of the roots decides whether a path without
permission shares an entity or stops the compilation.
-/
open Relation (ReflTransGen)

namespace EntityGraph

/-! ## Permission -/

/-- Whether the rule names the type path. -/
def NamingRule.names (rule : NamingRule) (path : String) : Bool :=
  (Pattern.whole rule.pattern).toOption.any fun pattern => (pattern.find? path).isSome

/-- Whether the rule permits several type paths to have its entity. -/
def NamingRule.permits (rule : NamingRule) : Bool :=
  rule.merge || (Text.dropStart? "+" rule.entity).isSome

/-- Whether the rule that names the type path permits it to share its entity. -/
def Settings.permitsSharing (settings : Settings) (path : String) : Bool :=
  (settings.typeMap.find? (·.names path)).any (·.permits)

namespace Compile

theorem NameRule.ofRule_merge {rule : NamingRule} {ready : NameRule}
    (given : NameRule.ofRule rule = .ok ready) (path : String) :
    (ready.name? path).map (·.merge) = if rule.names path then some rule.permits else none := by
  obtain ⟨pattern, read, given⟩ := Result.bind_eq_ok.mp given
  have names : rule.names path = (pattern.find? path).isSome := by
    rw [NamingRule.names, read]
    rfl
  obtain rfl := Result.pure_eq_ok.mp given
  rw [names, NamingRule.permits, NameRule.name?, Pattern.replace?]
  cases pattern.find? path with
  | none => rfl
  | some found => cases Text.dropStart? "+" rule.entity <;> simp

theorem findSome?_name? {rules : List NamingRule} {ready : List NameRule}
    (read : List.Forall₂ (fun rule ready => NameRule.ofRule rule = .ok ready) rules ready)
    (path : String) :
    (ready.findSome? (·.name? path)).map (·.merge) =
      (rules.find? (·.names path)).map (·.permits) := by
  -- The first rule that gives a name decides, so the induction stops at it.
  induction read with
  | nil => rfl
  | @cons rule first _ _ given _ ih =>
    have merge := NameRule.ofRule_merge given path
    cases named : first.name? path with
    | none =>
      have skipped : rule.names path = false := by
        rw [named] at merge
        by_contra names
        simp [names] at merge
      rw [List.findSome?_cons, named, List.find?_cons, skipped]
      exact ih
    | some name =>
      have chosen : rule.names path = true := by
        rw [named] at merge
        by_contra names
        simp [names] at merge
      rw [named, chosen] at merge
      rw [List.findSome?_cons, named, List.find?_cons, chosen]
      exact merge

/-- The name that a resolver gives says whether the path may share its entity. -/
theorem nameOf_merge {settings : Settings} {resolver : NameResolver}
    (read : NameResolver.ofRules settings.typeMap = .ok resolver) (path : String) :
    (nameOf resolver.rules path).merge = settings.permitsSharing path := by
  obtain ⟨rules, mapped, made⟩ := Result.bind_eq_ok.mp read
  obtain rfl := Result.pure_eq_ok.mp made
  have permits : settings.permitsSharing path =
      ((rules.findSome? (·.name? path)).map (·.merge)).getD false := by
    rw [findSome?_name? (Result.forall₂_of_mapM mapped) path, Settings.permitsSharing]
    cases settings.typeMap.find? (·.names path) <;> rfl
  rw [permits, nameOf]
  cases rules.findSome? (·.name? path) <;> rfl

/-! ## The path that was built first -/

namespace State

variable {state : State} {path name : String}

theorem entityNamed?_isSome (named : state.NameAt path name) :
    (state.entityNamed? name).isSome = true := by
  obtain ⟨entity, found, rfl⟩ := named
  rw [entityNamed?, Option.isSome_map, List.find?_isSome]
  exact ⟨(path, entity), Table.mem_of_get? found, by simp⟩

/-- Changing an entity without changing its name leaves all names where they are. -/
theorem nameAt_set {entity later : Entity} (found : state.entities.get? path = some entity)
    (same : later.name = entity.name) (other : String) :
    ({ state with entities := state.entities.set path later } : State).NameAt other name ↔
      state.NameAt other name := by
  simp only [NameAt, Table.get?_set]
  split
  next here =>
    subst here
    simp [found, same]
  next => rfl

end State

variable {context : Context} {before after start final : Progress}

/-- A step changes no names, or it gives one to a new path, which may share it if it is taken. -/
theorem Step.opens (step : Step context before after) :
    (∀ path name, after.state.NameAt path name ↔ before.state.NameAt path name) ∨
    ∃ path, ((before.state.entityNamed? (nameOf before.state.resolver.rules path).entity).isSome →
        (nameOf before.state.resolver.rules path).merge = true) ∧
      ∀ other name, after.state.NameAt other name ↔
        (other = path ∧ name = (nameOf before.state.resolver.rules path).entity) ∨
          before.state.NameAt other name := by
  cases step with
  | noticed | named | chosen | derived | bagged | unbagged | reopened =>
    exact .inl fun _ _ => Iff.rfl
  | @opened pending state path fresh mergeable =>
    refine .inr ⟨path, mergeable, fun other name => ?_⟩
    have free : ¬state.NameAt path name := by
      rintro ⟨entity, found, _⟩
      have taken := (Table.has_iff_mem_names _ _).mpr (Table.mem_names_of_get? found)
      exact Bool.false_ne_true (fresh.symm.trans taken)
    simp only [State.NameAt, Table.get?_set] at free ⊢
    split
    next here =>
      subst here
      simp only [free, or_false, Option.some.injEq, exists_eq_left', true_and]
      exact eq_comm
    next elsewhere => simp [elsewhere]
  | described _ found _ | inherited _ found _ | completed found _ _ | closed found =>
    refine .inl fun other _ => State.nameAt_set found ?_ other
    rfl
  | added _ found _ _ _ inserted =>
    have same := (insertField_insertion inserted).extends.name
    exact .inl fun other _ => State.nameAt_set found same other

/-- At some time between, the path was the only one with the name. -/
def BuiltFirst (context : Context) (start final : Progress) (path name : String) : Prop :=
  ∃ reached, Steps context start reached ∧ Steps context reached final ∧
    ∀ other, reached.state.NameAt other name ↔ other = path

theorem BuiltFirst.tail {path name : String} (first : BuiltFirst context start before path name)
    (step : Step context before after) : BuiltFirst context start after path name := by
  obtain ⟨reached, earlier, later, alone⟩ := first
  exact ⟨reached, earlier, later.tail step, alone⟩

/-- Of the paths with one name, all but the one that was built first may share it. -/
theorem Steps.sharing (steps : Steps context start final) (empty : start.state.entities = [])
    {name : String} (named : ∃ path, final.state.NameAt path name) :
    ∃ first, BuiltFirst context start final first name ∧
      ∀ path, final.state.NameAt path name → path ≠ first →
        (nameOf start.state.resolver.rules path).merge = true := by
  induction steps with
  | refl =>
    obtain ⟨path, entity, found, _⟩ := named
    rw [empty] at found
    cases found
  | @tail before after earlier step ih =>
    rcases step.opens with same | ⟨opened, mergeable, names⟩
    · obtain ⟨path, namedPath⟩ := named
      obtain ⟨first, isFirst, others⟩ := ih ⟨path, (same path name).mp namedPath⟩
      exact ⟨first, isFirst.tail step, fun other namedOther =>
        others other ((same other name).mp namedOther)⟩
    · rw [Steps.rules earlier] at mergeable names
      by_cases taken : ∃ path, before.state.NameAt path name
      · -- The new path comes second, and had to have the permission if it has this name.
        obtain ⟨first, isFirst, others⟩ := ih taken
        refine ⟨first, isFirst.tail step, fun other namedOther different => ?_⟩
        rcases (names other name).mp namedOther with ⟨rfl, rfl⟩ | old
        · obtain ⟨path, namedPath⟩ := taken
          exact mergeable (State.entityNamed?_isSome namedPath)
        · exact others other old different
      · -- Nothing had the name before, so the new path is the first one.
        have only : ∀ other, after.state.NameAt other name → other = opened := by
          intro other namedOther
          rcases (names other name).mp namedOther with ⟨rfl, _⟩ | old
          · rfl
          · exact absurd ⟨other, old⟩ taken
        obtain ⟨path, namedPath⟩ := named
        obtain rfl := only path namedPath
        refine ⟨path, ⟨after, earlier.tail step, .refl, fun other => ⟨only other, ?_⟩⟩, ?_⟩
        · rintro rfl
          exact namedPath
        · exact fun other namedOther different => absurd (only other namedOther) different

/-- In the whole build, the path was for some time the only one with the name. -/
def Construction.BuiltFirst {index : Schema.Index} {settings : Settings} {book : RuleBook}
    {state : State} (construction : Construction index settings book state) (path name : String) :
    Prop :=
  Compile.BuiltFirst construction.context ⟨[], .start construction.resolver⟩ ⟨[], state⟩ path name

theorem Construction.sharing {index : Schema.Index} {settings : Settings} {book : RuleBook}
    {state : State} (construction : Construction index settings book state) {name : String}
    (named : ∃ path, state.NameAt path name) :
    ∃ first, construction.BuiltFirst first name ∧
      ∀ path, state.NameAt path name → path ≠ first → settings.permitsSharing path = true := by
  obtain ⟨first, isFirst, others⟩ := construction.steps.sharing rfl named
  refine ⟨first, isFirst, fun path namedPath different => ?_⟩
  rw [← nameOf_merge construction.read]
  exact others path namedPath different

end Compile

open Compile

/-! ## Entities of several type paths -/

/-- Where no naming rule permits sharing, every entity has a single type path. -/
theorem Stages.exists_single_source {index : Schema.Index} {settings : Settings} {graph : Graph}
    {levels : Nat} {entity : Entity} (stages : Stages index settings graph levels)
    (separate : ∀ rule ∈ settings.typeMap, rule.permits = false)
    (member : entity ∈ graph.entities) : ∃ path, entity.sourceTypes = [path] := by
  obtain ⟨construction⟩ := stages.construction
  obtain ⟨path, source⟩ := stages.exists_source member
  obtain ⟨first, _, others⟩ :=
    construction.sharing ⟨path, (stages.mem_sourceTypes_iff member).mp source⟩
  have only : ∀ other ∈ entity.sourceTypes, other = first := by
    intro other inSources
    by_contra different
    have permitted := others other ((stages.mem_sourceTypes_iff member).mp inSources) different
    rw [Settings.permitsSharing, Option.any_eq_true] at permitted
    obtain ⟨rule, found, permits⟩ := permitted
    rw [separate rule (List.mem_of_find?_eq_some found)] at permits
    cases permits
  refine ⟨first, List.perm_singleton.mp ?_⟩
  refine (List.perm_ext_iff_of_nodup (stages.sourceTypes_nodup member)
    (List.nodup_singleton first)).mpr fun other => ?_
  rw [List.mem_singleton]
  exact ⟨only other, fun same => same ▸ only path source ▸ source⟩

/-- Of the type paths of an entity, all but the one that was built first may share it. So all of
them may, exactly if the first one may. -/
theorem sources_permit_sharing {index : Schema.Index} {settings : Settings} {graph : Graph}
    {levels : Nat} (compiled : compile index settings levels = .ok graph) :
    ∃ stages : Stages index settings graph levels,
      ∃ construction : Construction index settings stages.book stages.state,
        ∀ entity ∈ graph.entities, ∃ first ∈ entity.sourceTypes,
          construction.BuiltFirst first entity.name ∧
          (∀ path ∈ entity.sourceTypes, path ≠ first → settings.permitsSharing path = true) ∧
          ((∀ path ∈ entity.sourceTypes, settings.permitsSharing path = true) ↔
            settings.permitsSharing first = true) := by
  obtain ⟨stages⟩ := exists_stages compiled
  obtain ⟨construction⟩ := stages.construction
  refine ⟨stages, construction, fun entity member => ?_⟩
  obtain ⟨path, source⟩ := stages.exists_source member
  obtain ⟨first, isFirst, others⟩ :=
    construction.sharing ⟨path, (stages.mem_sourceTypes_iff member).mp source⟩
  -- The first path is one of the sources, as nothing that was built gets lost.
  have source : first ∈ entity.sourceTypes := by
    obtain ⟨reached, _, later, alone⟩ := isFirst
    exact (stages.mem_sourceTypes_iff member).mpr (later.nameAt ((alone first).mpr rfl))
  have permitted : ∀ path ∈ entity.sourceTypes, path ≠ first →
      settings.permitsSharing path = true := fun path inSources different =>
    others path ((stages.mem_sourceTypes_iff member).mp inSources) different
  refine ⟨first, source, isFirst, permitted, fun all => all first source,
    fun may path inSources => ?_⟩
  by_cases same : path = first
  · exact same ▸ may
  · exact permitted path inSources same

/-- Two types without elements. -/
def pairSchema : Schema.Index := .ofSequences [("A", []), ("B", [])]

/-- The second type has the entity of the first one, by a rule that permits it. -/
def sharedName (roots : List String) : Settings :=
  { settingsOf roots with typeMap := [⟨"B", "A", true⟩] }

theorem sources_permit_sharing_of_pairSchema :
    ∃ graph, compile pairSchema (sharedName ["A", "B"]) = .ok graph ∧
      ∃ stages : Stages pairSchema (sharedName ["A", "B"]) graph,
        ∃ construction : Construction pairSchema (sharedName ["A", "B"]) stages.book stages.state,
          ∀ entity ∈ graph.entities, ∃ first ∈ entity.sourceTypes,
            construction.BuiltFirst first entity.name ∧
            (∀ path ∈ entity.sourceTypes, path ≠ first →
              (sharedName ["A", "B"]).permitsSharing path = true) ∧
            ((∀ path ∈ entity.sourceTypes, (sharedName ["A", "B"]).permitsSharing path = true) ↔
              (sharedName ["A", "B"]).permitsSharing first = true) := by
  have evaluated : (compile pairSchema (sharedName ["A", "B"])).toOption.map
      (·.entities.map (·.sourceTypes)) = some [["A", "B"]] := by decide +kernel
  obtain ⟨graph, compiled, _⟩ := Result.exists_ok_of_map evaluated
  exact ⟨graph, compiled, sources_permit_sharing compiled⟩

/-- The first type has no permission to share its entity. It does so if it is built first, and
otherwise stops the compilation. -/
theorem sharing_depends_on_order :
    (sharedName ["A", "B"]).permitsSharing "A" = false ∧
    (∃ graph, compile pairSchema (sharedName ["A", "B"]) = .ok graph ∧
      ∃ entity ∈ graph.entities, entity.sourceTypes = ["A", "B"]) ∧
    compile pairSchema (sharedName ["B", "A"]) = .error (.duplicateEntity "A" "A" "B") := by
  have evaluated : (compile pairSchema (sharedName ["A", "B"])).toOption.map
      (·.entities.map (·.sourceTypes)) = some [["A", "B"]] := by decide +kernel
  refine ⟨by decide +kernel, ?_, Result.eq_error_of_failure? (by decide +kernel)⟩
  obtain ⟨graph, compiled, seen⟩ := Result.exists_ok_of_map evaluated
  have shared : ["A", "B"] ∈ graph.entities.map (·.sourceTypes) := by simp [seen]
  obtain ⟨entity, member, sources⟩ := List.mem_map.mp shared
  exact ⟨graph, compiled, entity, member, sources⟩

end EntityGraph
