import EntityGraph.Proofs.Build.Parents
import Mathlib.Data.Option.Basic

/-!
# Walks as sequences of steps

A walk that gives a result has only taken steps of a build. `Runs` says so of a walk in a state, and
what holds of its result; one rule for each way to put walks together makes the statement about a
function follow its definition.
-/
namespace EntityGraph.Compile

/-! ## Well-formed states -/

theorem State.isBuilt_iff {state : State} {path : String} :
    state.isBuilt path = true ↔ ∃ entity, state.entities.get? path = some entity := by
  rw [State.isBuilt, Table.has_iff_mem_names]
  constructor
  · exact Table.exists_get?_of_mem_names
  · rintro ⟨entity, found⟩
    exact Table.mem_names_of_get? found

theorem State.isBuilt_set {state : State} {path other : String} {entity : Entity} :
    State.isBuilt { state with entities := state.entities.set path entity } other = true ↔
      other = path ∨ state.isBuilt other = true := by
  simp only [State.isBuilt, Table.has_iff_mem_names, Table.mem_names_set]

/-- What holds of every state of a build: names follow the naming rules, and every entity has its
type path as its only source. -/
structure State.WellFormed (state : State) : Prop where
  sorted : Table.Sorted state.entities
  known : ∀ path name, state.resolver.known.get? path = some name →
    name = nameOf state.resolver.rules path
  named : ∀ path entity, state.entities.get? path = some entity →
    entity.name = (nameOf state.resolver.rules path).entity
  source : ∀ path entity, state.entities.get? path = some entity → entity.sourceTypes = [path]

theorem State.start_wellFormed {resolver : NameResolver} (fresh : resolver.known = []) :
    (State.start resolver).WellFormed := by
  constructor
  · exact Table.sorted_nil
  · intro path name found
    rw [State.start, fresh] at found
    cases found
  all_goals
    intro path entity found
    cases found

theorem NameResolver.resolve_rules (resolver : NameResolver) (path : String) :
    (resolver.resolve path).2.2.rules = resolver.rules := by
  simp only [NameResolver.resolve]
  split <;> rfl

theorem NameResolver.resolve_name {resolver : NameResolver}
    (known : ∀ path name, resolver.known.get? path = some name → name = nameOf resolver.rules path)
    (path : String) : (resolver.resolve path).1 = nameOf resolver.rules path := by
  simp only [NameResolver.resolve]
  split
  next name found => exact known path name found
  next => rfl

theorem NameResolver.resolve_known {resolver : NameResolver}
    (known : ∀ path name, resolver.known.get? path = some name → name = nameOf resolver.rules path)
    (path : String) : ∀ other name, (resolver.resolve path).2.2.known.get? other = some name →
      name = nameOf resolver.rules other := by
  intro other name found
  simp only [NameResolver.resolve] at found
  split at found
  · exact known other name found
  · rw [Table.get?_set] at found
    split at found
    next same => exact same ▸ (Option.some.inj found).symm
    next => exact known other name found

/-- Naming a path makes no other path known. -/
theorem NameResolver.mem_names_resolve {resolver : NameResolver} {path other : String}
    (member : other ∈ (resolver.resolve path).2.2.known.names) :
    other = path ∨ other ∈ resolver.known.names := by
  simp only [NameResolver.resolve] at member
  split at member
  · exact .inr member
  · exact (Table.mem_names_set _ _ _ _).mp member

/-- An entity leads back to a path that a rule takes literally, or to one that is known. -/
theorem NameResolver.cases_of_reverse? {resolver : NameResolver} {entity path : String}
    (found : resolver.reverse? entity = some path) :
    (∃ rule ∈ resolver.rules, rule.literal = some path) ∨ path ∈ resolver.known.names := by
  rcases (Option.orElse_eq_some _ _ _).mp found with literal | ⟨_, named⟩
  · obtain ⟨rule, member, given⟩ := List.exists_of_findSome?_eq_some literal
    split at given
    · exact .inl ⟨rule, member, given⟩
    · cases given
  · obtain ⟨entry, has, rfl⟩ := Option.map_eq_some_iff.mp named
    exact .inr (List.mem_map_of_mem (List.mem_of_find?_eq_some has))

theorem Step.rules {context : Context} {before after : Progress}
    (step : Step context before after) :
    after.state.resolver.rules = before.state.resolver.rules := by
  cases step with
  | named path => exact NameResolver.resolve_rules _ path
  | _ => rfl

theorem Step.known {context : Context} {before after : Progress} (step : Step context before after)
    (known : ∀ path name, before.state.resolver.known.get? path = some name →
      name = nameOf before.state.resolver.rules path) :
    ∀ path name, after.state.resolver.known.get? path = some name →
      name = nameOf before.state.resolver.rules path := by
  cases step with
  | named path => exact NameResolver.resolve_known known path
  | _ => exact known

theorem Touches.sorted {rules : List NameRule} {before after : Table Entity}
    (touches : Touches rules before after) (sorted : Table.Sorted before) : Table.Sorted after := by
  cases touches with
  | nothing same => exact same ▸ sorted
  | new _ changed => exact changed ▸ Table.sorted_set sorted _ _
  | one _ changed _ => exact changed ▸ Table.sorted_set sorted _ _

/-- An entity after a step is the empty one at a new path, or a later form of an earlier one. -/
theorem Touches.cases_of_get? {rules : List NameRule} {before after : Table Entity}
    (touches : Touches rules before after) {path : String} {entity : Entity}
    (found : after.get? path = some entity) :
    entity = .ofTypePath (nameOf rules path).entity path ∨
      ∃ old, before.get? path = some old ∧ Extends old entity := by
  cases touches with
  | nothing same => exact .inr ⟨entity, same ▸ found, .refl entity⟩
  | new _ changed =>
    rw [changed, Table.get?_set] at found
    split at found
    next same => exact .inl (same ▸ (Option.some.inj found).symm)
    next => exact .inr ⟨entity, found, .refl entity⟩
  | one foundOld changed extends_ =>
    rw [changed, Table.get?_set] at found
    split at found
    next same =>
      obtain rfl := Option.some.inj found
      exact .inr ⟨_, same ▸ foundOld, extends_⟩
    next => exact .inr ⟨entity, found, .refl entity⟩

/-- Names and sources follow the paths, and no step changes that. -/
theorem Step.wellFormed {context : Context} {before after : Progress}
    (step : Step context before after) (wellFormed : before.state.WellFormed) :
    after.state.WellFormed := by
  refine ⟨step.touches.sorted wellFormed.sorted, ?_, ?_, ?_⟩
  · rw [step.rules]
    exact step.known wellFormed.known
  · intro path entity found
    rw [step.rules]
    rcases step.touches.cases_of_get? found with rfl | ⟨old, foundOld, toEntity⟩
    · rfl
    · exact toEntity.name.trans (wellFormed.named path old foundOld)
  · intro path entity found
    rcases step.touches.cases_of_get? found with rfl | ⟨old, foundOld, toEntity⟩
    · rfl
    · exact toEntity.source.trans (wellFormed.source path old foundOld)

theorem Steps.rules {context : Context} {before after : Progress}
    (steps : Steps context before after) :
    after.state.resolver.rules = before.state.resolver.rules := by
  induction steps with
  | refl => rfl
  | tail _ step ih => exact step.rules.trans ih

theorem Steps.wellFormed {context : Context} {before after : Progress}
    (steps : Steps context before after) (wellFormed : before.state.WellFormed) :
    after.state.WellFormed := by
  induction steps with
  | refl => exact wellFormed
  | tail _ step ih => exact step.wellFormed ih

/-! ## The rules for walks -/

/-- If the walk gives a result, it has taken steps that lead from some type paths under construction
to others, it has left the parents of all entities alone, and the result and the final state are as
stated. -/
def Runs {α : Type} (context : Context) (pending later : List String) (walk : Walk α)
    (state : State) (ensures : α → State → Prop) : Prop :=
  state.WellFormed → ∀ result final, walk.run state = .ok (result, final) →
    Steps context ⟨pending, state⟩ ⟨later, final⟩ ∧ Undisturbed [] state final ∧
      ensures result final

namespace Runs

variable {α β : Type} {context : Context} {pending middle later : List String} {state : State}

theorem returns {value : α} {ensures : α → State → Prop} (holds : ensures value state) :
    Runs context pending pending (pure value) state ensures := by
  intro _ result final ran
  cases ran
  exact ⟨.refl, .refl _ _, holds⟩

theorem fails {failure : Error} {ensures : α → State → Prop} :
    Runs context pending later (throw failure) state ensures := by
  intro _ result final ran
  cases ran

theorem fails_bind {failure : Error} {next : α → Walk β} {ensures : β → State → Prop} :
    Runs context pending later (throw failure >>= next) state ensures := by
  intro _ result final ran
  cases ran

theorem bind {first : Walk α} {next : α → Walk β} {ensures : α → State → Prop}
    {finally_ : β → State → Prop} (runs : Runs context pending middle first state ensures)
    (continues : ∀ value reached, Steps context ⟨pending, state⟩ ⟨middle, reached⟩ →
      ensures value reached → Runs context middle later (next value) reached finally_) :
    Runs context pending later (first >>= next) state finally_ := by
  intro wellFormed result final ran
  rw [StateT.run_bind] at ran
  obtain ⟨⟨value, reached⟩, ranFirst, ranNext⟩ := Result.bind_eq_ok.mp ran
  obtain ⟨steps, undisturbed, ensured⟩ := runs wellFormed value reached ranFirst
  -- The steps of the first walk keep the state well-formed for the second one.
  obtain ⟨more, undisturbedMore, finished⟩ :=
    continues value reached steps ensured (steps.wellFormed wellFormed) result final ranNext
  exact ⟨steps.trans more, undisturbed.trans undisturbedMore, finished⟩

theorem weaken {walk : Walk α} {ensures weaker : α → State → Prop}
    (runs : Runs context pending later walk state ensures)
    (implies : ∀ value final, Steps context ⟨pending, state⟩ ⟨later, final⟩ → ensures value final →
      weaker value final) : Runs context pending later walk state weaker := by
  intro wellFormed result final ran
  obtain ⟨steps, undisturbed, ensured⟩ := runs wellFormed result final ran
  exact ⟨steps, undisturbed, implies result final steps ensured⟩

/-- What the walk gives may be recorded. -/
theorem recorded {walk : Walk α} {ensures : α → State → Prop}
    (runs : Runs context pending later walk state ensures) :
    Runs context pending later walk state fun value final =>
      ensures value final ∧ walk.run state = .ok (value, final) := by
  intro wellFormed result final ran
  obtain ⟨steps, undisturbed, ensured⟩ := runs wellFormed result final ran
  exact ⟨steps, undisturbed, ensured, ran⟩

/-- That no parent has been changed may be stated. -/
theorem watched {walk : Walk α} {ensures : α → State → Prop}
    (runs : Runs context pending later walk state ensures) :
    Runs context pending later walk state fun value final =>
      ensures value final ∧ Undisturbed [] state final := by
  intro wellFormed result final ran
  obtain ⟨steps, undisturbed, ensured⟩ := runs wellFormed result final ran
  exact ⟨steps, undisturbed, ensured, undisturbed⟩

/-- A step that leaves the state as it is may be counted in front of a walk. -/
theorem announced {walk : Walk α} {ensures : α → State → Prop}
    (step : Step context ⟨pending, state⟩ ⟨middle, state⟩)
    (runs : Runs context middle later walk state ensures) :
    Runs context pending later walk state ensures := by
  intro wellFormed result final ran
  obtain ⟨steps, rest⟩ := runs wellFormed result final ran
  exact ⟨.head step steps, rest⟩

/-- The state may be taken to be well-formed. -/
theorem assuming {walk : Walk α} {ensures : α → State → Prop}
    (runs : state.WellFormed → Runs context pending later walk state ensures) :
    Runs context pending later walk state ensures :=
  fun wellFormed => runs wellFormed wellFormed

/-- Reading the state. -/
theorem reads : Runs context pending pending (get : Walk State) state
    fun value final => value = state ∧ final = state := by
  intro _ result final ran
  cases ran
  exact ⟨.refl, .refl _ _, rfl, rfl⟩

/-- A computation that does not look at the state. -/
theorem lifts (computation : Result α) : Runs context pending pending (liftM computation) state
    fun value final => computation = .ok value ∧ final = state := by
  intro _ result final ran
  cases computation with
  | error failure => cases ran
  | ok value =>
    cases ran
    exact ⟨.refl, .refl _ _, rfl, rfl⟩

/-- A change of the state that is a step and leaves the parents alone. -/
theorem changes {change : State → State}
    (step : Step context ⟨pending, state⟩ ⟨later, change state⟩)
    (keeps : KeepsParents [] state (change state) := by exact .of_same rfl)
    (bags : KeepsBags [] state (change state) := by exact .of_same rfl) :
    Runs context pending later (modify change) state fun _ final => final = change state := by
  intro _ result final ran
  cases ran
  exact ⟨.single step, step.undisturbed keeps bags, rfl⟩

/-- A new state that is a step away and has the same entities and bags. -/
theorem replaces {next : State} (step : Step context ⟨pending, state⟩ ⟨later, next⟩)
    (same : next.entities = state.entities := by rfl) (bags : next.bags = state.bags := by rfl) :
    Runs context pending later (set next) state fun _ final => final = next := by
  intro _ result final ran
  cases ran
  exact ⟨.single step, step.undisturbed (.of_same same) (.of_same bags), rfl⟩

/-- Doing the same for each item, with what holds before and after each. -/
theorem repeats {items : List α} {walk : α → Walk Unit} (Holds : State → Prop)
    (init : Holds state)
    (each : ∀ item ∈ items, ∀ reached, Steps context ⟨pending, state⟩ ⟨pending, reached⟩ →
      Holds reached → Runs context pending pending (walk item) reached fun _ final => Holds final) :
    Runs context pending pending (items.forM walk) state fun _ final => Holds final := by
  induction items generalizing state with
  | nil => exact .returns init
  | cons item rest ih =>
    change Runs context pending pending (walk item >>= fun _ => rest.forM walk) state _
    refine Runs.bind (each item List.mem_cons_self state .refl init) fun _ reached steps holds => ?_
    exact ih holds fun other member further more =>
      each other (List.mem_cons_of_mem _ member) further (steps.trans more)

/-- Doing the same for each item, where what is done for one of them stays done. -/
theorem achieves {items : List α} {walk : α → Walk Unit} (Done : α → State → Prop)
    (stays : ∀ item before after, Steps context ⟨pending, before⟩ ⟨pending, after⟩ →
      Done item before → Done item after)
    (each : ∀ item ∈ items, ∀ reached, Runs context pending pending (walk item) reached
      fun _ final => Done item final) :
    Runs context pending pending (items.forM walk) state
      fun _ final => ∀ item ∈ items, Done item final := by
  induction items generalizing state with
  | nil => exact .returns (by simp)
  | cons item rest ih =>
    change Runs context pending pending (walk item >>= fun _ => rest.forM walk) state _
    refine Runs.bind (each item List.mem_cons_self state) fun _ reached _ done => ?_
    have others : Runs context pending pending (rest.forM walk) reached
        fun _ final => ∀ other ∈ rest, Done other final :=
      ih fun other member => each other (List.mem_cons_of_mem _ member)
    refine others.weaken fun _ final steps all other member => ?_
    rcases List.mem_cons.mp member with rfl | inRest
    · exact stays other reached final steps done
    · exact all other inRest

end Runs

/-- The same of a walk that may give the entity of one path another parent, and take its bag. -/
def RunsBut {α : Type} (path : String) (context : Context) (pending later : List String)
    (walk : Walk α) (state : State) (ensures : α → State → Prop) : Prop :=
  state.WellFormed → ∀ result final, walk.run state = .ok (result, final) →
    Steps context ⟨pending, state⟩ ⟨later, final⟩ ∧ Undisturbed [path] state final ∧
      ensures result final

namespace RunsBut

variable {α β : Type} {context : Context} {pending middle later : List String} {state : State}
  {path : String}

theorem of_runs {walk : Walk α} {ensures : α → State → Prop}
    (runs : Runs context pending later walk state ensures) :
    RunsBut path context pending later walk state ensures := by
  intro wellFormed result final ran
  obtain ⟨steps, undisturbed, ensured⟩ := runs wellFormed result final ran
  exact ⟨steps, undisturbed.but path, ensured⟩

theorem bind {first : Walk α} {next : α → Walk β} {ensures : α → State → Prop}
    {finally_ : β → State → Prop} (runs : RunsBut path context pending middle first state ensures)
    (continues : ∀ value reached, Steps context ⟨pending, state⟩ ⟨middle, reached⟩ →
      ensures value reached → RunsBut path context middle later (next value) reached finally_) :
    RunsBut path context pending later (first >>= next) state finally_ := by
  intro wellFormed result final ran
  rw [StateT.run_bind] at ran
  obtain ⟨⟨value, reached⟩, ranFirst, ranNext⟩ := Result.bind_eq_ok.mp ran
  obtain ⟨steps, undisturbed, ensured⟩ := runs wellFormed value reached ranFirst
  obtain ⟨more, undisturbedMore, finished⟩ :=
    continues value reached steps ensured (steps.wellFormed wellFormed) result final ranNext
  exact ⟨steps.trans more, undisturbed.trans undisturbedMore, finished⟩

/-- The parent and the bag of a path that is not there yet are nobody's concern. -/
theorem of_fresh {walk : Walk α} {ensures : α → State → Prop} (fresh : state.isBuilt path = false)
    (runs : RunsBut path context pending later walk state ensures) :
    Runs context pending later walk state ensures := by
  intro wellFormed result final ran
  obtain ⟨steps, undisturbed, ensured⟩ := runs wellFormed result final ran
  exact ⟨steps, undisturbed.of_fresh fresh, ensured⟩

end RunsBut

/-! ## Small walks -/

section Small

variable {context : Context} {pending : List String} {state : State}

/-- No walk gives the notices that belong to the emission. -/
theorem notify_runs {notice : Diagnostic} (code : notice.code ≠ .unresolvedDependency) :
    Runs context pending pending (notify notice) state fun _ _ => True :=
  (Runs.changes (.noticed code)).weaken fun _ _ _ _ => trivial

theorem resolveName_runs (path : String) :
    Runs context pending pending (resolveName path) state fun name final =>
      name = nameOf state.resolver.rules path ∧ final.entities = state.entities := by
  intro wellFormed result final ran
  cases ran
  have named : Step context ⟨pending, state⟩ _ := .named path
  exact ⟨.single named, named.undisturbed (.of_same rfl) (.of_same rfl),
    NameResolver.resolve_name wellFormed.known path, rfl⟩

theorem nextChoice_runs : Runs context pending pending nextChoice state fun _ _ => True := by
  intro _ result final ran
  cases ran
  have chosen : Step context ⟨pending, state⟩ _ := .chosen
  exact ⟨.single chosen, chosen.undisturbed (.of_same rfl) (.of_same rfl), trivial⟩

theorem deriveScalar_runs {derive : Scalar.State → Scalar.Derivation}
    (continues : state.scalars.Continues (derive state.scalars).2) :
    Runs context pending pending (deriveScalar derive) state fun _ _ => True := by
  refine Runs.bind .reads fun value reached _ ⟨same, final⟩ => ?_
  subst same final
  split
  next repr scalars derived =>
    rw [derived] at continues
    exact (Runs.replaces (.derived continues)).bind fun _ _ _ _ => .returns trivial
  next => exact .fails

theorem entityAt_runs (path : String) :
    Runs context pending pending (entityAt context path) state fun entity final =>
      state.entities.get? path = some entity ∧ final = state := by
  refine Runs.bind .reads fun value reached _ ⟨same, final⟩ => ?_
  subst same final
  split
  next entity found => exact .returns ⟨found, rfl⟩
  next => exact .fails

theorem modifyEntity_runs {later : List String} {path : String} {change : Entity → Entity}
    (step : ∀ entity, state.entities.get? path = some entity → Step context ⟨pending, state⟩
      ⟨later, { state with entities := state.entities.set path (change entity) }⟩)
    (parent : ∀ entity, (change entity).parent = entity.parent := by intro entity; rfl) :
    Runs context pending later (modifyEntity context path change) state fun _ _ => True := by
  refine (entityAt_runs path).bind fun entity reached _ ⟨found, same⟩ => ?_
  subst same
  have keeps : KeepsParents [] reached
      { reached with entities := reached.entities.set path (change entity) } := by
    refine .set fun _ old foundOld => ?_
    obtain rfl : old = entity := Option.some.inj (foundOld.symm.trans found)
    exact parent old
  exact (Runs.changes (step entity found) keeps).weaken fun _ _ _ _ => trivial

/-- A field has been given to the entity of a place: it is left out, or it has been put there. -/
def Received (state final : State) (scope : Scope) (field : Field) : Prop :=
  (field.isMaterialized = true ∧ scope.rules.dropAfterProcessing.contains field.name = true) ∨
    ∃ entity after, Insertion entity
      { field with
        kind := setRelatedName (reverseName? state scope.typePath field) field.kind } after ∧
      final.entities.get? scope.typePath = some after

theorem addField_runs {scope : Scope} {field : Field} (fits : scope.Fits context ⟨pending, state⟩)
    (origin : Origin context state scope field) :
    Runs context pending pending (addField context scope.rules scope.typePath field) state
      fun _ final => Received state final scope field := by
  refine (entityAt_runs scope.typePath).bind fun entity reached _ ⟨found, same⟩ => ?_
  subst same
  split
  next leftOut =>
    refine .returns (.inl ?_)
    simpa using leftOut
  next wanted =>
    extract_lets limit proceed
    split
    next => exact .fails_bind
    next short =>
      -- Past both guards the field is inserted, with a name for its other end.
      refine Runs.bind .reads fun value reached _ ⟨same, final⟩ => ?_
      subst same final
      refine (Runs.lifts _).bind fun after reached _ ⟨inserted, final⟩ => ?_
      subst final
      have kept : field.isMaterialized = true →
          scope.rules.dropAfterProcessing.contains field.name = false := by
        intro materialized
        simpa [materialized] using wanted
      have fitting : field.isMaterialized = true →
          field.name.length ≤ context.settings.compiler.identifierLimit := by
        intro materialized
        simpa [materialized] using short
      have insertion := insertField_insertion inserted
      have keeps : KeepsParents [] reached
          { reached with entities := reached.entities.set scope.typePath after } := by
        refine .set fun _ old foundOld => ?_
        obtain rfl : old = entity := Option.some.inj (foundOld.symm.trans found)
        rw [insertion.eq_with_fields]
      refine (Runs.changes (.added fits found origin kept fitting inserted) keeps).weaken
        fun _ final _ changed => ?_
      rw [changed]
      exact .inr ⟨entity, after, insertion, Table.get?_set_self ..⟩

theorem addToBag_runs (path : String) (entries : Bag) :
    Runs context pending pending (addToBag path entries) state fun _ _ => True :=
  (Runs.changes (.bagged path entries) (.of_same rfl) (.override path entries)).weaken
    fun _ _ _ _ => trivial

theorem takeBag_runs (path : String) :
    RunsBut path context pending pending (takeBag path) state fun _ _ => True := by
  intro _ result final ran
  cases ran
  exact ⟨.single (.unbagged path), ⟨.of_same rfl, .erase path, id⟩, trivial⟩

theorem produced_runs (path : String) :
    Runs context pending pending (produced path) state fun _ _ => True := by
  intro _ result final ran
  cases ran
  exact ⟨.refl, .refl _ _, trivial⟩

end Small

end EntityGraph.Compile
