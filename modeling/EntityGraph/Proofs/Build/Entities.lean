import EntityGraph.Proofs.Build.Classify

/-!
# A build takes steps

The entity of a type path is opened, filled by steps whose fields have a known origin, and
completed. By induction on the levels, everything that `onward` leads to takes steps as well, and so
does the build of all roots.
-/
namespace EntityGraph.Compile

variable {context : Context} {onward : Onward} {pending : List String} {state : State}
  {scope : Scope}

theorem Steps.isBackReference {before after : Progress} (steps : Steps context before after)
    {field : Field} (back : IsBackReference before.state field) :
    IsBackReference after.state field := by
  obtain ⟨path, owner, relation, name, oneToOne, named, same⟩ := back
  exact ⟨path, owner, relation, name, oneToOne, steps.nameAt named, same⟩

theorem Steps.isOtherEndOfAll {before after : Progress} (steps : Steps context before after)
    {path entity : String} {fields : List Field}
    (others : before.state.IsOtherEndOfAll context.book path entity fields) :
    after.state.IsOtherEndOfAll context.book path entity fields :=
  fun owner relation name oneToOne member =>
    steps.isOtherEnd (others owner relation name oneToOne member)

/-! ## Adding fields -/

theorem reverseName?_backReference (path owner relation name : String) (oneToOne : Bool) :
    reverseName? state path (backReference owner relation name oneToOne) = none := by
  cases oneToOne <;> rfl

/-- An entity that has received a back reference is the other end of its relation. -/
theorem isOtherEnd_of_received {final : State} {owner relation name : String} {oneToOne : Bool}
    (received : Received state final scope (backReference owner relation name oneToOne))
    (fits : scope.Fits context ⟨pending, final⟩) :
    final.IsOtherEnd context.book scope.typePath scope.entity owner relation name oneToOne := by
  obtain ⟨entity, found, named⟩ := fits.named
  refine ⟨entity, found, named, ?_⟩
  rcases received with ⟨_, leftOut⟩ | ⟨before, after, insertion, foundAfter⟩
  · -- The rules of the place leave the field out, and with it the other end.
    exact .inl ⟨scope.rules, fits.rules, leftOut⟩
  · obtain rfl : entity = after := Option.some.inj (found.symm.trans foundAfter)
    rw [reverseName?_backReference] at insertion
    rcases insertion.present with ⟨known, member, knownName, path, kind⟩ | ⟨former, coalesced, _⟩
    · refine .inr ⟨known, member, knownName, path, ?_⟩
      rcases kind with compared | same
      · exact FieldKind.eq_toOne_of_beq compared
      · exact same
    · cases coalesced

theorem addFields_runs (fits : scope.Fits context ⟨pending, state⟩) {fields : List Field}
    (backs : ∀ field ∈ fields, IsBackReference state field) :
    Runs context pending pending (addFields context scope.rules scope.typePath fields) state
      fun _ final => final.IsOtherEndOfAll context.book scope.typePath scope.entity fields := by
  -- The state is general, since each field is added to the state that the ones before have left.
  induction fields generalizing state with
  | nil => exact .returns fun _ _ _ _ member => by cases member
  | cons field rest ih =>
    obtain ⟨path, owner, relation, name, oneToOne, named, rfl⟩ := backs field List.mem_cons_self
    refine (addField_runs fits (.back named)).bind fun _ reached steps received => ?_
    have reachedFits := steps.fits fits
    have restBacks : ∀ field ∈ rest, IsBackReference reached field := fun field member =>
      steps.isBackReference (backs field (List.mem_cons_of_mem _ member))
    refine (ih reachedFits restBacks).weaken fun _ final more others => ?_
    intro anyOwner anyRelation anyName anyOneToOne member
    rcases List.mem_cons.mp member with same | member
    · -- What has been put in place now stays while the others are added.
      rw [backReference, backReference, Field.ofKind, Field.ofKind] at same
      obtain ⟨rfl, rfl, rfl, rfl⟩ : anyName = name ∧ anyOwner = owner ∧ anyOneToOne = oneToOne ∧
          anyRelation = relation := by simpa using same
      exact more.isOtherEnd (isOtherEnd_of_received received reachedFits)
    · exact others _ _ _ _ member

theorem extendBuilt_runs {path : String} {entity : Entity}
    (found : state.entities.get? path = some entity) {fields : List Field}
    (backs : ∀ field ∈ fields, IsBackReference state field) :
    Runs context pending pending (extendBuilt context path fields) state
      fun _ final => final.IsOtherEndOfAll context.book path entity.name fields := by
  unfold extendBuilt
  split
  next empty =>
    refine .returns fun owner relation name oneToOne member => ?_
    rw [List.isEmpty_iff.mp empty] at member
    cases member
  next =>
    have built : state.isBuilt path = true :=
      (Table.has_iff_mem_names _ _).mpr (Table.mem_names_of_get? found)
    refine Runs.announced (.reopened built) ?_
    refine (entityAt_runs path).bind fun old reached _ ⟨foundOld, same⟩ => ?_
    obtain rfl : old = entity := Option.some.inj (foundOld.symm.trans found)
    subst same
    refine (Runs.lifts _).bind fun rules reached _ ⟨given, same⟩ => ?_
    subst same
    have fits : (Scope.outermost path old.name rules).Fits context ⟨path :: pending, reached⟩ :=
      ⟨List.mem_cons_self, ⟨old, found, rfl⟩, given⟩
    refine (addFields_runs fits backs).bind fun _ added _ others => ?_
    exact (modifyEntity_runs fun last foundLast => .closed foundLast).weaken
      fun _ final more _ => more.isOtherEndOfAll others

/-! ## The parts of an entity -/

/-- The content that is left to be walked is that of the type, if the type has any of its own. -/
def LeavesContent (type : Schema.ComplexType) (outline : Outline) : Prop :=
  ∀ content, type.content = some content → outline.content = some content

theorem leavesContent_of_none {type : Schema.ComplexType} {outline : Outline}
    (empty : type.content = none) : LeavesContent type outline := by
  intro content has
  rw [empty] at has
  cases has

theorem outline_runs (onwardRuns : OnwardRuns context onward)
    (fits : scope.Fits context ⟨pending, state⟩) (type : Schema.ComplexType) :
    Runs context pending pending (outline context onward scope type) state
      fun outline _ => LeavesContent type outline := by
  unfold outline
  split
  next content _ _ has => exact .returns fun _ same => has.symm.trans same
  next empty _ =>
    extract_lets proceed
    have goesOn {reached : State} (reachedFits : scope.Fits context ⟨pending, reached⟩) :
        Runs context pending pending (proceed ()) reached
          fun outline _ => LeavesContent type outline :=
      (walkAttributes_runs onwardRuns reachedFits _).bind fun _ _ _ _ =>
        .returns (leavesContent_of_none empty)
    split
    · exact (notify_runs (by nofun)).bind fun _ _ steps _ => goesOn (steps.fits fits)
    · exact goesOn fits
  next empty _ _ =>
    refine (walkAttributes_runs onwardRuns fits _).bind fun _ first toFirst _ => ?_
    refine (namedScalar_runs _).bind fun repr second toSecond _ => ?_
    have fitsSecond := toSecond.fits (toFirst.fits fits)
    exact (addField_runs fitsSecond .content).bind fun _ _ _ _ =>
      .returns (leavesContent_of_none empty)
  next empty _ _ =>
    exact (notify_runs (by nofun)).bind fun _ _ _ _ => .returns (leavesContent_of_none empty)

theorem walkOutline_runs (onwardRuns : OnwardRuns context onward)
    (fits : scope.Fits context ⟨pending, state⟩) (type : Schema.ComplexType) :
    Runs context pending pending (walkOutline context onward scope type) state
      fun outline _ => LeavesContent type outline := by
  refine (modifyEntity_runs fun entity found => .described fits.pending found type).bind
    fun _ first toFirst _ => ?_
  have fitsFirst := toFirst.fits fits
  refine (walkAttributes_runs onwardRuns fitsFirst _).bind fun _ second toSecond _ => ?_
  refine (outline_runs onwardRuns (toSecond.fits fitsFirst) type).bind
    fun outline third _ leaves => ?_
  split
  · exact (Runs.lifts _).bind fun _ _ _ _ => .returns leaves
  · exact .returns leaves

theorem outlineOf_runs (onwardRuns : OnwardRuns context onward)
    (fits : scope.Fits context ⟨pending, state⟩) (type : Option Schema.ComplexType) :
    Runs context pending pending (outlineOf context onward scope type) state
      fun outline _ => ∀ given, type = some given → scope.rules.isCustom = false →
        LeavesContent given outline := by
  unfold outlineOf
  split
  next custom => exact .returns fun _ _ plain => by simp [custom] at plain
  next =>
    extract_lets proceed
    split
    next given =>
      refine (walkOutline_runs onwardRuns fits given).weaken fun _ _ _ leaves other same _ => ?_
      cases same
      exact leaves
    next =>
      refine (Runs.lifts _).bind fun found reached steps _ => ?_
      exact (walkOutline_runs onwardRuns (steps.fits fits) found).weaken
        fun _ _ _ _ _ same => by cases same

/-- The entity of the place gets its parent, if it has none yet. -/
theorem inherit_runs (onwardRuns : OnwardRuns context onward)
    (fits : scope.Fits context ⟨pending, state⟩) (parent : String)
    (orphan : ∀ entity, state.entities.get? scope.typePath = some entity → entity.parent = none) :
    RunsBut scope.typePath context pending pending (inherit context onward scope parent) state
      fun _ _ => True := by
  unfold inherit
  split
  · refine RunsBut.of_runs ((Runs.lifts _).bind fun _ _ steps _ => ?_)
    exact onwardRuns.members _ _ _ _ (steps.fits fits)
  · have built := (onwardRuns.build pending state parent none [] (by simp)).watched
    refine RunsBut.bind (.of_runs built) fun name reached _ ⟨⟨named, _⟩, undisturbed⟩ => ?_
    refine RunsBut.bind (.of_runs (entityAt_runs scope.typePath))
      fun entity second _ ⟨found, same⟩ => ?_
    subst same
    -- The build of the parent has not touched the entity of the place.
    have stillOrphan : entity.parent = none := by
      obtain ⟨old, foundOld, _⟩ := fits.named
      obtain ⟨later, foundLater, kept⟩ :=
        undisturbed.parents scope.typePath List.not_mem_nil old foundOld
      obtain rfl : entity = later := Option.some.inj (found.symm.trans foundLater)
      exact kept.trans (orphan old foundOld)
    intro _ result final ran
    cases ran
    refine ⟨.single (.inherited fits.pending found named),
      ⟨?_, .of_same rfl, fun founded => ?_⟩, trivial⟩
    · exact .set fun notFree => absurd (List.mem_singleton_self _) notFree
    · have adopted : Entity.IsFounded { entity with parent := some name } :=
        (founded _ _ found).mono rfl (fun field member => ⟨field, member, rfl⟩) (.inl stillOrphan)
      exact founded.set adopted _

/-- What has been collected becomes a field, and the bag of the place is gone. -/
theorem addBag_runs (fits : scope.Fits context ⟨pending, state⟩) :
    RunsBut scope.typePath context pending pending (addBag context scope) state
      fun _ _ => True := by
  refine (takeBag_runs _).bind fun bag reached steps _ => ?_
  split
  · exact .of_runs (.returns trivial)
  · exact .of_runs ((addField_runs (steps.fits fits) .bag).weaken fun _ _ _ _ => trivial)

theorem extraTarget_runs (onwardRuns : OnwardRuns context onward) (target : String) :
    Runs context pending pending (extraTarget context onward target) state
      fun entity final => entity = target ∨ ∃ path, final.NameAt path entity := by
  refine Runs.bind .reads fun value reached _ _ => ?_
  split
  next path _ =>
    split
    · exact (onwardRuns.build _ _ _ _ _ (by simp)).weaken fun _ _ _ built => .inr ⟨path, built.1⟩
    · exact .returns (.inl rfl)
  · exact .returns (.inl rfl)

theorem extraKind_runs (onwardRuns : OnwardRuns context onward) (extra : ExtraField) :
    Runs context pending pending (extraKind context onward extra) state
      fun kind final => ExtraKind final extra kind := by
  unfold extraKind
  split
  next target given =>
    refine (extraTarget_runs onwardRuns target).bind fun entity reached _ known => ?_
    split
    next many => exact .returns (.manyToMany given many known)
    next single => exact .returns (.toOne given (Bool.eq_false_iff.mpr single) known)
  next plain => exact .returns (.scalar plain)

theorem addExtra_runs (onwardRuns : OnwardRuns context onward)
    (fits : scope.Fits context ⟨pending, state⟩) {extra : ExtraField}
    (configured : extra ∈ scope.rules.options.addFields) :
    Runs context pending pending (addExtra context onward scope extra) state fun _ _ => True := by
  refine (extraKind_runs onwardRuns extra).bind fun kind reached steps asked => ?_
  exact (addField_runs (steps.fits fits) (.extra configured asked)).weaken fun _ _ _ _ => trivial

/-! ## Whole entities -/

/-- Between two points of a build, a content model is walked at a place. -/
def Walked (context : Context) (onward : Onward) (first last : Progress) (scope : Scope)
    (content : Schema.Particle) : Prop :=
  ∃ pending before after,
    Steps context first ⟨pending, before⟩ ∧ scope.Fits context ⟨pending, before⟩ ∧
      (walkParticle context onward scope content).run before = .ok ((), after) ∧
      Steps context ⟨pending, after⟩ last

theorem Walked.head {first next last : Progress} {content : Schema.Particle}
    (steps : Steps context first next) (walked : Walked context onward next last scope content) :
    Walked context onward first last scope content := by
  obtain ⟨pending, before, after, toBefore, rest⟩ := walked
  exact ⟨pending, before, after, steps.trans toBefore, rest⟩

theorem Walked.tail {first next last : Progress} {content : Schema.Particle}
    (walked : Walked context onward first next scope content) (steps : Steps context next last) :
    Walked context onward first last scope content := by
  obtain ⟨pending, before, after, toBefore, fits, ran, fromAfter⟩ := walked
  exact ⟨pending, before, after, toBefore, fits, ran, fromAfter.trans steps⟩

/-- What is known when the entity of a type path has been built: its name, the further fields it
has received, and that the content of its type has been walked unless it was there before. -/
structure IsBuilt (context : Context) (onward : Onward) (pending : List String) (path : String)
    (type : Option Schema.ComplexType) (fields : List Field) (state : State) (entity : String)
    (final : State) : Prop where
  named : final.NameAt path entity
  others : final.IsOtherEndOfAll context.book path entity fields
  walked : state.isBuilt path = false → ∀ given content rules, type = some given →
    given.content = some content → context.book.forType entity path = .ok rules →
      rules.isCustom = false →
        Walked context onward ⟨pending, state⟩ ⟨pending, final⟩ (.outermost path entity rules)
          content

theorem buildNew_runs (onwardRuns : OnwardRuns context onward) {path : String}
    (type : Option Schema.ComplexType) {fields : List Field} (fresh : state.isBuilt path = false)
    (mergeable : (state.entityNamed? (nameOf state.resolver.rules path).entity).isSome = true →
      (nameOf state.resolver.rules path).merge = true)
    (backs : ∀ field ∈ fields, IsBackReference state field) :
    Runs context pending pending
      (buildNew context onward path (nameOf state.resolver.rules path).entity type fields) state
      fun _ final => IsBuilt context onward pending path type fields state
        (nameOf state.resolver.rules path).entity final := by
  -- Only the path itself gets a parent and loses its bag.
  refine RunsBut.of_fresh fresh ?_
  -- From here on the path is under construction, until its entity is completed.
  refine RunsBut.bind (.of_runs (Runs.changes (.opened fresh mergeable) (.set_fresh fresh _)))
    fun _ opened toOpened same => ?_
  refine RunsBut.bind (.of_runs (Runs.lifts _)) fun rules first toFirst ⟨given, unchanged⟩ => ?_
  subst unchanged
  have named : first.NameAt path (nameOf state.resolver.rules path).entity :=
    ⟨_, by rw [same, Table.get?_set_self], rfl⟩
  extract_lets scope
  have fits : scope.Fits context ⟨path :: pending, first⟩ := ⟨List.mem_cons_self, named, given⟩
  refine RunsBut.bind (.of_runs (outlineOf_runs onwardRuns fits type).watched)
    fun outline second toSecond ⟨leaves, undisturbed⟩ => ?_
  have fitsSecond := toSecond.fits fits
  extract_lets proceed
  -- What follows is the same with and without a parent.
  have goesOn {reached : State} (reachedFits : scope.Fits context ⟨path :: pending, reached⟩)
      (toReached : Steps context ⟨path :: pending, first⟩ ⟨path :: pending, reached⟩) :
      RunsBut path context (path :: pending) pending (proceed ()) reached fun _ final =>
        IsBuilt context onward pending path type fields state
          (nameOf state.resolver.rules path).entity final := by
    refine RunsBut.bind (.of_runs (walkContent_runs onwardRuns reachedFits _).recorded)
      fun _ third toThird ⟨_, ran⟩ => ?_
    have fitsThird := toThird.fits reachedFits
    refine (addBag_runs fitsThird).bind fun _ fourth toFourth _ => ?_
    have fitsFourth := toFourth.fits fitsThird
    refine .of_runs ?_
    refine Runs.bind (Runs.repeats (fun _ => True) trivial fun extra configured _ steps _ =>
      addExtra_runs onwardRuns (steps.fits fitsFourth) configured) fun _ fifth toFifth _ => ?_
    have fitsFifth := toFifth.fits fitsFourth
    have start : Steps context ⟨pending, state⟩ ⟨path :: pending, reached⟩ :=
      toOpened.trans (toFirst.trans toReached)
    have toFields : Steps context ⟨path :: pending, third⟩ ⟨path :: pending, fifth⟩ :=
      toFourth.trans toFifth
    have toFifthState : Steps context ⟨pending, state⟩ ⟨path :: pending, fifth⟩ :=
      start.trans (toThird.trans toFields)
    have laterBacks : ∀ field ∈ fields, IsBackReference fifth field := fun field member =>
      toFifthState.isBackReference (backs field member)
    refine (addFields_runs fitsFifth laterBacks).bind fun _ sixth toSixth others => ?_
    refine Runs.bind .reads fun value seventh toSeventh ⟨sameValue, sameState⟩ => ?_
    subst sameValue sameState
    refine (modifyEntity_runs fun entity found => .completed found rules _).weaken
      fun _ final toFinal _ =>
        ⟨toFinal.nameAt (toSixth.fits fitsFifth).named, toFinal.isOtherEndOfAll others, ?_⟩
    intro _ whole content sameRules typed has read plain
    obtain rfl : rules = sameRules := Except.ok.inj (given.symm.trans read)
    rw [leaves whole typed plain content has] at ran
    exact ⟨_, reached, third, start, reachedFits, ran, toFields.trans (toSixth.trans toFinal)⟩
  have orphan : ∀ entity, second.entities.get? path = some entity → entity.parent = none := by
    intro entity found
    have foundFirst : first.entities.get? path =
        some (.ofTypePath (nameOf state.resolver.rules path).entity path) := by
      rw [same, Table.get?_set_self]
    obtain ⟨later, foundLater, kept⟩ := undisturbed.parents path List.not_mem_nil _ foundFirst
    obtain rfl : entity = later := Option.some.inj (found.symm.trans foundLater)
    exact kept
  split
  · refine RunsBut.bind (inherit_runs onwardRuns fitsSecond _ orphan) fun _ reached steps _ => ?_
    exact goesOn (steps.fits fitsSecond) (toSecond.trans steps)
  · exact goesOn fitsSecond toSecond

theorem buildEntity_runs (onwardRuns : OnwardRuns context onward) (path : String)
    (type : Option Schema.ComplexType) {fields : List Field}
    (backs : ∀ field ∈ fields, IsBackReference state field) :
    Runs context pending pending (buildEntity context onward path type fields) state
      fun entity final => IsBuilt context onward pending path type fields state entity final := by
  refine (resolveName_runs path).bind fun name first toFirst ⟨named, unchanged⟩ => ?_
  have firstBacks : ∀ field ∈ fields, IsBackReference first field := fun field member =>
    toFirst.isBackReference (backs field member)
  rw [← toFirst.rules] at named
  refine Runs.bind .reads fun value second _ ⟨sameValue, sameState⟩ => ?_
  subst sameValue sameState
  refine Runs.assuming fun wellFormed => ?_
  extract_lets proceed
  have new (fresh : second.isBuilt path = false)
      (mergeable : (second.entityNamed? name.entity).isSome = true → name.merge = true) :
      Runs context pending pending
        (do buildNew context onward path name.entity type fields; proceed ()) second
        fun entity final => IsBuilt context onward pending path type fields state entity final := by
    subst named
    refine (buildNew_runs onwardRuns type fresh mergeable firstBacks).bind fun _ third _ built => ?_
    refine Runs.returns ⟨built.named, built.others, fun _ given content rules => ?_⟩
    exact fun typed has read plain =>
      (built.walked fresh given content rules typed has read plain).head toFirst
  split
  next built =>
    -- The entity is there, possibly still under construction, and only receives the fields.
    obtain ⟨entity, found⟩ :=
      Table.exists_get?_of_mem_names ((Table.has_iff_mem_names _ _).mp built)
    have sameName : entity.name = name.entity := named ▸ wellFormed.named path entity found
    refine (extendBuilt_runs found firstBacks).bind fun _ third steps others => ?_
    refine Runs.returns ⟨steps.nameAt ⟨entity, found, sameName⟩, sameName ▸ others, fun fresh => ?_⟩
    rw [State.isBuilt, unchanged] at built
    simp [State.isBuilt, built] at fresh
  next notBuilt =>
    have fresh := Bool.eq_false_iff.mpr notBuilt
    split
    next existing found =>
      split
      next merge => exact new fresh fun _ => merge
      next => exact .fails_bind
    next missing => exact new fresh fun some => by simp [missing] at some

/-! ## The build of all roots -/

theorem onward_runs (context : Context) (levels : Nat) :
    OnwardRuns context (Compile.onward context levels) := by
  induction levels with
  | zero => exact ⟨fun _ _ _ _ _ _ => .fails, fun _ _ _ _ _ => .fails, fun _ _ _ _ _ => .fails⟩
  | succ levels ih =>
    exact {
      build := fun _ _ path type _ backs => (buildEntity_runs ih path type backs).weaken
        fun _ _ _ built => ⟨built.named, built.others⟩
      members := fun _ _ _ type fits => walkMembers_runs ih fits type
      extension := fun _ _ _ extension fits => walkExtension_runs ih fits extension }

/-- The entity of a root has been built from the type of the root. -/
theorem buildRoot_runs (levels : Nat) (path : String) (type : Schema.ComplexType) :
    Runs context pending pending ((Compile.onward context levels).build path (some type) []) state
      fun entity final => ∃ below,
        IsBuilt context (Compile.onward context below) pending path (some type) [] state entity
          final := by
  cases levels with
  | zero => exact .fails
  | succ below =>
    exact (buildEntity_runs (onward_runs context below) path (some type) (by simp)).weaken
      fun _ _ _ built => ⟨below, built⟩

theorem buildRoots_runs (levels : Nat) (roots : List (String × Schema.ComplexType)) :
    Runs context [] [] (buildRoots context levels roots) state
      fun _ final => ∀ root ∈ roots, ∃ name, final.NameAt root.1 name := by
  refine Runs.achieves
    (fun (root : String × Schema.ComplexType) final => ∃ name, final.NameAt root.1 name) ?_ ?_
  · rintro root before after steps ⟨name, named⟩
    exact ⟨name, steps.nameAt named⟩
  · intro (path, type) _ reached
    refine (buildRoot_runs levels path type).bind
      fun name final _ ⟨_, built⟩ => .returns ⟨name, built.named⟩

/-- From one state to another, an entity has been built for a type path, and the content of its type
has been walked. -/
def WalksType (context : Context) (first last : State) (path : String)
    (type : Schema.ComplexType) : Prop :=
  ∃ entity, last.NameAt path entity ∧
    ∀ content rules, type.content = some content → context.book.forType entity path = .ok rules →
      rules.isCustom = false →
        ∃ levels, Walked context (Compile.onward context levels) ⟨[], first⟩ ⟨[], last⟩
          (.outermost path entity rules) content

/-- The build of all roots begins with the content of the first one. -/
theorem buildRoots_walks (levels : Nat) {path : String} (type : Schema.ComplexType)
    (rest : List (String × Schema.ComplexType)) (fresh : state.isBuilt path = false) :
    Runs context [] [] (buildRoots context levels ((path, type) :: rest)) state
      fun _ final => WalksType context state final path type := by
  change Runs context [] []
    (((Compile.onward context levels).build path (some type) [] >>= fun _ => pure ())
      >>= fun _ => buildRoots context levels rest) state _
  rw [bind_assoc]
  refine (buildRoot_runs levels path type).bind fun entity reached _ ⟨below, built⟩ => ?_
  rw [pure_bind]
  refine (buildRoots_runs levels rest).weaken fun _ final toFinal _ => ?_
  refine ⟨entity, toFinal.nameAt built.named, fun content rules has read plain => ⟨below, ?_⟩⟩
  exact (built.walked fresh type content rules rfl has read plain).tail toFinal

end EntityGraph.Compile
