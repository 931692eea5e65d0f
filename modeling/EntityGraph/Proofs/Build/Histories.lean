import EntityGraph.Proofs.Build.Entities
import EntityGraph.Proofs.Build.LawfulEntities
import EntityGraph.Proofs.Build.Provenance

/-!
# The runs behind entities

Every entity that is not under construction comes from one run of `buildNew`, which has ended, and
has only grown since: it has the parent and the fields that the run has left. The law for this names
the type paths under construction, and a run adds its own path to them until it ends.
-/
namespace EntityGraph

/-- The field refers back to the owner of a relation, whose rows go with it. -/
def Field.refersBack (field : Field) : Bool :=
  match field.kind with
  | .toOne _ _ .cascade (some _) => true
  | _ => false

namespace Compile

open Schema (ComplexType)

/-! ## Growing -/

/-- A later form of an entity that has the same parent. -/
structure Grows (entity later : Entity) : Prop extends Extends entity later where
  parent : later.parent = entity.parent

namespace Grows

variable {entity later last : Entity}

theorem refl (entity : Entity) : Grows entity entity := ⟨.refl entity, rfl⟩

theorem trans (first : Grows entity later) (second : Grows later last) : Grows entity last :=
  ⟨first.toExtends.trans second.toExtends, second.parent.trans first.parent⟩

theorem of_insertField {field : Field} (inserted : insertField entity field = .ok later) :
    Grows entity later := by
  have insertion := insertField_insertion inserted
  exact ⟨insertion.extends, by rw [insertion.eq_with_fields]⟩

theorem of_same (same : (later.name, later.sourceTypes, later.parent, later.fields) =
    (entity.name, entity.sourceTypes, entity.parent, entity.fields)) : Grows entity later := by
  obtain ⟨name, source, parent, fields⟩ : later.name = entity.name ∧
      later.sourceTypes = entity.sourceTypes ∧ later.parent = entity.parent ∧
      later.fields = entity.fields := by simpa using same
  exact ⟨.of_same_fields name source fields, parent⟩

end Grows

/-- The entity of a path stays in place and grows, and no entity is lost. -/
structure Outlasts (path : String) (state later : State) : Prop where
  stays : ∀ other, state.isBuilt other = true → later.isBuilt other = true
  grown : ∀ entity, state.entities.get? path = some entity →
    ∃ last, later.entities.get? path = some last ∧ Grows entity last

namespace Outlasts

variable {path : String} {state later last : State}

theorem of_same (same : later.entities = state.entities) : Outlasts path state later :=
  ⟨fun _ built => by rw [State.isBuilt, same]; exact built,
    fun entity found => ⟨entity, same ▸ found, .refl entity⟩⟩

theorem trans (first : Outlasts path state later) (second : Outlasts path later last) :
    Outlasts path state last := by
  refine ⟨fun other built => second.stays other (first.stays other built), fun entity found => ?_⟩
  obtain ⟨middle, foundMiddle, toMiddle⟩ := first.grown entity found
  obtain ⟨end_, foundEnd, toEnd⟩ := second.grown middle foundMiddle
  exact ⟨end_, foundEnd, toMiddle.trans toEnd⟩

theorem set {other : String} {entity : Entity}
    (grows : other = path → ∀ old, state.entities.get? path = some old → Grows old entity) :
    Outlasts path state { state with entities := state.entities.set other entity } := by
  refine ⟨fun _ built => State.isBuilt_set.mpr (.inr built), fun old found => ?_⟩
  by_cases same : path = other
  · subst same
    exact ⟨entity, Table.get?_set_self .., grows rfl old found⟩
  · exact ⟨old, (Table.get?_set_of_ne _ _ same).trans found, .refl old⟩

theorem set_grown {other : String} {entity grown : Entity}
    (found : state.entities.get? other = some entity) (grows : Grows entity grown) :
    Outlasts path state { state with entities := state.entities.set other grown } := by
  refine .set ?_
  rintro rfl old foundOld
  obtain rfl : entity = old := Option.some.inj (found.symm.trans foundOld)
  exact grows

end Outlasts

/-! ## Referring back -/

/-- One list of fields is another one with further fields that refer back to owners. -/
def AddsBacks (fields later : List Field) : Prop :=
  ∃ backs, later = fields ++ backs ∧ ∀ field ∈ backs, field.refersBack = true

namespace AddsBacks

variable {fields later last : List Field}

theorem refl (fields : List Field) : AddsBacks fields fields :=
  ⟨[], (List.append_nil fields).symm, fun _ member => by cases member⟩

theorem trans (first : AddsBacks fields later) (second : AddsBacks later last) :
    AddsBacks fields last := by
  obtain ⟨backs, rfl, all⟩ := first
  obtain ⟨more, rfl, others⟩ := second
  refine ⟨backs ++ more, List.append_assoc .., fun field member => ?_⟩
  exact (List.mem_append.mp member).elim (all field) (others field)

theorem of_insertField {entity after : Entity} {owner relation name : String} {oneToOne : Bool}
    (inserted : insertField entity (backReference owner relation name oneToOne) = .ok after) :
    AddsBacks entity.fields after.fields := by
  rcases insertField_uncoalesced rfl rfl inserted with ⟨_, same⟩ | ⟨_, added⟩
  · exact same ▸ .refl _
  · refine ⟨[backReference owner relation name oneToOne], added, fun field member => ?_⟩
    rw [List.mem_singleton.mp member]
    rfl

end AddsBacks

/-! ## Finished entities -/

/-- One run that puts an entity at a type path where there has been none. -/
structure BuildRun (context : Context) (names : List NameRule) (path : String)
    (type : Option ComplexType) (levels : Nat) (before after : State) : Prop where
  wellFormed : before.WellFormed
  named : before.resolver.rules = names
  fresh : before.isBuilt path = false
  mergeable : (before.entityNamed? (nameOf names path).entity).isSome = true →
    (nameOf names path).merge = true
  ran : ∃ fields, AllBack fields ∧
    (buildNew context (Compile.onward context levels) path (nameOf names path).entity type
      fields).run before = .ok ((), after)

/-- The entity of a path comes from a run that has ended. -/
def Finished (context : Context) (names : List NameRule) (path : String) (state : State) : Prop :=
  ∃ type levels before after,
    BuildRun context names path type levels before after ∧ Outlasts path after state

theorem Finished.mono {context : Context} {names : List NameRule} {path : String}
    {state later : State} (finished : Finished context names path state)
    (outlasts : Outlasts path state later) : Finished context names path later := by
  obtain ⟨type, levels, before, after, run, since⟩ := finished
  exact ⟨type, levels, before, after, run, since.trans outlasts⟩

/-- A field has the name and the path of the mark of a member, at some place with the rules, and the
rules select the parent by that name. -/
structure IsMark (rules : FieldRules) (member : Schema.Member) (field : Field) : Prop where
  selected : rules.options.parentField = some field.name
  placed : ∃ scope : Scope, scope.rules = rules ∧ field.name = (scope.mark member).name ∧
    field.dottedPath = (scope.mark member).dottedPath

theorem IsMark.of_same {rules : FieldRules} {member : Schema.Member} {field later : Field}
    (isMark : IsMark rules member field) (name : later.name = field.name)
    (dottedPath : later.dottedPath = field.dottedPath) : IsMark rules member later := by
  obtain ⟨scope, sameRules, sameName, samePath⟩ := isMark.placed
  exact ⟨name ▸ isMark.selected, scope, sameRules, name.trans sameName, dottedPath.trans samePath⟩

/-- All marks of the parent are those of members that may be met, by the rules of the path. -/
def MarksSelected (context : Context) (names : List NameRule) (words : Vocabulary context.index)
    (path : String) (entity : Entity) : Prop :=
  ∀ field ∈ entity.fields, field.kind = .parentAlias → ∃ rules member, words.member member ∧
    context.book.forType (nameOf names path).entity path = .ok rules ∧ IsMark rules member field

theorem State.WellFormed.set {state : State} (wellFormed : state.WellFormed) {path : String}
    {entity : Entity} (named : entity.name = (nameOf state.resolver.rules path).entity)
    (source : entity.sourceTypes = [path]) :
    State.WellFormed { state with entities := state.entities.set path entity } where
  sorted := Table.sorted_set wellFormed.sorted _ _
  known := wellFormed.known
  named other kept get := by
    rcases Table.cases_of_get?_set get with ⟨rfl, rfl⟩ | get
    · exact named
    · exact wellFormed.named other kept get
  source other kept get := by
    rcases Table.cases_of_get?_set get with ⟨rfl, rfl⟩ | get
    · exact source
    · exact wellFormed.source other kept get

theorem State.WellFormed.opened {names : List NameRule} {state : State}
    (wellFormed : state.WellFormed) (named : state.resolver.rules = names) (path : String) :
    State.WellFormed { state with
      entities := state.entities.set path (.ofTypePath (nameOf names path).entity path) } :=
  wellFormed.set (named ▸ rfl) rfl

/-- What holds of every state of a build: all entities but those under construction come from runs
that have ended. -/
structure Tracked (context : Context) (names : List NameRule) (words : Vocabulary context.index)
    (pending : List String) (state : State) : Prop where
  wellFormed : state.WellFormed
  named : state.resolver.rules = names
  marked : ∀ path entity, state.entities.get? path = some entity →
    MarksSelected context names words path entity
  finished : ∀ path, state.isBuilt path = true →
    path ∈ pending ∨ Finished context names path state

namespace Tracked

variable {context : Context} {names : List NameRule} {words : Vocabulary context.index}
  {pending : List String} {state later : State} {path : String} {entity : Entity}

theorem start {resolver : NameResolver} (fresh : resolver.known = []) :
    Tracked context resolver.rules words [] (.start resolver) where
  wellFormed := State.start_wellFormed fresh
  named := rfl
  marked _ _ found := by cases found
  finished _ built := by cases built

/-- The entities do not change. -/
theorem of_same (tracked : Tracked context names words pending state)
    (same : later.entities = state.entities) (rules : later.resolver.rules = names)
    (known : ∀ path name, later.resolver.known.get? path = some name → name = nameOf names path) :
    Tracked context names words pending later where
  wellFormed := by
    obtain ⟨sorted, _, ofPath, source⟩ := tracked.wellFormed
    rw [tracked.named] at ofPath
    exact ⟨same ▸ sorted, rules ▸ known, rules ▸ same ▸ ofPath, same ▸ source⟩
  named := rules
  marked := same ▸ tracked.marked
  finished path built := by
    rw [State.isBuilt, same] at built
    exact (tracked.finished path built).imp_right (·.mono (.of_same same))

/-- The entity of a path, if it is there, gets a later form; unless the path is under construction,
the parent stays. -/
theorem set (tracked : Tracked context names words pending state)
    (found : state.entities.get? path = some entity) {last : Entity}
    (extends_ : Extends entity last) (parent : path ∉ pending → last.parent = entity.parent)
    (marks : MarksSelected context names words path last) :
    Tracked context names words pending
      { state with entities := state.entities.set path last } where
  wellFormed := tracked.wellFormed.set
    (extends_.name.trans (tracked.wellFormed.named path entity found))
    (extends_.source.trans (tracked.wellFormed.source path entity found))
  named := tracked.named
  marked other kept get := by
    rcases Table.cases_of_get?_set get with ⟨rfl, rfl⟩ | get
    · exact marks
    · exact tracked.marked other kept get
  finished other built := by
    have wasBuilt : state.isBuilt other = true := by
      rcases State.isBuilt_set.mp built with rfl | built
      · exact State.isBuilt_iff.mpr ⟨entity, found⟩
      · exact built
    -- A path under construction owes nothing; any other has only had its entity grow.
    by_cases free : other ∈ pending
    · exact .inl free
    · refine .inr (((tracked.finished other wasBuilt).resolve_left free).mono (.set ?_))
      rintro rfl old foundOld
      obtain rfl : entity = old := Option.some.inj (found.symm.trans foundOld)
      exact ⟨extends_, parent free⟩

/-- An empty entity is put in place, which makes its path one under construction. -/
theorem opened (tracked : Tracked context names words pending state)
    (fresh : state.isBuilt path = false) :
    Tracked context names words (path :: pending) { state with
      entities := state.entities.set path (.ofTypePath (nameOf names path).entity path) } where
  wellFormed := tracked.wellFormed.opened tracked.named path
  named := tracked.named
  marked other kept get := by
    rcases Table.cases_of_get?_set get with ⟨rfl, rfl⟩ | get
    · intro field member
      cases member
    · exact tracked.marked other kept get
  finished other built := by
    rcases State.isBuilt_set.mp built with rfl | wasBuilt
    · exact .inl List.mem_cons_self
    · refine (tracked.finished other wasBuilt).imp (List.mem_cons_of_mem _) (·.mono (.set ?_))
      rintro rfl
      simp [fresh] at wasBuilt

/-- The run of a path has ended. -/
theorem closed (tracked : Tracked context names words (path :: pending) state)
    (finished : Finished context names path state) : Tracked context names words pending state where
  wellFormed := tracked.wellFormed
  named := tracked.named
  marked := tracked.marked
  finished other built := by
    rcases tracked.finished other built with under | done
    · rcases List.mem_cons.mp under with rfl | under
      · exact .inr finished
      · exact .inl under
    · exact .inr done

end Tracked

/-! ## The law -/

/-- Nothing that can be given to an entity is a mark of the parent, but for that of a member by
whose name the rules select the parent. -/
theorem Given.isMark {context : Context} {words : Vocabulary context.index}
    {Found : Option String → ScalarRepr → Prop} {scope : Scope} {field : Field}
    (given : Given context words Found scope field) (mark : field.kind = .parentAlias) :
    ∃ member, words.member member ∧ IsMark scope.rules member field := by
  -- Options never turn a materialized kind into a mark: they keep its shape, or make it a scalar.
  have finished {draft field : Field} {text primitive : Option String}
      (finished : finishField context scope text primitive draft = .ok field)
      (materialized : draft.kind.isMaterialized = true) : field.kind ≠ .parentAlias := by
    intro mark
    rcases (finishField_form finished).2.1 with same | ⟨_, _, _, same⟩
    · rw [← FieldKind.isMaterialized_of_shape same, mark] at materialized
      cases materialized
    · rw [mark] at same
      cases same
  cases given with
  | parentAlias met selected => exact ⟨_, met, selected, scope, rfl, rfl, rfl⟩
  | dropped | content | bag => cases mark
  | value kind _ done =>
    refine absurd mark (finished done ?_)
    rcases kind with kind | kind <;> rw [kind] <;> rfl
  | relation materialized _ done => exact absurd mark (finished done materialized)
  | extra materialized _ =>
    obtain rfl : _ = FieldKind.parentAlias := mark
    cases materialized

theorem MarksSelected.added {context : Context} {names : List NameRule}
    {words : Vocabulary context.index} {path : String} {entity after : Entity} {field : Field}
    (marks : MarksSelected context names words path entity)
    (inserted : insertField entity field = .ok after)
    (marked : field.kind = .parentAlias → ∃ rules member, words.member member ∧
      context.book.forType (nameOf names path).entity path = .ok rules ∧
      IsMark rules member field) :
    MarksSelected context names words path after := by
  intro known member mark
  -- A field that is coalesced with an earlier one leaves an alias, which is another kind of mark.
  rcases (insertField_insertion inserted).placed.cases_of_mem member with
    ⟨old, oldMember, same⟩ | rfl | ⟨former, rfl⟩
  · obtain ⟨name, dottedPath, kind, _⟩ := Field.bare_eq_iff.mp same
    obtain ⟨rules, source, met, read, isMark⟩ := marks old oldMember (kind ▸ mark)
    exact ⟨rules, source, met, read, isMark.of_same name dottedPath⟩
  · exact marked mark
  · cases mark

theorem eq_parentAlias_of_setRelatedName {relatedName : Option String} {kind : FieldKind}
    (mark : setRelatedName relatedName kind = .parentAlias) : kind = .parentAlias := by
  cases relatedName <;> cases kind <;> first | rfl | cases mark

/-- While some type paths are under construction, all others come from runs that have ended. -/
def trackingLaw (context : Context) (names : List NameRule) (words : Vocabulary context.index)
    (pending : List String) : WalkLaw context where
  Holds := Tracked context names words pending
  At scope :=
    context.book.forType (nameOf names scope.typePath).entity scope.typePath = .ok scope.rules
  words := words
  Asks _ type := ∀ given, type = some given → words.type given
  Found _ _ := True
  moved place same := by
    obtain ⟨path, _, rules⟩ := by simpa using same
    rw [path, rules]
    exact place
  asks _ request := request.known
  asks_named _ _ _ := nofun
  frame tracked entities resolver _ _ :=
    tracked.of_same entities (resolver ▸ tracked.named)
      (resolver ▸ tracked.named ▸ tracked.wellFormed.known)
  naming tracked _ := by
    refine tracked.of_same rfl ((NameResolver.resolve_rules _ _).trans tracked.named) ?_
    rw [← tracked.named]
    exact NameResolver.resolve_known tracked.wellFormed.known _
  derives tracked _ _ :=
    ⟨tracked.of_same rfl tracked.named (tracked.named ▸ tracked.wellFormed.known), trivial⟩
  added tracked place found given inserted := by
    have grows := Grows.of_insertField inserted
    refine tracked.set found grows.toExtends (fun _ => grows.parent) ?_
    refine (tracked.marked _ _ found).added inserted fun mark => ?_
    obtain ⟨member, met, isMark⟩ := given.isMark (eq_parentAlias_of_setRelatedName mark)
    exact ⟨_, member, met, place, isMark.of_same rfl rfl⟩
  referredBack tracked found inserted := by
    have grows := Grows.of_insertField inserted
    refine tracked.set found grows.toExtends (fun _ => grows.parent) ?_
    exact (tracked.marked _ _ found).added inserted fun mark => by cases mark
  reshaped tracked found same := by
    have grows := Grows.of_same same
    refine tracked.set found grows.toExtends (fun _ => grows.parent) ?_
    obtain ⟨_, _, _, fields⟩ := by simpa using same
    rw [MarksSelected, fields]
    exact tracked.marked _ _ found

/-! ## Runs -/

theorem run_bind_eq_ok {α β : Type} {first : Walk α} {next : α → Walk β} {state : State}
    {reached : β × State} :
    (first >>= next).run state = .ok reached ↔
      ∃ value middle, first.run state = .ok (value, middle) ∧
        (next value).run middle = .ok reached := by
  rw [StateT.run_bind, Result.bind_eq_ok]
  exact ⟨fun ⟨(value, middle), run, rest⟩ => ⟨value, middle, run, rest⟩,
    fun ⟨value, middle, run, rest⟩ => ⟨(value, middle), run, rest⟩⟩

theorem run_lift_eq_ok {α : Type} {computation : Result α} {state final : State} {value : α}
    (ran : StateT.run (liftM computation : Walk α) state = .ok (value, final)) :
    computation = .ok value ∧ state = final := by
  cases computation with
  | error failure => cases ran
  | ok value =>
    cases ran
    exact ⟨rfl, rfl⟩

/-- The parent of a new entity is settled: the entity inherits from the type path, if there is
one. -/
def Settles (context : Context) (onward : Onward) (scope : Scope) (parent : Option String)
    (before after : State) : Prop :=
  (parent = none ∧ after = before) ∨
    ∃ path, parent = some path ∧
      (inherit context onward scope path).run before = .ok ((), after)

/-- Building a new entity puts an empty one in place, reads its rules, walks its outline, settles
its parent and fills it. -/
theorem buildNew_eq_ok {context : Context} {onward : Onward} {path entity : String}
    {type : Option ComplexType} {fields : List Field} {state final : State}
    (ran : (buildNew context onward path entity type fields).run state = .ok ((), final)) :
    ∃ rules outline outlined settled, context.book.forType entity path = .ok rules ∧
      (outlineOf context onward (.outermost path entity rules) type).run { state with
        entities := state.entities.set path (.ofTypePath entity path) } = .ok (outline, outlined) ∧
      Settles context onward (.outermost path entity rules)
        (rules.options.parentType <|> outline.parent) outlined settled ∧
      (fill context onward (.outermost path entity rules) outline.content fields).run settled =
        .ok ((), final) := by
  unfold buildNew at ran
  obtain ⟨_, _, put, ran⟩ := run_bind_eq_ok.mp ran
  cases put
  obtain ⟨rules, _, read, ran⟩ := run_bind_eq_ok.mp ran
  obtain ⟨given, rfl⟩ := run_lift_eq_ok read
  obtain ⟨outline, outlined, ranOutline, ran⟩ := run_bind_eq_ok.mp ran
  refine ⟨rules, outline, outlined, ?_⟩
  dsimp only at ran
  split at ran
  next parent selected =>
    obtain ⟨_, settled, inherited, ran⟩ := run_bind_eq_ok.mp ran
    exact ⟨settled, given, ranOutline, .inr ⟨parent, selected, inherited⟩, ran⟩
  next selected => exact ⟨outlined, given, ranOutline, .inl ⟨selected, rfl⟩, ran⟩

/-! ## Laws that follow runs -/

/-- A law for every list of type paths under construction. A run makes its own path one of them, and
takes it off the list when it has ended. -/
structure RunLaw (context : Context) (names : List NameRule) where
  law : List String → WalkLaw context
  wellFormed : ∀ {pending state}, (law pending).Holds state → state.WellFormed
  named : ∀ {pending state}, (law pending).Holds state → state.resolver.rules = names
  asked : ∀ {pending path type}, (law pending).Asks path (some type) →
    (law (path :: pending)).words.type type
  outermost : ∀ {pending path type rules}, (law pending).Asks path type →
    context.book.forType (nameOf names path).entity path = .ok rules →
      (law (path :: pending)).At (.outermost path (nameOf names path).entity rules)
  opened : ∀ {pending state path type}, (law pending).Holds state → (law pending).Asks path type →
    state.isBuilt path = false → (law (path :: pending)).Holds { state with
      entities := state.entities.set path (.ofTypePath (nameOf names path).entity path) }
  /-- The entity of the run gets a parent. -/
  adopted : ∀ {pending state path entity}, (law (path :: pending)).Holds state →
    state.entities.get? path = some entity → ∀ parent : String,
      (law (path :: pending)).Holds { state with
        entities := state.entities.set path { entity with parent := some parent } }
  closed : ∀ {pending path type levels before after}, (law pending).Holds before →
    (law pending).Asks path type → BuildRun context names path type levels before after →
      (law (path :: pending)).Holds after → (law pending).Holds after

namespace RunLaw

variable {context : Context} {names : List NameRule} {laws : RunLaw context names}
  {pending : List String} {state final : State} {levels : Nat} {path : String}
  {type : Option ComplexType} {fields : List Field}

/-- What leads to other entities and types keeps to the law, whatever is under construction. -/
def OnwardKeepsAll (laws : RunLaw context names) (levels : Nat) : Prop :=
  ∀ pending, OnwardKeeps (laws.law pending) (Compile.onward context levels)
    (Compile.onward context levels)

theorem buildNew_holds (onwardKeeps : laws.OnwardKeepsAll levels)
    (holds : (laws.law pending).Holds state) (asked : (laws.law pending).Asks path type)
    (fresh : state.isBuilt path = false)
    (mergeable : (state.entityNamed? (nameOf names path).entity).isSome = true →
      (nameOf names path).merge = true) (backs : AllBack fields)
    (ran : (buildNew context (Compile.onward context levels) path (nameOf names path).entity type
      fields).run state = .ok ((), final)) : (laws.law pending).Holds final := by
  have run : BuildRun context names path type levels state final :=
    ⟨laws.wellFormed holds, laws.named holds, fresh, mergeable, fields, backs, ran⟩
  obtain ⟨rules, outline, outlined, settled, given, ranOutline, settles, ranFill⟩ :=
    buildNew_eq_ok ran
  -- While the parts of the entity are walked, its own path is one under construction.
  have keeps := onwardKeeps (path :: pending)
  have place := laws.outermost asked given
  obtain ⟨holdsOutlined, allowed⟩ := (outlineOf_keeps keeps place
    (fun _ same => laws.asked (same ▸ asked)) _ (laws.opened holds asked fresh)).2 _ _ ranOutline
  have holdsSettled : (laws.law (path :: pending)).Holds settled := by
    rcases settles with ⟨_, rfl⟩ | ⟨parent, selected, ranInherit⟩
    · exact holdsOutlined
    · refine ((inherit_keeps keeps place (fun _ _ => laws.adopted)
        ((laws.law (path :: pending)).asks place ?_) _ holdsOutlined).2 _ _ ranInherit).1
      rcases (Option.orElse_eq_some _ _ _).mp selected with own | ⟨_, outlined⟩
      · exact .configured (by simp [Scope.outermost, EntityOptions.targets, own])
      · exact allowed.parent parent outlined
  have holdsFinal := ((fill_keeps keeps place allowed.content backs _ holdsSettled).2 _ _ ranFill).1
  exact laws.closed holds asked run holdsFinal

theorem buildEntity_holds (onwardKeeps : laws.OnwardKeepsAll levels) {entity : String}
    (holds : (laws.law pending).Holds state) (asked : (laws.law pending).Asks path type)
    (backs : AllBack fields)
    (ran : (buildEntity context (Compile.onward context levels) path type fields).run state =
      .ok (entity, final)) : (laws.law pending).Holds final := by
  obtain ⟨name, named, ranName, ran⟩ := run_bind_eq_ok.mp ran
  have holdsNamed := ((resolveName_keeps _ asked _ holds).2 _ _ ranName).1
  obtain rfl : name = nameOf names path := by
    cases ranName
    exact (NameResolver.resolve_name (laws.wellFormed holds).known path).trans
      (by rw [laws.named holds])
  obtain ⟨_, _, read, ran⟩ := run_bind_eq_ok.mp ran
  cases read
  dsimp only at ran
  -- A path that is built only takes the fields; for any other, a new run begins.
  split at ran
  next =>
    obtain ⟨_, extended, ranExtend, ran⟩ := run_bind_eq_ok.mp ran
    cases ran
    have keeps := @extendBuilt_keeps context (laws.law pending) path fields backs
    exact ((keeps named holdsNamed).2 _ _ ranExtend).1
  next notBuilt =>
    have new (mergeable : (named.entityNamed? (nameOf names path).entity).isSome = true →
          (nameOf names path).merge = true)
        (ran : (do
          buildNew context (Compile.onward context levels) path (nameOf names path).entity type
            fields
          pure (nameOf names path).entity).run named = .ok (entity, final)) :
        (laws.law pending).Holds final := by
      obtain ⟨_, built, ranNew, ran⟩ := run_bind_eq_ok.mp ran
      cases ran
      exact buildNew_holds onwardKeeps holdsNamed asked (Bool.eq_false_iff.mpr notBuilt)
        mergeable backs ranNew
    split at ran
    next existing found =>
      split at ran
      next merge => exact new (fun _ => merge) ran
      next => cases ran
    next missing => exact new (fun some => by simp [missing] at some) ran

/-- The induction on the levels is for all pending paths at once: each run adds one. -/
theorem onward_keeps (laws : RunLaw context names) (levels : Nat) : laws.OnwardKeepsAll levels := by
  induction levels with
  | zero => exact fun pending => onward_zero_keeps (laws.law pending)
  | succ levels ih =>
    exact fun pending => {
      build := fun _ _ _ asked backs => .of_run fun _ _ _ holds ran =>
        ⟨buildEntity_holds ih holds asked backs ran, trivial⟩
      members := fun _ _ place known => walkMembers_keeps (ih pending) place known
      extension := fun _ _ _ place known has => walkExtension_keeps (ih pending) place known has }

/-- A build of roots that may be asked for keeps to the law. -/
theorem buildRoots_holds (laws : RunLaw context names) {roots : List (String × ComplexType)}
    (asked : ∀ root ∈ roots, (laws.law []).Asks root.1 (some root.2))
    (holds : (laws.law []).Holds state)
    (ran : (buildRoots context levels roots).run state = .ok ((), final)) :
    (laws.law []).Holds final := by
  have keeps : (laws.law []).Keeps (buildRoots context levels roots)
      (buildRoots context levels roots) fun _ => True :=
    .repeats fun root member => ((laws.onward_keeps _ []).build root.1 (some root.2) []
      (asked root member) allBack_nil).bind fun _ _ => .returns trivial
  exact ((keeps _ holds).2 _ _ ran).1

/-- A build keeps to the law, whatever its roots and its names are. -/
theorem build_holds {index : Schema.Index} {settings : Settings} {levels : Nat} {book : RuleBook}
    {state : State} (laws : ∀ roots names, RunLaw ⟨index, settings, book, roots⟩ names)
    (asked : ∀ roots names, ∀ selector ∈ settings.compiler.roots, ∀ root,
      index.resolveRoot selector = .ok root →
        ((laws roots names).law []).Asks root.1 (some root.2))
    (start : ∀ roots (resolver : NameResolver), resolver.known = [] →
      ((laws roots resolver.rules).law []).Holds (.start resolver))
    (built : build index settings levels = .ok (book, state)) :
    ∃ roots names, ((laws roots names).law []).Holds state := by
  obtain ⟨resolver, roots, named, _, selected, ran⟩ := build_eq_ok built
  have begins := start (roots.map (·.1)) resolver (NameResolver.ofRules_known named)
  have asks : ∀ root ∈ roots,
      ((laws (roots.map (·.1)) resolver.rules).law []).Asks root.1 (some root.2) := by
    intro root member
    obtain ⟨selector, inRoots, gives⟩ :=
      Pointwise.exists_left (Result.forall₂_of_mapM selected) member
    exact asked _ _ selector inRoots root gives
  exact ⟨roots.map (·.1), resolver.rules, buildRoots_holds (laws _ _) asks begins ran⟩

end RunLaw

/-- Every run leaves its entity to the law of the others, which come from runs as well. -/
def trackingLaws (context : Context) (names : List NameRule) (words : Vocabulary context.index) :
    RunLaw context names where
  law := trackingLaw context names words
  wellFormed := Tracked.wellFormed
  named := Tracked.named
  asked asked := asked _ rfl
  outermost _ given := given
  opened tracked _ fresh := tracked.opened fresh
  adopted tracked found _ := by
    have marks := tracked.marked _ _ found
    exact tracked.set found (.of_same_fields rfl rfl rfl)
      (fun free => absurd List.mem_cons_self free) marks
  closed _ _ run tracked := tracked.closed ⟨_, _, _, _, run, .of_same rfl⟩

/-- At the end of a build every entity comes from a run that has ended. -/
theorem build_tracked {index : Schema.Index} {settings : Settings} {levels : Nat} {book : RuleBook}
    {state : State} (words : Vocabulary index)
    (known : ∀ selector ∈ settings.compiler.roots, ∀ root,
      index.resolveRoot selector = .ok root → words.type root.2)
    (built : build index settings levels = .ok (book, state)) :
    ∃ roots names, Tracked ⟨index, settings, book, roots⟩ names words [] state := by
  refine RunLaw.build_holds (fun roots names => trackingLaws _ names words) ?_
    (fun _ _ fresh => .start fresh) built
  rintro _ _ selector inRoots root gives _ ⟨⟩
  exact known selector inRoots root gives

end Compile

end EntityGraph
