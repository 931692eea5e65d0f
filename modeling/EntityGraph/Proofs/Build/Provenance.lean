import EntityGraph.Proofs.Build.Entities
import EntityGraph.Proofs.Entity

/-!
# What has been built

A build starts with nothing and ends with nothing under construction. By induction on its steps,
every entity is closed in the end, no two materialized fields of an entity have the same name, and
every field has an origin: a step that added it, under the rules of its entity. What a walk has put
in place on the way is still there.

The parent of every built entity has been built, and so has the target of every relation, unless it
is that of an extra field, which may name what it likes. A target that was never built is noticed
when entities are put into order, and at no earlier time.
-/
namespace EntityGraph.Compile

/-! ## A build as steps -/

/-- The fixed data of a build, the steps that it takes, and what it is there for: every root has
been built. -/
structure Construction (index : Schema.Index) (settings : Settings) (book : RuleBook)
    (state : State) where
  context : Context
  resolver : NameResolver
  settings_eq : context.settings = settings
  book_eq : context.book = book
  read : NameResolver.ofRules settings.typeMap = .ok resolver
  steps : Steps context ⟨[], .start resolver⟩ ⟨[], state⟩
  rooted : ∀ root ∈ settings.compiler.roots, ∃ path type name,
    index.resolveRoot root = .ok (path, type) ∧ state.NameAt path name

theorem NameResolver.ofRules_known {rules : List NamingRule} {resolver : NameResolver}
    (read : NameResolver.ofRules rules = .ok resolver) : resolver.known = [] := by
  obtain ⟨ready, _, made⟩ := Result.bind_eq_ok.mp read
  exact Result.pure_eq_ok.mp made ▸ rfl

/-- A build that succeeds is a construction, which begins with the content of the first root. -/
theorem exists_construction_from_root {index : Schema.Index} {settings : Settings} {levels : Nat}
    {book : RuleBook} {state : State} (built : build index settings levels = .ok (book, state)) :
    ∃ construction : Construction index settings book state,
      construction.context.index = index ∧
        ∀ root rest path type, settings.compiler.roots = root :: rest →
          index.resolveRoot root = .ok (path, type) →
            WalksType construction.context (.start construction.resolver) state path type := by
  obtain ⟨resolver, read, built⟩ := Result.bind_eq_ok.mp built
  obtain ⟨readBook, _, built⟩ := Result.bind_eq_ok.mp built
  obtain ⟨roots, resolved, built⟩ := Result.bind_eq_ok.mp built
  obtain ⟨⟨_, final⟩, ran, built⟩ := Result.bind_eq_ok.mp built
  obtain ⟨rfl, rfl⟩ := Prod.mk.inj (Result.pure_eq_ok.mp built)
  have wellFormed := State.start_wellFormed (NameResolver.ofRules_known read)
  have resolvedAll := Result.forall₂_of_mapM resolved
  obtain ⟨steps, _, all⟩ := buildRoots_runs levels roots wellFormed _ _ ran
  refine ⟨⟨_, resolver, rfl, rfl, read, steps, fun root member => ?_⟩, rfl, ?_⟩
  · obtain ⟨⟨path, type⟩, inRoots, resolves⟩ := Pointwise.exists_right resolvedAll member
    obtain ⟨name, named⟩ := all _ inRoots
    exact ⟨path, type, name, resolves, named⟩
  · intro root rest path type first resolves
    rw [first] at resolvedAll
    cases resolvedAll with
    | @cons _ found _ others resolvesFound _ =>
      -- A root resolves to one type only, so the one that was built first is this one.
      obtain rfl : found = (path, type) := Except.ok.inj (resolvesFound.symm.trans resolves)
      exact (buildRoots_walks levels type others rfl wellFormed _ _ ran).2.2

theorem exists_construction {index : Schema.Index} {settings : Settings} {levels : Nat}
    {book : RuleBook} {state : State} (built : build index settings levels = .ok (book, state)) :
    Nonempty (Construction index settings book state) := by
  obtain ⟨construction, _⟩ := exists_construction_from_root built
  exact ⟨construction⟩

/-- In the end every dependency comes from a field or from the parent. -/
theorem isFounded_of_build {index : Schema.Index} {settings : Settings} {levels : Nat}
    {book : RuleBook} {state : State} (built : build index settings levels = .ok (book, state)) :
    state.IsFounded := by
  obtain ⟨resolver, read, built⟩ := Result.bind_eq_ok.mp built
  obtain ⟨readBook, _, built⟩ := Result.bind_eq_ok.mp built
  obtain ⟨roots, _, built⟩ := Result.bind_eq_ok.mp built
  obtain ⟨⟨_, final⟩, ran, built⟩ := Result.bind_eq_ok.mp built
  obtain ⟨rfl, rfl⟩ := Prod.mk.inj (Result.pure_eq_ok.mp built)
  have wellFormed := State.start_wellFormed (NameResolver.ofRules_known read)
  obtain ⟨_, undisturbed, _⟩ := buildRoots_runs levels roots wellFormed _ _ ran
  refine undisturbed.founded ?_
  intro path entity found
  cases found

/-! ## Finished entities -/

/-- Everything that is not under construction has the property. -/
def Progress.Finished (Holds : Entity → Prop) (progress : Progress) : Prop :=
  ∀ path entity, progress.state.entities.get? path = some entity → path ∉ progress.pending →
    Holds entity

variable {Holds : Entity → Prop}

/-- Changing an entity under construction leaves the others finished. -/
theorem Progress.Finished.set_pending {pending : List String} {state : State}
    (finished : Progress.Finished Holds ⟨pending, state⟩) {path : String}
    (building : path ∈ pending)
    (entity : Entity) :
    Progress.Finished Holds
      ⟨pending, { state with entities := state.entities.set path entity }⟩ := by
  intro other found get notPending
  have different : other ≠ path := by
    rintro rfl
    exact notPending building
  exact finished other found (Table.get?_set_of_ne _ _ different ▸ get) notPending

/-- The innermost entity under construction is finished if it has the property. -/
theorem Progress.Finished.set_finished {pending : List String} {state : State} {path : String}
    (finished : Progress.Finished Holds ⟨path :: pending, state⟩) {entity : Entity}
    (holds : Holds entity) :
    Progress.Finished Holds
      ⟨pending, { state with entities := state.entities.set path entity }⟩ := by
  intro other found get notPending
  by_cases same : other = path
  · subst same
    rw [Table.get?_set_self] at get
    exact Option.some.inj get ▸ holds
  · have notBuilding : other ∉ path :: pending := by simp [same, notPending]
    exact finished other found (Table.get?_set_of_ne _ _ same ▸ get) notBuilding

/-- Whatever closing brings about, finished entities have. -/
theorem Step.finished_kept {context : Context} {before after : Progress}
    (step : Step context before after) (close : ∀ entity : Entity, Holds entity.close)
    (finished : before.Finished Holds) : after.Finished Holds := by
  cases step with
  | noticed | named | chosen | derived | bagged | unbagged => exact finished
  | @opened pending state path fresh _ =>
    -- The new entity is not finished, but it is under construction.
    have others : Progress.Finished Holds ⟨path :: pending, state⟩ :=
      fun other entity found notPending =>
        finished other entity found fun member => notPending (List.mem_cons_of_mem _ member)
    exact others.set_pending List.mem_cons_self _
  | described building _ _ => exact finished.set_pending building _
  | inherited building _ _ => exact finished.set_pending building _
  | added fits _ _ _ _ _ => exact finished.set_pending fits.pending _
  | completed _ _ _ => exact finished.set_finished (close _)
  | reopened _ =>
    exact fun other entity found notPending =>
      finished other entity found fun member => notPending (List.mem_cons_of_mem _ member)
  | closed _ => exact finished.set_finished (close _)

/-! ## Fields -/

/-- A step may add a field to the entity of a type path. -/
structure Added (context : Context) (earlier : Progress) (path : String) (scope : Scope)
    (offered : Field) : Prop where
  path_eq : scope.typePath = path
  fits : scope.Fits context earlier
  origin : Origin context earlier.state scope offered
  wanted : offered.isMaterialized = true →
    scope.rules.dropAfterProcessing.contains offered.name = false
  short : offered.isMaterialized = true →
    offered.name.length ≤ context.settings.compiler.identifierLimit

/-- The entity keeps the name that the place had. -/
theorem Added.entity_name {context : Context} {earlier later : Progress} {path : String}
    {scope : Scope} {offered : Field} (added : Added context earlier path scope offered)
    (steps : Steps context earlier later) {entity : Entity}
    (found : later.state.entities.get? path = some entity) : entity.name = scope.entity := by
  obtain ⟨known, foundKnown, named⟩ := steps.nameAt added.fits.named
  rw [added.path_eq, found] at foundKnown
  exact Option.some.inj foundKnown ▸ named

/-- The field with a name for its other end. -/
def withRelatedName (field : Field) (relatedName : Option String) : Field :=
  { field with kind := setRelatedName relatedName field.kind }

/-- How an entity got its fields in a step: it has none, or those from before, or one was put to
them. -/
inductive FieldSource (context : Context) (before : Progress) (path : String) (entity : Entity) :
    Prop
  | empty (fields : entity.fields = [])
  | same {old : Entity} (found : before.state.entities.get? path = some old)
      (fields : entity.fields = old.fields)
  | added {old : Entity} {scope : Scope} {offered : Field} {relatedName : Option String}
      (found : before.state.entities.get? path = some old)
      (added : Added context before path scope offered)
      (insertion : Insertion old (withRelatedName offered relatedName) entity)
      (related : relatedName = reverseName? before.state path offered)

theorem Step.fieldSource {context : Context} {before after : Progress}
    (step : Step context before after) {path : String} {entity : Entity}
    (found : after.state.entities.get? path = some entity) :
    FieldSource context before path entity := by
  cases step with
  | noticed | named | chosen | derived | bagged | unbagged | reopened => exact .same found rfl
  | opened _ _ =>
    rcases Table.cases_of_get?_set found with ⟨rfl, rfl⟩ | old
    · exact .empty rfl
    · exact .same old rfl
  | described _ foundOld _ | inherited _ foundOld _ | completed foundOld _ _ | closed foundOld =>
    rcases Table.cases_of_get?_set found with ⟨rfl, rfl⟩ | old
    · exact .same foundOld rfl
    · exact .same old rfl
  | added fits foundOld origin wanted short inserted =>
    rcases Table.cases_of_get?_set found with ⟨rfl, rfl⟩ | old
    · have insertion := insertField_insertion inserted
      exact .added foundOld ⟨rfl, fits, origin, wanted, short⟩ insertion rfl
    · exact .same old rfl

/-- No entity has two materialized fields of one name. -/
def State.HasDistinctFields (state : State) : Prop :=
  ∀ path entity, state.entities.get? path = some entity → (materializedNames entity.fields).Nodup

theorem Step.distinctFields_kept {context : Context} {before after : Progress}
    (step : Step context before after) (distinct : before.state.HasDistinctFields) :
    after.state.HasDistinctFields := by
  intro path entity found
  cases step.fieldSource found with
  | empty fields => simp [fields, materializedNames]
  | same foundOld fields => exact fields ▸ distinct _ _ foundOld
  | added foundOld _ insertion => exact insertion.placed.nodup (distinct _ _ foundOld)

/-! ## Origins -/

/-- Where a field of an entity comes from: it is the mark of a coalesced element, or a step has
added it. -/
inductive Provenance (context : Context) (progress : Progress) (path : String) (field : Field) :
    Prop
  | mark {into : String} (kind : field.kind = .coalescedAlias into)
  | added {earlier : Progress} {scope : Scope} {offered : Field} {relatedName : Option String}
      (steps : Steps context earlier progress) (added : Added context earlier path scope offered)
      (same : field.bare = (withRelatedName offered relatedName).bare)

theorem Provenance.of_bare {context : Context} {progress : Progress} {path : String}
    {field other : Field} (same : other.bare = field.bare)
    (provenance : Provenance context progress path field) :
    Provenance context progress path other := by
  cases provenance with
  | mark kind => exact .mark ((Field.bare_eq_iff.mp same).2.2.1.trans kind)
  | added steps added known => exact .added steps added (same.trans known)

theorem Provenance.step {context : Context} {before after : Progress} {path : String}
    {field : Field} (provenance : Provenance context before path field)
    (step : Step context before after) : Provenance context after path field := by
  cases provenance with
  | mark kind => exact .mark kind
  | added steps added same => exact .added (steps.tail step) added same

/-- Every field of every entity has a provenance. -/
def Progress.Traced (context : Context) (progress : Progress) : Prop :=
  ∀ path entity, progress.state.entities.get? path = some entity → ∀ field ∈ entity.fields,
    Provenance context progress path field

theorem Step.traced_kept {context : Context} {before after : Progress}
    (step : Step context before after) (traced : before.Traced context) : after.Traced context := by
  intro path entity found field member
  cases step.fieldSource found with
  | empty fields => simp [fields] at member
  | same foundOld fields => exact (traced _ _ foundOld field (fields ▸ member)).step step
  | added foundOld added insertion =>
    -- An old field keeps its provenance, the new one has this step, and an alias is a mark.
    rcases insertion.placed.cases_of_mem member with
      ⟨known, knownMember, same⟩ | rfl | ⟨former, rfl⟩
    · exact ((traced _ _ foundOld known knownMember).of_bare same).step step
    · exact .added (.single step) added rfl
    · exact .mark rfl

/-! ## Fields at the end of a build -/

namespace Construction

variable {index : Schema.Index} {settings : Settings} {book : RuleBook} {state : State}

theorem wellFormed (construction : Construction index settings book state) : state.WellFormed :=
  construction.steps.wellFormed
    (State.start_wellFormed (NameResolver.ofRules_known construction.read))

/-- What holds of nothing and is kept by every step holds in the end. -/
theorem holds (construction : Construction index settings book state) (Holds : Progress → Prop)
    (init : ∀ resolver, Holds ⟨[], .start resolver⟩)
    (keeps : ∀ before after, Step construction.context before after → Holds before → Holds after) :
    Holds ⟨[], state⟩ := by
  have all (reached : Progress)
      (steps : Steps construction.context ⟨[], .start construction.resolver⟩ reached) :
      Holds reached := by
    induction steps with
    | refl => exact init _
    | tail _ step ih => exact keeps _ _ step ih
  exact all _ construction.steps

/-- In the end every entity is closed, and has what closing brings about. -/
theorem finished (construction : Construction index settings book state) {Holds : Entity → Prop}
    (close : ∀ entity : Entity, Holds entity.close) {path : String} {entity : Entity}
    (found : state.entities.get? path = some entity) : Holds entity := by
  have all := construction.holds (Progress.Finished Holds) (fun _ _ _ found => by cases found)
    fun _ _ step => step.finished_kept close
  exact all path entity found List.not_mem_nil

theorem isClosed (construction : Construction index settings book state) {path : String}
    {entity : Entity} (found : state.entities.get? path = some entity) : entity.IsClosed :=
  construction.finished Entity.close_isClosed found

theorem distinctFields (construction : Construction index settings book state) :
    state.HasDistinctFields :=
  construction.holds (fun progress => progress.state.HasDistinctFields)
    (fun _ _ _ found => by cases found) fun _ _ step => step.distinctFields_kept

theorem traced (construction : Construction index settings book state) :
    Progress.Traced construction.context ⟨[], state⟩ :=
  construction.holds (Progress.Traced construction.context) (fun _ _ _ found => by cases found)
    fun _ _ step => step.traced_kept

/-- In the end the name of every materialized field keeps to the limit. -/
theorem name_length (construction : Construction index settings book state) {path : String}
    {entity : Entity} (found : state.entities.get? path = some entity) {field : Field}
    (member : field ∈ entity.fields) (materialized : field.isMaterialized = true) :
    field.name.length ≤ settings.compiler.identifierLimit := by
  cases construction.traced path entity found field member with
  | mark kind => simp [Field.isMaterialized, kind, FieldKind.isMaterialized] at materialized
  | @added earlier scope offered relatedName steps added same =>
    obtain ⟨name, _, kind, _⟩ := Field.bare_eq_iff.mp same
    have shape : field.kind.shape = offered.kind.shape :=
      (congrArg FieldKind.shape kind).trans (FieldKind.shape_setRelatedName _ _)
    have offeredMaterialized : offered.isMaterialized = true :=
      (FieldKind.isMaterialized_of_shape shape).symm.trans materialized
    rw [name, ← construction.settings_eq]
    exact added.short offeredMaterialized

/-- The build walks a content model at a place. -/
def Walks (construction : Construction index settings book state) (scope : Scope)
    (content : Schema.Particle) : Prop :=
  ∃ levels, Walked construction.context (onward construction.context levels)
    ⟨[], .start construction.resolver⟩ ⟨[], state⟩ scope content

/-- In the end the repeated elements of everything that has been walked are in place. -/
theorem holdsRepeated (construction : Construction index settings book state) {scope : Scope}
    {content : Schema.Particle} (walks : construction.Walks scope content) :
    state.HoldsRepeated construction.context scope content := by
  obtain ⟨levels, pending, before, after, toBefore, fits, ran, toEnd⟩ := walks
  have start := State.start_wellFormed (NameResolver.ofRules_known construction.read)
  obtain ⟨_, _, held⟩ := walkParticle_runs (onward_runs construction.context levels) fits content
    (toBefore.wellFormed start) _ _ ran
  exact toEnd.holdsRepeated held

end Construction

/-! ## Parents and dependencies -/

/-- What an entity leads to by itself: its dependencies are in order, and its parent is built. -/
structure State.Links (state : State) (entity : Entity) : Prop where
  sorted : entity.IsSorted
  parent : ∀ parent, entity.parent = some parent → ∃ path, state.NameAt path parent

theorem State.Links.steps {context : Context} {before after : Progress} {entity : Entity}
    (links : before.state.Links entity) (steps : Steps context before after) :
    after.state.Links entity := by
  refine ⟨links.sorted, fun parent has => ?_⟩
  obtain ⟨path, named⟩ := links.parent parent has
  exact ⟨path, steps.nameAt named⟩

theorem State.Links.of_same {state : State} {entity later : Entity} (links : state.Links entity)
    (dependencies : later.dependencies = entity.dependencies)
    (parent : later.parent = entity.parent) : state.Links later :=
  ⟨by rw [Entity.IsSorted, dependencies]; exact links.sorted, parent ▸ links.parent⟩

/-- All entities have their links. -/
def State.IsLinked (state : State) : Prop :=
  ∀ path entity, state.entities.get? path = some entity → state.Links entity

theorem Step.linked_kept {context : Context} {before after : Progress}
    (step : Step context before after) (linked : before.state.IsLinked) :
    after.state.IsLinked := by
  intro path entity found
  have one : Steps context before after := .single step
  have later {known : Entity} (links : before.state.Links known) : after.state.Links known :=
    links.steps one
  -- A step changes the entity at one path at most, and all others keep their links.
  cases step with
  | noticed | named | chosen | derived | bagged | unbagged | reopened =>
    exact later (linked path entity found)
  | opened =>
    rcases Table.cases_of_get?_set found with ⟨rfl, rfl⟩ | old
    · exact ⟨List.Pairwise.nil, nofun⟩
    · exact later (linked path entity old)
  | described _ foundOld _ =>
    rcases Table.cases_of_get?_set found with ⟨rfl, rfl⟩ | old
    · exact (later (linked _ _ foundOld)).of_same rfl rfl
    · exact later (linked path entity old)
  | @inherited _ _ _ parentPath _ _ _ foundOld built =>
    rcases Table.cases_of_get?_set found with ⟨rfl, rfl⟩ | old
    · refine ⟨(linked _ _ foundOld).sorted, fun parent has => ?_⟩
      obtain rfl := Option.some.inj has
      exact ⟨parentPath, one.nameAt built⟩
    · exact later (linked path entity old)
  | added _ foundOld _ _ _ inserted =>
    rcases Table.cases_of_get?_set found with ⟨rfl, rfl⟩ | old
    · have only := (insertField_insertion inserted).eq_with_fields
      exact (later (linked _ _ foundOld)).of_same (by rw [only]) (by rw [only])
    · exact later (linked path entity old)
  | completed foundOld _ _ | closed foundOld =>
    rcases Table.cases_of_get?_set found with ⟨rfl, rfl⟩ | old
    · obtain ⟨sorted, parent⟩ := later (linked _ _ foundOld)
      exact ⟨sorted_foldl_insertDistinct sorted _, parent⟩
    · exact later (linked path entity old)

/-! ## Targets -/

/-- The rules of a type path declare an extra field of the name with the target. -/
def ConfiguredTarget (book : RuleBook) (entity path name target : String) : Prop :=
  ∃ rules, book.forType entity path = .ok rules ∧
    ∃ extra ∈ rules.options.addFields, extra.name = name ∧ extra.target = some target

theorem target?_shape (kind : FieldKind) : kind.shape.target? = kind.target? := by
  cases kind <;> rfl

theorem Draft.target {context : Context} {state : State} {scope : Scope} {draft : Field}
    (drafted : Draft context state scope draft) {target : String}
    (leads : draft.kind.target? = some target) : ∃ path, state.NameAt path target := by
  cases drafted with
  | @value site kind most value consistent =>
    unfold State.IsValue at value
    split at value
    · cases leads
    · cases leads
    · cases leads
      exact value.1
    · exact value.elim
  | reverseOneToMany back | reverseOneToOne back =>
    cases leads
    obtain ⟨entity, found, named, _⟩ := back
    exact ⟨_, entity, found, named⟩
  | manyToMany built =>
    cases leads
    exact ⟨_, built⟩

theorem Origin.target {context : Context} {state : State} {scope : Scope} {field : Field}
    (origin : Origin context state scope field)
    (rules : context.book.forType scope.entity scope.typePath = .ok scope.rules) {target : String}
    (leads : field.kind.target? = some target) :
    (∃ path, state.NameAt path target) ∨
      ConfiguredTarget context.book scope.entity scope.typePath field.name target := by
  cases origin with
  | dropped | parentAlias | content | bag => cases leads
  | finished drafted finished =>
    obtain ⟨_, kind, _⟩ := finishField_form finished
    rcases kind with same | ⟨_, _, _, scalar⟩
    · rw [← target?_shape, same, target?_shape] at leads
      exact .inl (drafted.target leads)
    · rw [← target?_shape, scalar] at leads
      cases leads
  | back built =>
    cases leads
    exact .inl ⟨_, built⟩
  | @extra extra kind configured asked =>
    cases asked with
    | scalar => cases leads
    | toOne given _ known | manyToMany given _ known =>
      cases leads
      rcases known with rfl | built
      · exact .inr ⟨scope.rules, rules, extra, configured, rfl, given⟩
      · exact .inl built

/-! ## Notices -/

/-- No notice is about a missing dependency. -/
def State.IsUnnoticed (state : State) : Prop :=
  ∀ notice ∈ state.notices, notice.code ≠ .unresolvedDependency

theorem State.IsUnnoticed.add {state : State} (unnoticed : state.IsUnnoticed)
    {notices : Diagnostics} (codes : ∀ notice ∈ notices, notice.code ≠ .unresolvedDependency) :
    (state.addNotices notices).IsUnnoticed := by
  intro notice member
  rcases List.mem_append.mp member with old | new
  · exact unnoticed notice old
  · exact codes notice new

theorem NameResolver.resolve_codes (resolver : NameResolver) (path : String) :
    ∀ notice ∈ (resolver.resolve path).2.1, notice.code ≠ .unresolvedDependency := by
  intro notice member
  simp only [NameResolver.resolve] at member
  split at member
  · cases member
  · simp only [NameResolver.notices] at member
    split at member
    · obtain rfl := List.mem_singleton.mp member
      exact fun same => by cases same
    · cases member

theorem Step.unnoticed_kept {context : Context} {before after : Progress}
    (step : Step context before after) (unnoticed : before.state.IsUnnoticed) :
    after.state.IsUnnoticed := by
  cases step with
  | noticed code => exact unnoticed.add (by simpa using code)
  | named path => exact unnoticed.add (NameResolver.resolve_codes _ path)
  | derived continues =>
    intro notice member
    rcases continues notice member with old | builtin
    · exact unnoticed notice old
    · rw [builtin]
      nofun
  | _ => exact unnoticed

/-! ## Links at the end of a build -/

namespace Construction

variable {index : Schema.Index} {settings : Settings} {book : RuleBook} {state : State}

theorem isLinked (construction : Construction index settings book state) : state.IsLinked :=
  construction.holds (fun progress => progress.state.IsLinked) (fun _ _ _ found => by cases found)
    fun _ _ step => step.linked_kept

theorem isUnnoticed (construction : Construction index settings book state) :
    state.IsUnnoticed :=
  construction.holds (fun progress => progress.state.IsUnnoticed)
    (fun _ _ member => by cases member) fun _ _ step => step.unnoticed_kept

/-- In the end the target of every relation has been built, or is that of an extra field. -/
theorem target (construction : Construction index settings book state) {path : String}
    {entity : Entity} (found : state.entities.get? path = some entity) {field : Field}
    (member : field ∈ entity.fields) {target : String}
    (leads : field.kind.target? = some target) :
    (∃ place, state.NameAt place target) ∨
      ConfiguredTarget book entity.name path field.name target := by
  rw [← construction.book_eq]
  cases construction.traced path entity found field member with
  | mark kind =>
    rw [kind] at leads
    cases leads
  | @added earlier scope offered relatedName steps added same =>
    obtain ⟨name, _, kind, _⟩ := Field.bare_eq_iff.mp same
    rw [← target?_shape, kind, withRelatedName, FieldKind.shape_setRelatedName, target?_shape]
      at leads
    rcases added.origin.target added.fits.rules leads with ⟨place, named⟩ | configured
    · exact .inl ⟨place, steps.nameAt named⟩
    · rw [added.entity_name steps found, ← added.path_eq, name]
      exact .inr configured

end Construction

end EntityGraph.Compile
