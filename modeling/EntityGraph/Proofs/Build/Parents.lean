import EntityGraph.Proofs.Build.Step
import EntityGraph.Proofs.Entity

/-!
# Parents and dependencies under construction

An entity takes up its dependencies from its fields and its parent whenever it is closed, and never
drops one. As fields stay where they are, a dependency keeps its reason unless the entity gets
another parent. Therefore walks are watched for what they do to parents: all of them leave the
parents of the entities that are there alone, but for the one walk that connects an entity with its
parent. In the same way no walk takes anything out of the bag of an entity that is there, but for
the one that makes the bag of a new entity a field.
-/
namespace EntityGraph

namespace Entity

/-- Every dependency comes from a field or from the parent. -/
def IsFounded (entity : Entity) : Prop := ∀ name ∈ entity.dependencies, name ∈ entity.referredNames

variable {entity later : Entity}

theorem isFounded_close (founded : entity.IsFounded) : entity.close.IsFounded := by
  intro name dependency
  rcases (mem_foldl_insertDistinct _ _ _).mp dependency with referred | old
  · exact referred
  · exact founded name old

/-- More fields and a first parent take no dependency its reason. -/
theorem IsFounded.mono (founded : entity.IsFounded)
    (dependencies : later.dependencies = entity.dependencies)
    (fields : ∀ field ∈ entity.fields, ∃ kept ∈ later.fields, kept.bare = field.bare)
    (parent : entity.parent = none ∨ later.parent = entity.parent) : later.IsFounded := by
  intro name dependency
  rw [dependencies] at dependency
  rw [mem_referredNames]
  rcases (mem_referredNames entity name).mp (founded name dependency) with
    ⟨field, member, target⟩ | own
  · obtain ⟨kept, keptMember, same⟩ := fields field member
    have kind : kept.kind = field.kind := (Field.bare_eq_iff.mp same).2.2.1
    exact .inl ⟨kept, keptMember, kind ▸ target⟩
  · rcases parent with orphan | same
    · rw [orphan] at own
      cases own
    · exact .inr (same.trans own)

end Entity

namespace Compile

/-! ## Founded states -/

/-- The dependencies of all entities are founded. -/
def State.IsFounded (state : State) : Prop :=
  ∀ path entity, state.entities.get? path = some entity → entity.IsFounded

theorem State.IsFounded.set {state : State} (founded : state.IsFounded) {entity : Entity}
    (entityFounded : entity.IsFounded) (path : String) :
    State.IsFounded { state with entities := state.entities.set path entity } := by
  intro other found get
  rcases Table.cases_of_get?_set get with ⟨_, rfl⟩ | old
  · exact entityFounded
  · exact founded other found old

/-! ## Parents -/

/-- All entities but those of the free paths keep their parents. -/
def KeepsParents (free : List String) (before after : State) : Prop :=
  ∀ path ∉ free, ∀ entity, before.entities.get? path = some entity →
    ∃ later, after.entities.get? path = some later ∧ later.parent = entity.parent

namespace KeepsParents

variable {free : List String} {before middle after : State}

theorem of_same (same : after.entities = before.entities) : KeepsParents free before after := by
  intro path _ entity found
  exact ⟨entity, same ▸ found, rfl⟩

theorem trans (first : KeepsParents free before middle) (second : KeepsParents free middle after) :
    KeepsParents free before after := by
  intro path notFree entity found
  obtain ⟨known, foundKnown, same⟩ := first path notFree entity found
  obtain ⟨later, foundLater, sameLater⟩ := second path notFree known foundKnown
  exact ⟨later, foundLater, sameLater.trans same⟩

/-- Changing the entity of a path, whose parent stays unless the path is free. -/
theorem set {path : String} {entity : Entity}
    (parent : path ∉ free → ∀ old, before.entities.get? path = some old →
      entity.parent = old.parent) :
    KeepsParents free before { before with entities := before.entities.set path entity } := by
  intro other notFree old found
  by_cases same : other = path
  · subst same
    exact ⟨entity, Table.get?_set_self .., parent notFree old found⟩
  · exact ⟨old, (Table.get?_set_of_ne _ _ same).trans found, rfl⟩

theorem set_fresh {path : String} (fresh : before.isBuilt path = false) (entity : Entity) :
    KeepsParents free before { before with entities := before.entities.set path entity } := by
  refine .set fun _ old found => ?_
  have built : before.isBuilt path = true :=
    (Table.has_iff_mem_names _ _).mpr (Table.mem_names_of_get? found)
  simp [fresh] at built

end KeepsParents

/-! ## Fields -/

/-- The fields of the entity of a type path, none if there is no entity. -/
def State.fieldsAt (state : State) (path : String) : List Field :=
  ((state.entities.get? path).map (·.fields)).getD []

theorem State.fieldsAt_of_get? {state : State} {path : String} {entity : Entity}
    (found : state.entities.get? path = some entity) : state.fieldsAt path = entity.fields := by
  rw [State.fieldsAt, found]
  rfl

theorem State.fieldsAt_set (state : State) (path other : String) (entity : Entity) :
    State.fieldsAt { state with entities := state.entities.set path entity } other =
      if other = path then entity.fields else state.fieldsAt other := by
  simp only [State.fieldsAt, Table.get?_set]
  split <;> rfl

theorem State.fieldsAt_of_same {state later : State} (same : later.entities = state.entities)
    (path : String) : later.fieldsAt path = state.fieldsAt path := by
  rw [State.fieldsAt, same, State.fieldsAt]

/-! ## Bags -/

/-- The keys of the bag of a type path. -/
def State.bagKeys (state : State) (path : String) : List String :=
  ((state.bags.get? path).getD []).names

/-- The bags of all entities that are there, but those of the free paths, keep their keys. -/
def KeepsBags (free : List String) (before after : State) : Prop :=
  ∀ path ∉ free, before.isBuilt path = true →
    (before.bagKeys path).Sublist (after.bagKeys path)

/-- A bag that is laid over another one keeps the keys of both. -/
theorem mem_names_override {entries other : Bag} {key : String} :
    key ∈ (entries.override other).names ↔ key ∈ entries.names ∨ key ∈ other.names := by
  induction other generalizing entries with
  | nil => simp [Bag.override, Table.names]
  | cons entry rest ih =>
    change key ∈ (Bag.override (entries.set entry.1 entry.2) rest).names ↔ _
    rw [ih, Table.mem_names_set]
    simp only [Table.names, List.map_cons, List.mem_cons]
    tauto

theorem names_sublist_override (entries other : Bag) :
    entries.names.Sublist (entries.override other).names := by
  induction other generalizing entries with
  | nil => exact .refl _
  | cons entry rest ih => exact (Table.names_sublist_set entries _ _).trans (ih _)

namespace KeepsBags

variable {free : List String} {before after : State}

theorem of_same (same : after.bags = before.bags) : KeepsBags free before after := by
  intro path _ _
  rw [State.bagKeys, State.bagKeys, same]

theorem erase (path : String) :
    KeepsBags [path] before { before with bags := before.bags.erase path } := by
  intro other notFree _
  rw [List.mem_singleton] at notFree
  rw [State.bagKeys, State.bagKeys, before.bags.get?_erase_of_ne notFree]

/-- Entries only add to a bag. -/
theorem override (path : String) (entries : Bag) :
    KeepsBags free before { before with
      bags := before.bags.set path (((before.bags.get? path).getD []).override entries) } := by
  intro other _ _
  by_cases same : other = path
  · subst same
    rw [State.bagKeys, State.bagKeys, Table.get?_set_self]
    exact names_sublist_override _ _
  · rw [State.bagKeys, State.bagKeys, Table.get?_set_of_ne _ _ same]

end KeepsBags

/-! ## Steps -/

/-- A step that leaves all parents alone keeps the state founded. -/
theorem Step.founded_kept {context : Context} {before after : Progress}
    (step : Step context before after) (keeps : KeepsParents [] before.state after.state)
    (founded : before.state.IsFounded) : after.state.IsFounded := by
  cases step with
  | noticed | named | chosen | derived | bagged | unbagged | reopened => exact founded
  | opened _ _ =>
    refine founded.set ?_ _
    intro name dependency
    cases dependency
  | described _ found _ =>
    have old := founded _ _ found
    refine founded.set ?_ _
    exact old
  | @inherited _ _ path _ parent entity _ found _ =>
    -- The parent that is set is the one that the entity has had.
    refine founded.set ?_ _
    obtain ⟨later, foundLater, same⟩ := keeps path List.not_mem_nil entity found
    rw [Table.get?_set_self] at foundLater
    cases foundLater
    exact (founded _ _ found).mono rfl (fun field member => ⟨field, member, rfl⟩) (.inr same)
  | @added _ _ _ entity after _ _ found _ _ _ inserted =>
    have insertion := insertField_insertion inserted
    have dependencies : after.dependencies = entity.dependencies := by
      rw [insertion.eq_with_fields]
    have parent : after.parent = entity.parent := by rw [insertion.eq_with_fields]
    exact founded.set
      ((founded _ _ found).mono dependencies (fun _ => insertion.placed.keeps) (.inr parent)) _
  | completed found _ _ =>
    -- The properties that are set on completion are none of those that count here.
    have old := founded _ _ found
    refine founded.set ?_ _
    apply Entity.isFounded_close
    exact old
  | closed found => exact founded.set (Entity.isFounded_close (founded _ _ found)) _

/-- What a walk leaves alone: the parents and the bags of all entities but those of the free paths,
and the reasons of all dependencies. -/
structure Undisturbed (free : List String) (before after : State) : Prop where
  parents : KeepsParents free before after
  bags : KeepsBags free before after
  founded : before.IsFounded → after.IsFounded

namespace Undisturbed

variable {free : List String} {before middle after : State}

theorem refl (free : List String) (state : State) : Undisturbed free state state :=
  ⟨.of_same rfl, .of_same rfl, id⟩

theorem trans (first : Undisturbed free before middle) (second : Undisturbed free middle after) :
    Undisturbed free before after := by
  refine ⟨first.parents.trans second.parents, ?_,
    fun founded => second.founded (first.founded founded)⟩
  intro path notFree built
  obtain ⟨entity, found⟩ := Table.exists_get?_of_mem_names ((Table.has_iff_mem_names _ _).mp built)
  obtain ⟨known, foundKnown, _⟩ := first.parents path notFree entity found
  have stillBuilt : middle.isBuilt path = true :=
    (Table.has_iff_mem_names _ _).mpr (Table.mem_names_of_get? foundKnown)
  exact (first.bags path notFree built).trans (second.bags path notFree stillBuilt)

/-- The parents and bags of fresh paths do not count. -/
theorem of_fresh {path : String} (fresh : before.isBuilt path = false)
    (undisturbed : Undisturbed [path] before after) : Undisturbed free before after := by
  have other {known : String} (built : before.isBuilt known = true) : known ∉ [path] := by
    rw [List.mem_singleton]
    rintro rfl
    simp [fresh] at built
  refine ⟨fun known _ entity found => ?_, fun known _ built => ?_, undisturbed.founded⟩
  · have built : before.isBuilt known = true :=
      (Table.has_iff_mem_names _ _).mpr (Table.mem_names_of_get? found)
    exact undisturbed.parents known (other built) entity found
  · exact undisturbed.bags known (other built) built

theorem but (path : String) (undisturbed : Undisturbed [] before after) :
    Undisturbed [path] before after :=
  ⟨fun other _ => undisturbed.parents other List.not_mem_nil,
    fun other _ => undisturbed.bags other List.not_mem_nil, undisturbed.founded⟩

end Undisturbed

theorem Step.undisturbed {context : Context} {before after : Progress}
    (step : Step context before after) (keeps : KeepsParents [] before.state after.state)
    (bags : KeepsBags [] before.state after.state) :
    Undisturbed [] before.state after.state := ⟨keeps, bags, step.founded_kept keeps⟩

end Compile

end EntityGraph
