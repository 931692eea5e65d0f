import EntityGraph.Proofs.Entity
import EntityGraph.Proofs.Order.Requirements

/-!
# The order of emission

The walk keeps a stack of waiting entities, each of which depends on the one above it. Nothing that
the topmost entity requires is on the stack: a required edge is followed only from an entity for
which this holds, and any other edge only after asking. So a required dependency can be emitted
before its dependent. An edge that has to be given up leads to something that comes back to the
stack, and from there to the dependent, which closes a cycle.
-/
namespace EntityGraph.Compile

open Relation (ReflTransGen TransGen)

/-- One name stands somewhere before another. -/
def Precedes (names : List String) (first second : String) : Prop :=
  [first, second].Sublist names

theorem Precedes.of_start {names more : List String} {first second : String}
    (precedes : Precedes names first second) (extended : names <+: more) :
    Precedes more first second :=
  List.Sublist.trans precedes extended.sublist

theorem precedes_append {names : List String} {first : String} (member : first ∈ names)
    (second : String) : Precedes (names ++ [second]) first second :=
  List.Sublist.append (List.singleton_sublist.mpr member) (List.Sublist.refl [second])

theorem Precedes.asymm {names : List String} (nodup : names.Nodup) {first second : String}
    (precedes : Precedes names first second) : ¬Precedes names second first := by
  induction names with
  | nil => cases precedes
  | cons name rest ih =>
    intro reverse
    obtain ⟨fresh, nodupRest⟩ := List.nodup_cons.mp nodup
    -- A pair that begins with the first name is the only one that is not in the rest.
    have inRest {a b : String} (sub : [a, b].Sublist (name :: rest)) :
        [a, b].Sublist rest ∨ a = name ∧ b ∈ rest := by
      cases sub with
      | cons _ sub => exact Or.inl sub
      | cons_cons _ sub => exact Or.inr ⟨rfl, List.singleton_sublist.mp sub⟩
    rcases inRest precedes with forth | ⟨rfl, second⟩
    · rcases inRest reverse with back | ⟨rfl, _⟩
      · exact ih nodupRest forth back
      · exact fresh (forth.subset (by simp))
    · rcases inRest reverse with back | ⟨rfl, _⟩
      · exact fresh (back.subset (by simp))
      · exact fresh second

/-! ## Dependencies -/

def dependenciesOf (entities : Table Entity) (name : String) : List String :=
  ((entities.get? name).map (·.dependencies)).getD []

/-- One entity lists another among its dependencies. -/
def DependsOn (entities : Table Entity) (name target : String) : Prop :=
  target ∈ dependenciesOf entities name

theorem Requires.ne {entities : Table Entity}
    (named : ∀ name entity, entities.get? name = some entity → entity.name = name)
    {name target : String} (required : Requires entities name target) : target ≠ name := by
  cases found : entities.get? name with
  | none => simp [Requires, requiredOf, found] at required
  | some entity =>
    have member : target ∈ entity.requiredDependencies := by
      simpa [Requires, requiredOf, found] using required
    exact named name entity found ▸ ((Entity.mem_requiredDependencies entity target).mp member).1

theorem Requires.dependsOn {entities : Table Entity}
    (closed : ∀ name entity, entities.get? name = some entity → entity.IsClosed)
    {name target : String} (required : Requires entities name target) :
    DependsOn entities name target := by
  cases found : entities.get? name with
  | none => simp [Requires, requiredOf, found] at required
  | some entity =>
    have member : target ∈ entity.requiredDependencies := by
      simpa [Requires, requiredOf, found] using required
    simpa [DependsOn, dependenciesOf, found] using (closed name entity found).required_mem member

/-! ## What has been emitted -/

/-- Every entity stands behind what it requires, and behind any other dependency that does not
depend on it in turn. -/
structure Emission.Sound (entities : Table Entity) (emission : Emission) : Prop where
  nodup : emission.names.Nodup
  known : ∀ name ∈ emission.names, name ∈ entities.names
  required : ∀ name ∈ emission.names, ∀ target, Requires entities name target →
    target ∈ entities.names → Precedes emission.names target name
  dependent : ∀ name ∈ emission.names, ∀ target, DependsOn entities name target →
    target ≠ name → target ∈ entities.names →
    Precedes emission.names target name ∨ ReflTransGen (DependsOn entities) target name

theorem Emission.sound_nil (entities : Table Entity) : Emission.Sound entities ⟨[], []⟩ :=
  ⟨List.nodup_nil, by simp, by simp, by simp⟩

/-- A dependency that has been dealt with: it has been emitted, or it leads back. -/
structure Settled (entities : Table Entity) (name : String) (emission : Emission)
    (target : String) : Prop where
  required : Requires entities name target → target ∈ emission.names
  dependent : target ∈ emission.names ∨ ReflTransGen (DependsOn entities) target name

theorem Settled.mono {entities : Table Entity} {name target : String} {before after : Emission}
    (settled : Settled entities name before target) (extended : before.names <+: after.names) :
    Settled entities name after target :=
  ⟨fun required => extended.subset (settled.required required),
    settled.dependent.imp_left fun member => extended.subset member⟩

/-- An entity may be emitted once its dependencies have been dealt with. -/
theorem Emission.Sound.emit {entities : Table Entity} {emission : Emission}
    (sound : emission.Sound entities) {name : String} (known : name ∈ entities.names)
    (fresh : name ∉ emission.names)
    (dependsOn : ∀ target, Requires entities name target → DependsOn entities name target)
    (irreflexive : ∀ target, Requires entities name target → target ≠ name)
    (settled : ∀ target, DependsOn entities name target → target ≠ name →
      target ∈ entities.names → Settled entities name emission target) :
    (emission.emit name).Sound entities where
  nodup := List.nodup_append.mpr
    ⟨sound.nodup, List.nodup_singleton name, by
      rintro other member _ last rfl
      exact fresh (List.mem_singleton.mp last ▸ member)⟩
  known := by
    intro other member
    rcases List.mem_append.mp member with old | last
    · exact sound.known other old
    · exact List.mem_singleton.mp last ▸ known
  required := by
    intro other member target required present
    rcases List.mem_append.mp member with old | last
    · exact (sound.required other old target required present).of_start (List.prefix_append _ _)
    · obtain rfl := List.mem_singleton.mp last
      have done := settled target (dependsOn target required) (irreflexive target required) present
      exact precedes_append (done.required required) other
  dependent := by
    intro other member target depends different present
    rcases List.mem_append.mp member with old | last
    · exact (sound.dependent other old target depends different present).imp_left
        fun precedes => precedes.of_start (List.prefix_append _ _)
    · obtain rfl := List.mem_singleton.mp last
      exact (settled target depends different present).dependent.imp_left
        fun emitted => precedes_append emitted other

/-! ## The walk -/

/-- The stack while an entity is visited: every waiting entity leads to it, and it requires none of
them. -/
structure Stack (entities : Table Entity) (waiting : List String) (name : String) : Prop where
  nodup : waiting.Nodup
  known : ∀ other ∈ waiting, other ∈ entities.names
  reaches : ∀ other ∈ waiting, ReflTransGen (DependsOn entities) other name
  free : ∀ target, TransGen (Requires entities) name target → target ∉ waiting

/-- What a visit does to the emission: it adds to it, and emits no waiting entity. -/
structure Advances (entities : Table Entity) (waiting : List String) (before after : Emission) :
    Prop where
  sound : after.Sound entities
  extended : before.names <+: after.names
  apart : ∀ other ∈ waiting, other ∉ after.names

theorem Advances.trans {entities : Table Entity} {waiting : List String}
    {first second third : Emission} (left : Advances entities waiting first second)
    (right : Advances entities waiting second third) : Advances entities waiting first third :=
  ⟨right.sound, left.extended.trans right.extended, right.apart⟩

/-- Deals with one dependency of an entity. -/
def visitDependency (entities : Table Entity) (depth : Nat) (waiting : List String) (name : String)
    (emission : Emission) (target : String) : Emission :=
  if target = name then emission
  else if !entities.has target then emission.notice (neverBuilt name target)
  else if (requiredOf entities name).contains target
      || !requiresAny entities (name :: waiting) target then
    visit entities depth (name :: waiting) target emission
  else emission

theorem visit_succ (entities : Table Entity) (depth : Nat) (waiting : List String) (name : String)
    (emission : Emission) :
    visit entities (depth + 1) waiting name emission =
      if emission.names.contains name || waiting.contains name then emission
      else ((dependenciesOf entities name).foldl (visitDependency entities depth waiting name)
        emission).emit name := rfl

/-- What a visit of a given depth is for. The depth suffices if the stack leaves less room. -/
def VisitsAt (entities : Table Entity) (depth : Nat) : Prop :=
  ∀ waiting name emission, name ∈ entities.names → Stack entities waiting name →
    entities.length < depth + waiting.length → emission.Sound entities →
    (∀ other ∈ waiting, other ∉ emission.names) →
    Advances entities waiting emission (visit entities depth waiting name emission) ∧
      (name ∈ (visit entities depth waiting name emission).names ∨ name ∈ waiting)

section Walk

variable {entities : Table Entity}
  (dependsOn : ∀ name target, Requires entities name target → DependsOn entities name target)
  (acyclic : ∀ name, ¬TransGen (Requires entities) name name)

include dependsOn in
theorem requires_path_dependsOn {name target : String}
    (path : TransGen (Requires entities) name target) :
    ReflTransGen (DependsOn entities) name target :=
  (Relation.TransGen.mono dependsOn _ _ path).to_reflTransGen

/-- The stack for a required dependency of the entity on top. -/
theorem Stack.push_required {waiting : List String} {name target : String}
    (stack : Stack entities waiting name) (known : name ∈ entities.names)
    (fresh : name ∉ waiting) (depends : DependsOn entities name target)
    (free : ∀ other, TransGen (Requires entities) target other → other ∉ name :: waiting) :
    Stack entities (name :: waiting) target where
  nodup := List.nodup_cons.mpr ⟨fresh, stack.nodup⟩
  known := by
    intro other member
    rcases List.mem_cons.mp member with rfl | member
    · exact known
    · exact stack.known other member
  reaches := by
    intro other member
    rcases List.mem_cons.mp member with rfl | member
    · exact .single depends
    · exact (stack.reaches other member).tail depends
  free := free

include acyclic in
theorem Stack.free_of_required {waiting : List String} {name target : String}
    (stack : Stack entities waiting name) (path : TransGen (Requires entities) name target) :
    target ∉ name :: waiting := by
  intro member
  rcases List.mem_cons.mp member with rfl | member
  · exact acyclic target path
  · exact stack.free target path member

include dependsOn acyclic in
/-- One dependency: it is emitted, or waits, or needs something that waits. -/
theorem visitDependency_settles {depth : Nat} (visits : VisitsAt entities depth)
    {waiting : List String} {name target : String} {emission : Emission}
    (stack : Stack entities waiting name) (known : name ∈ entities.names) (fresh : name ∉ waiting)
    (room : entities.length < depth + (waiting.length + 1)) (sound : emission.Sound entities)
    (apart : ∀ other ∈ name :: waiting, other ∉ emission.names)
    (depends : DependsOn entities name target) :
    Advances entities (name :: waiting) emission
        (visitDependency entities depth waiting name emission target) ∧
      (target ≠ name → target ∈ entities.names →
        Settled entities name (visitDependency entities depth waiting name emission target)
          target) := by
  have idle : Advances entities (name :: waiting) emission emission :=
    ⟨sound, List.prefix_rfl, apart⟩
  -- Whatever leads to the stack leads back to the entity on top of it.
  have comesBack : ∀ other ∈ name :: waiting, ReflTransGen (DependsOn entities) other name := by
    intro other member
    rcases List.mem_cons.mp member with rfl | member
    · exact .refl
    · exact stack.reaches other member
  unfold visitDependency
  split
  next same => exact ⟨idle, fun different => absurd same different⟩
  · split
    next absent =>
      -- Only a notice is added, which soundness does not look at.
      refine ⟨⟨⟨sound.nodup, sound.known, sound.required, sound.dependent⟩, List.prefix_rfl,
        apart⟩, fun _ present => ?_⟩
      have has := (Table.has_iff_mem_names entities target).mpr present
      simp [has] at absent
    next present =>
      have targetKnown : target ∈ entities.names :=
        (Table.has_iff_mem_names entities target).mp (by simpa using present)
      split
      next followed =>
        -- Both kinds of edges lead to an entity that requires nothing on the stack.
        have free : ∀ other, TransGen (Requires entities) target other →
            other ∉ name :: waiting := by
          intro other path
          simp only [Bool.or_eq_true, List.contains_iff_mem, Bool.not_eq_true',
            Bool.eq_false_iff, ne_eq, requiresAny_iff, not_exists, not_and] at followed
          rcases followed with required | harmless
          · exact stack.free_of_required acyclic (.head required path)
          · exact fun member => harmless other member path
        obtain ⟨advances, emitted⟩ := visits (name :: waiting) target emission targetKnown
          (stack.push_required known fresh depends free) room sound apart
        refine ⟨advances, fun _ _ => ⟨fun required => ?_, ?_⟩⟩
        · exact emitted.resolve_right
            (stack.free_of_required acyclic (Relation.TransGen.single required))
        · exact emitted.imp_right (comesBack target)
      next skipped =>
        simp only [Bool.or_eq_true, List.contains_iff_mem, Bool.not_eq_true', not_or,
          Bool.not_eq_false, requiresAny_iff] at skipped
        -- The skipped edge leads to something on the stack, which closes a cycle.
        obtain ⟨notRequired, other, member, path⟩ := skipped
        refine ⟨idle, fun _ _ => ⟨fun required => absurd required notRequired, Or.inr ?_⟩⟩
        exact (requires_path_dependsOn dependsOn path).trans (comesBack other member)

include dependsOn acyclic in
/-- All dependencies, one after the other. -/
theorem foldl_visitDependency_settles {depth : Nat} (visits : VisitsAt entities depth)
    {waiting : List String} {name : String} (stack : Stack entities waiting name)
    (known : name ∈ entities.names) (fresh : name ∉ waiting)
    (room : entities.length < depth + (waiting.length + 1)) (targets : List String)
    (emission : Emission) (sound : emission.Sound entities)
    (apart : ∀ other ∈ name :: waiting, other ∉ emission.names)
    (depends : ∀ target ∈ targets, DependsOn entities name target) :
    let after := targets.foldl (visitDependency entities depth waiting name) emission
    Advances entities (name :: waiting) emission after ∧
      ∀ target ∈ targets, target ≠ name → target ∈ entities.names →
        Settled entities name after target := by
  induction targets generalizing emission with
  | nil => exact ⟨⟨sound, List.prefix_rfl, apart⟩, by simp⟩
  | cons target rest ih =>
    obtain ⟨first, settled⟩ := visitDependency_settles dependsOn acyclic visits stack known fresh
      room sound apart (depends target List.mem_cons_self)
    obtain ⟨others, settledRest⟩ := ih _ first.sound first.apart
      fun other member => depends other (List.mem_cons_of_mem _ member)
    refine ⟨first.trans others, fun other member different present => ?_⟩
    rcases List.mem_cons.mp member with rfl | member
    · exact (settled different present).mono others.extended
    · exact settledRest other member different present

include dependsOn acyclic in
theorem visit_spec (irreflexive : ∀ name target, Requires entities name target → target ≠ name)
    (depth : Nat) : VisitsAt entities depth := by
  induction depth with
  | zero =>
    -- A stack without repetitions cannot be longer than the table.
    intro waiting name emission _ stack room
    have bound := (List.subperm_of_subset stack.nodup stack.known).length_le
    simp only [Table.names, List.length_map] at bound
    omega
  | succ depth ih =>
    intro waiting name emission known stack room sound apart
    rw [visit_succ]
    split
    next seen =>
      simp only [Bool.or_eq_true, List.contains_iff_mem] at seen
      exact ⟨⟨sound, List.prefix_rfl, apart⟩, seen⟩
    next unseen =>
      simp only [Bool.or_eq_true, List.contains_iff_mem, not_or] at unseen
      obtain ⟨notEmitted, fresh⟩ := unseen
      -- While its dependencies are visited, the entity itself waits on the stack.
      have apartHere : ∀ other ∈ name :: waiting, other ∉ emission.names := by
        intro other member
        rcases List.mem_cons.mp member with rfl | member
        · exact notEmitted
        · exact apart other member
      obtain ⟨advances, settled⟩ := foldl_visitDependency_settles dependsOn acyclic ih stack known
        fresh (by omega) (dependenciesOf entities name) emission sound apartHere
        fun _ member => member
      have emitted := advances.sound.emit known (advances.apart name List.mem_cons_self)
        (dependsOn name) (irreflexive name) settled
      refine ⟨⟨emitted, advances.extended.trans (List.prefix_append _ _), ?_⟩, ?_⟩
      · intro other member
        rw [Emission.emit, List.mem_append, List.mem_singleton]
        rintro (old | rfl)
        · exact advances.apart other (List.mem_cons_of_mem _ member) old
        · exact fresh member
      · exact Or.inl (List.mem_append_right _ List.mem_cons_self)

include dependsOn acyclic in
/-- Every entity is emitted, and the emission is sound. -/
theorem emission_sound
    (irreflexive : ∀ name target, Requires entities name target → target ≠ name) :
    (emission entities).Sound entities ∧
      ∀ name ∈ entities.names, name ∈ (emission entities).names := by
  have bottom (name : String) : Stack entities [] name :=
    ⟨List.nodup_nil, by simp, by simp, by simp⟩
  -- The walk starts anew, with an empty stack, at every entity of the table.
  have walk : ∀ (names : List String) (start : Emission),
      (∀ name ∈ names, name ∈ entities.names) → start.Sound entities →
      let after := names.foldl
        (fun emission name => visit entities (entities.length + 1) [] name emission) start
      after.Sound entities ∧ start.names <+: after.names ∧ ∀ name ∈ names, name ∈ after.names := by
    intro names
    induction names with
    | nil => exact fun start _ sound => ⟨sound, List.prefix_rfl, by simp⟩
    | cons name rest ih =>
      intro start known sound
      obtain ⟨advances, emitted⟩ := visit_spec dependsOn acyclic irreflexive (entities.length + 1)
        [] name start (known name List.mem_cons_self) (bottom name) (by simp) sound (by simp)
      obtain ⟨soundAfter, extended, members⟩ := ih _
        (fun other member => known other (List.mem_cons_of_mem _ member)) advances.sound
      refine ⟨soundAfter, advances.extended.trans extended, fun other member => ?_⟩
      rcases List.mem_cons.mp member with rfl | member
      · exact extended.subset (emitted.resolve_right List.not_mem_nil)
      · exact members other member
  obtain ⟨sound, _, all⟩ := walk entities.names ⟨[], []⟩ (fun _ member => member)
    (Emission.sound_nil entities)
  exact ⟨sound, all⟩

end Walk

/-! ## The result -/

/-- One entity of a list has a name among its dependencies. -/
def Depends (entities : List Entity) (name target : String) : Prop :=
  ∃ entity ∈ entities, entity.name = name ∧ target ∈ entity.dependencies

/-- Two names depend on each other, directly or through other entities. -/
def OnCommonCycle (entities : List Entity) (first second : String) : Prop :=
  TransGen (Depends entities) first second ∧ TransGen (Depends entities) second first

/-- An order in which entities may be emitted. -/
structure IsEmissionOrder (entities emitted : List Entity) : Prop where
  perm : emitted.Perm entities
  /-- What an entity requires comes before it. -/
  required_first : ∀ entity ∈ entities, ∀ target ∈ entity.requiredDependencies,
    target ∈ entities.map (·.name) → Precedes (emitted.map (·.name)) target entity.name
  /-- Any other dependency comes after it only if a cycle leads through both. -/
  late_on_cycle : ∀ entity ∈ entities, ∀ target ∈ entity.dependencies, target ≠ entity.name →
    target ∈ entities.map (·.name) → Precedes (emitted.map (·.name)) entity.name target →
    OnCommonCycle entities entity.name target

/-- The entities by name. -/
def byName (entities : List Entity) : Table Entity :=
  .ofList (entities.map fun entity => (entity.name, entity))

theorem emissionOrder_eq (entities : List Entity) :
    emissionOrder entities =
      match requiredCycle? (byName entities) with
      | some names => .error (.dependencyCycle names)
      | none =>
        .ok ((emission (byName entities)).names.filterMap (byName entities).get?,
          (emission (byName entities)).notices) := rfl

section ByName

variable {entities : List Entity} (distinct : (entities.map (·.name)).Nodup)

include distinct

theorem byName_perm :
    (byName entities).Perm (entities.map fun entity => (entity.name, entity)) := by
  apply Table.ofList_perm
  simpa [Function.comp_def] using distinct

theorem byName_names_perm : (byName entities).names.Perm (entities.map (·.name)) := by
  simpa [Table.names, Function.comp_def] using (byName_perm distinct).map (·.1)

theorem get?_byName_iff (name : String) (entity : Entity) :
    (byName entities).get? name = some entity ↔ entity ∈ entities ∧ entity.name = name := by
  have entry : (name, entity) ∈ byName entities ↔ entity ∈ entities ∧ entity.name = name := by
    rw [(byName_perm distinct).mem_iff, List.mem_map]
    constructor
    · rintro ⟨other, member, eq⟩
      cases eq
      exact ⟨member, rfl⟩
    · rintro ⟨member, rfl⟩
      exact ⟨entity, member, rfl⟩
  rw [← entry]
  exact ⟨Table.mem_of_get?, Table.get?_of_mem (Table.sorted_ofList _).nodup⟩

theorem dependsOn_byName_iff (name target : String) :
    DependsOn (byName entities) name target ↔ Depends entities name target := by
  constructor
  · intro depends
    cases found : (byName entities).get? name with
    | none => simp [DependsOn, dependenciesOf, found] at depends
    | some entity =>
      obtain ⟨member, named⟩ := (get?_byName_iff distinct name entity).mp found
      exact ⟨entity, member, named, by simpa [DependsOn, dependenciesOf, found] using depends⟩
  · rintro ⟨entity, member, named, depends⟩
    have found := (get?_byName_iff distinct name entity).mpr ⟨member, named⟩
    simpa [DependsOn, dependenciesOf, found] using depends

theorem requires_byName {entity : Entity} (member : entity ∈ entities) {target : String}
    (required : target ∈ entity.requiredDependencies) :
    Requires (byName entities) entity.name target := by
  have found := (get?_byName_iff distinct entity.name entity).mpr ⟨member, rfl⟩
  simpa [Requires, requiredOf, found] using required

/-- Looking up names of entities gives the entities of these names. -/
theorem map_name_filterMap_get? {names : List String}
    (known : ∀ name ∈ names, name ∈ (byName entities).names) :
    (names.filterMap (byName entities).get?).map (·.name) = names := by
  induction names with
  | nil => rfl
  | cons name rest ih =>
    obtain ⟨entity, found⟩ := Table.exists_get?_of_mem_names (known name List.mem_cons_self)
    rw [List.filterMap_cons_some found, List.map_cons, ((get?_byName_iff distinct _ _).mp found).2,
      ih fun other member => known other (List.mem_cons_of_mem _ member)]

theorem filterMap_get?_perm {names : List String} (perm : names.Perm (byName entities).names) :
    (names.filterMap (byName entities).get?).Perm entities := by
  have nodup : (byName entities).names.Nodup := (Table.sorted_ofList _).nodup
  have emittedNodup : (names.filterMap (byName entities).get?).Nodup := by
    apply List.Nodup.of_map (·.name)
    rw [map_name_filterMap_get? distinct fun name member => perm.mem_iff.mp member]
    exact perm.nodup_iff.mpr nodup
  refine (List.perm_ext_iff_of_nodup emittedNodup (List.Nodup.of_map _ distinct)).mpr ?_
  intro entity
  rw [List.mem_filterMap]
  constructor
  · rintro ⟨name, _, found⟩
    exact ((get?_byName_iff distinct name entity).mp found).1
  · intro member
    have found := (get?_byName_iff distinct entity.name entity).mpr ⟨member, rfl⟩
    exact ⟨entity.name, perm.mem_iff.mpr (Table.mem_names_of_get? found), found⟩

end ByName

/-- What `emissionOrder` returns for closed entities with different names is the outcome of a sound
walk through all of them. -/
structure IsWalk (entities emitted : List Entity) (notices : Diagnostics) : Prop where
  sound : (emission (byName entities)).Sound (byName entities)
  names_perm : (emission (byName entities)).names.Perm (byName entities).names
  emitted_eq : emitted = (emission (byName entities)).names.filterMap (byName entities).get?
  notices_eq : notices = (emission (byName entities)).notices

theorem isWalk_of_emissionOrder {entities emitted : List Entity} {notices : Diagnostics}
    (distinct : (entities.map (·.name)).Nodup) (closed : ∀ entity ∈ entities, entity.IsClosed)
    (returned : emissionOrder entities = .ok (emitted, notices)) :
    IsWalk entities emitted notices := by
  have acyclic : ∀ name, ¬TransGen (Requires (byName entities)) name name := by
    rw [← requiredCycle?_eq_none_iff]
    cases cycle : requiredCycle? (byName entities) with
    | none => rfl
    | some names => simp [emissionOrder_eq, cycle] at returned
  have cycle := (requiredCycle?_eq_none_iff (byName entities)).mpr acyclic
  simp only [emissionOrder_eq, cycle, Except.ok.injEq, Prod.mk.injEq] at returned
  have dependsOn : ∀ name target, Requires (byName entities) name target →
      DependsOn (byName entities) name target := fun name target required =>
    required.dependsOn fun name entity found =>
      closed entity ((get?_byName_iff distinct name entity).mp found).1
  -- The walk is about the table of the entities by name; the rest goes back to the list.
  obtain ⟨sound, all⟩ := emission_sound dependsOn acyclic fun name target required =>
    required.ne fun name entity found => ((get?_byName_iff distinct name entity).mp found).2
  have namesPerm : (emission (byName entities)).names.Perm (byName entities).names :=
    (List.perm_ext_iff_of_nodup sound.nodup (Table.sorted_ofList _).nodup).mpr
      fun name => ⟨sound.known name, all name⟩
  exact ⟨sound, namesPerm, returned.1.symm, returned.2.symm⟩

/-- What `emissionOrder` returns for closed entities with different names is an emission order. -/
theorem isEmissionOrder_of_emissionOrder {entities emitted : List Entity} {notices : Diagnostics}
    (distinct : (entities.map (·.name)).Nodup) (closed : ∀ entity ∈ entities, entity.IsClosed)
    (returned : emissionOrder entities = .ok (emitted, notices)) :
    IsEmissionOrder entities emitted := by
  obtain ⟨sound, namesPerm, emittedEq, _⟩ := isWalk_of_emissionOrder distinct closed returned
  have emittedNames : emitted.map (·.name) = (emission (byName entities)).names :=
    emittedEq ▸ map_name_filterMap_get? distinct sound.known
  have present {name : String} (member : name ∈ entities.map (·.name)) :
      name ∈ (byName entities).names := (byName_names_perm distinct).mem_iff.mpr member
  have emittedName {entity : Entity} (member : entity ∈ entities) :
      entity.name ∈ (emission (byName entities)).names :=
    namesPerm.mem_iff.mpr (present (List.mem_map_of_mem member))
  refine ⟨emittedEq ▸ filterMap_get?_perm distinct namesPerm, ?_, ?_⟩
  · intro entity member target required known
    rw [emittedNames]
    exact sound.required entity.name (emittedName member) target
      (requires_byName distinct member required) (present known)
  · intro entity member target dependency different known late
    rw [emittedNames] at late
    have depends : Depends entities entity.name target := ⟨entity, member, rfl, dependency⟩
    -- The dependency stands behind the entity, so it cannot stand before it as well.
    have back := (sound.dependent entity.name (emittedName member) target
      ((dependsOn_byName_iff distinct _ _).mpr depends) different (present known)).resolve_left
      fun early => early.asymm sound.nodup late
    have lifted : ReflTransGen (Depends entities) target entity.name :=
      Relation.ReflTransGen.mono (fun name target => (dependsOn_byName_iff distinct name target).mp)
        _ _ back
    refine ⟨.single depends, ?_⟩
    rcases Relation.reflTransGen_iff_eq_or_transGen.mp lifted with same | path
    · exact absurd same.symm different
    · exact path

end EntityGraph.Compile
