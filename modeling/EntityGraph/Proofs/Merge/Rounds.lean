import EntityGraph.Proofs.Faults
import EntityGraph.Proofs.Merge.Groups
import EntityGraph.Proofs.Rank

/-!
# Rounds of merging

Groups are merged after their parents. Where every parent is the name of some entity, a round merges
the groups whose parents have all been merged, and what has been merged so far is always in the
order of inheritance. No round is without such a group unless names inherit from each other in a
cycle, so parents are missed in no other case. No more rounds are needed than there are groups, and
no lineage is longer than the list of what has been merged.
-/
open Relation (TransGen)

namespace EntityGraph.Compile

open Result (avoids_ok avoids_error)

/-! ## The order of inheritance -/

/-- Every merged entity stands behind its parent, and behind the parents of all entities of its
name. -/
def ParentsFirst (entities merged : List Entity) : Prop :=
  ∀ before entity after, merged = before ++ entity :: after →
    ∀ parent, entity.parent = some parent ∨ HasParent entities entity.name parent →
      parent ∈ before.map (·.name)

namespace ParentsFirst

variable {entities merged : List Entity}

theorem nil (entities : List Entity) : ParentsFirst entities [] := by
  intro before entity after same
  simp at same

theorem mem_names (first : ParentsFirst entities merged) {entity : Entity}
    (member : entity ∈ merged) {parent : String} (has : entity.parent = some parent) :
    parent ∈ merged.map (·.name) := by
  obtain ⟨before, after, rfl⟩ := List.append_of_mem member
  rw [List.map_append]
  exact List.mem_append_left _ (first before entity after rfl parent (.inl has))

/-- Growth changes neither names nor parents. -/
theorem grown (first : ParentsFirst entities merged) {later : List Entity}
    (grows : Grown merged later) : ParentsFirst entities later := by
  rintro before entity after rfl parent has
  have front := List.forall₂_take_append _ _ _ grows
  have back := List.forall₂_drop_append _ _ _ grows
  cases split : merged.drop before.length with
  | nil =>
    rw [split] at back
    cases back
  | cons old rest =>
    rw [split] at back
    obtain ⟨step, _⟩ := List.forall₂_cons.mp back
    have same : merged = merged.take before.length ++ old :: rest := by
      rw [← split, List.take_append_drop]
    rw [Pointwise.map_eq (fun _ _ step => step.name) front]
    exact first _ old rest same parent (by rwa [step.parent, step.name] at has)

theorem append (first : ParentsFirst entities merged) {entity : Entity}
    (known : ∀ parent, entity.parent = some parent ∨ HasParent entities entity.name parent →
      parent ∈ merged.map (·.name)) : ParentsFirst entities (merged ++ [entity]) := by
  intro before later after same
  rcases List.eq_nil_or_concat after with rfl | ⟨after, last, rfl⟩
  · obtain ⟨rfl, single⟩ := List.append_inj' same rfl
    obtain rfl := List.singleton_inj.mp single
    exact known
  · rw [List.concat_eq_append, ← List.cons_append, ← List.append_assoc] at same
    exact first before later after (List.append_inj' same rfl).1

/-- An entity that has the name of another as its parent stands further back. -/
theorem idxOf_lt (first : ParentsFirst entities merged) (distinct : (merged.map (·.name)).Nodup)
    {child parent : String} (link : HasParent entities child parent)
    (known : child ∈ merged.map (·.name)) :
    (merged.map (·.name)).idxOf parent < (merged.map (·.name)).idxOf child := by
  obtain ⟨entity, member, rfl⟩ := List.mem_map.mp known
  obtain ⟨before, after, rfl⟩ := List.append_of_mem member
  have earlier := first before entity after rfl parent (.inr link)
  rw [List.map_append, List.map_cons] at distinct ⊢
  have fresh : entity.name ∉ before.map (·.name) := fun inBefore =>
    List.disjoint_of_nodup_append distinct inBefore List.mem_cons_self
  rw [List.idxOf_append_of_mem earlier, List.idxOf_append_of_notMem fresh, List.idxOf_cons_self]
  exact Nat.lt_of_lt_of_le (List.idxOf_lt_length_of_mem earlier) (Nat.le_add_right _ _)

/-- What is in the order of inheritance has no names that inherit from each other. -/
theorem not_transGen (first : ParentsFirst entities merged)
    (distinct : (merged.map (·.name)).Nodup)
    (complete : ∀ name ∈ entities.map (·.name), name ∈ merged.map (·.name)) (name : String) :
    ¬TransGen (HasParent entities) name name := by
  intro cycle
  have back {child parent : String} (links : TransGen (HasParent entities) child parent) :
      (merged.map (·.name)).idxOf parent < (merged.map (·.name)).idxOf child := by
    have step {child parent : String} (link : HasParent entities child parent) :
        (merged.map (·.name)).idxOf parent < (merged.map (·.name)).idxOf child := by
      obtain ⟨entity, member, rfl, has⟩ := link
      exact first.idxOf_lt distinct ⟨entity, member, rfl, has⟩
        (complete _ (List.mem_map_of_mem member))
    induction links with
    | single link => exact step link
    | tail _ link ih => exact Nat.lt_trans (step link) ih
  exact Nat.lt_irrefl _ (back cycle)

end ParentsFirst

/-! ## Lineages -/

section Lineages

variable {merged : List Entity} {missing : String → Error}

/-- Where the order of inheritance is kept, no ancestor of a merged entity is missed. -/
theorem ancestry_avoids_of_parentsFirst {fault : Fault} {entities : List Entity}
    (first : ParentsFirst entities merged) (steps : Nat) (lineage : List Nat) {name : String}
    (known : name ∈ merged.map (·.name)) :
    (ancestry merged missing steps lineage name).Avoids fault := by
  induction steps generalizing lineage name with
  | zero => exact avoids_ok _
  | succ steps ih =>
    rw [ancestry]
    split
    next absent =>
      obtain ⟨entity, member, named⟩ := List.mem_map.mp known
      simpa [named] using List.findIdx?_eq_none_iff.mp absent entity member
    next position _ =>
      split
      · exact avoids_ok _
      · split
        next parent found =>
          obtain ⟨entity, place, has⟩ := Option.bind_eq_some_iff.mp found
          exact ih _ (first.mem_names (List.mem_of_getElem? place) has)
        next => exact avoids_ok _

theorem length_le_of_positions {lineage : List Nat} (distinct : lineage.Nodup)
    (within : ∀ position ∈ lineage, position < merged.length) :
    lineage.length ≤ merged.length := by
  have inRange : lineage ⊆ List.range merged.length := fun position member =>
    List.mem_range.mpr (within position member)
  simpa using (List.subperm_of_subset distinct inRange).length_le

/-- A lineage has each position once, so it comes to an end. -/
theorem ancestry_of_le {lineage : List Nat} (distinct : lineage.Nodup)
    (within : ∀ position ∈ lineage, position < merged.length) {steps other : Nat}
    (enough : merged.length < lineage.length + steps)
    (enoughOther : merged.length < lineage.length + other) (name : String) :
    ancestry merged missing steps lineage name = ancestry merged missing other lineage name := by
  induction steps generalizing other lineage name with
  | zero => exact absurd enough (Nat.not_lt.mpr (length_le_of_positions distinct within))
  | succ steps ih =>
    cases other with
    | zero => exact absurd enoughOther (Nat.not_lt.mpr (length_le_of_positions distinct within))
    | succ other =>
      rw [ancestry, ancestry]
      split
      · rfl
      next position found =>
        split
        · rfl
        next new =>
          have short := (List.findIdx?_eq_some_iff_findIdx_eq.mp found).1
          have fresh : position ∉ lineage := by simpa using new
          have longer : (lineage ++ [position]).Nodup :=
            List.nodup_append_comm.mp (List.nodup_cons.mpr ⟨fresh, distinct⟩)
          have inside : ∀ other ∈ lineage ++ [position], other < merged.length := by
            simpa [or_imp, forall_and] using ⟨within, short⟩
          split
          · exact ih longer inside (by simp; omega) (by simp; omega) _
          · rfl

end Lineages

/-! ## One group -/

theorem mem_group_iff {entities group : List Entity} (inGroups : group ∈ groupByName entities)
    {entity : Entity} : entity ∈ group ↔ entity ∈ entities ∧ entity.name = groupName group := by
  obtain ⟨name, named, rfl⟩ := List.mem_map.mp inGroups
  rw [groupName_filter (List.mem_eraseDups.mp named), List.mem_filter, beq_iff_eq]

theorem mem_parentsOf_iff {entities group : List Entity} (inGroups : group ∈ groupByName entities)
    {parent : String} : parent ∈ parentsOf group ↔ HasParent entities (groupName group) parent := by
  simp only [parentsOf, HasParent, List.mem_filterMap, mem_group_iff inGroups, and_assoc]

/-- Merging a group lets bags grow and adds one entity, whose parent is that of a member. -/
theorem mergeInto_added {book : RuleBook} {merged later group : List Entity}
    (isGroup : IsGroup group) (given : mergeInto book merged group = .ok later) :
    ∃ grown entity, later = grown ++ [entity] ∧ Grown merged grown ∧
      entity.name = groupName group ∧
      ∀ parent, entity.parent = some parent → parent ∈ parentsOf group := by
  obtain ⟨grown, entity, rfl, grows, from_⟩ :=
    mergeInto_eq_ok (mergedFrom_law book) isGroup given
  obtain ⟨first, others, rfl⟩ := List.exists_cons_of_ne_nil isGroup.1
  refine ⟨grown, entity, rfl, grows, from_.name first List.mem_cons_self, fun parent has => ?_⟩
  obtain ⟨member, inGroup, given⟩ := from_.parent parent has
  exact List.mem_filterMap.mpr ⟨member, inGroup, given⟩

theorem names_grown {merged later : List Entity} (grows : Grown merged later) :
    later.map (·.name) = merged.map (·.name) :=
  Pointwise.map_eq (fun _ _ step => step.name) grows

/-! ## One round -/

/-- Groups whose parents have been merged keep the order of inheritance, and miss no parent. -/
theorem foldlM_mergeInto_parentsFirst {book : RuleBook} {entities merged : List Entity}
    {groups : List (List Entity)} (first : ParentsFirst entities merged)
    (inGroups : ∀ group ∈ groups, group ∈ groupByName entities)
    (parents : ∀ group ∈ groups, ∀ parent ∈ parentsOf group, parent ∈ merged.map (·.name)) :
    (groups.foldlM (mergeInto book) merged).Avoids .orphan ∧
      ∀ later, groups.foldlM (mergeInto book) merged = .ok later →
        ParentsFirst entities later ∧
          later.map (·.name) = merged.map (·.name) ++ groups.map groupName := by
  induction groups generalizing merged with
  | nil =>
    refine ⟨avoids_ok _, ?_⟩
    rintro _ ⟨⟩
    exact ⟨first, by simp⟩
  | cons group rest ih =>
    have inGroup := inGroups group List.mem_cons_self
    have own := parents group List.mem_cons_self
    have finds : FindsAncestors .orphan merged group := fun parent given _ _ =>
      ancestry_avoids_of_parentsFirst first _ _ (own parent given)
    have avoids : (mergeInto book merged group).Avoids .orphan :=
      mergeInto_avoids (book.forType_avoids (by decide)) finds
    -- The rest is merged into what the first group gives.
    have continues (middle : List Entity) (stepped : mergeInto book merged group = .ok middle) :
        ParentsFirst entities middle ∧
          middle.map (·.name) = merged.map (·.name) ++ [groupName group] := by
      obtain ⟨grown, entity, rfl, grows, named, parent⟩ :=
        mergeInto_added (isGroup_of_mem_groupByName inGroup) stepped
      refine ⟨(first.grown grows).append fun name has => ?_, by simp [names_grown grows, named]⟩
      rw [names_grown grows]
      refine own name (has.elim (parent name) fun link => ?_)
      exact (mem_parentsOf_iff inGroup).mpr (named ▸ link)
    have later (middle : List Entity) (stepped : mergeInto book merged group = .ok middle) :=
      @ih middle (continues middle stepped).1
        (fun other member => inGroups other (List.mem_cons_of_mem _ member))
        fun other member parent given => by
          rw [(continues middle stepped).2]
          exact List.mem_append_left _ (parents other (List.mem_cons_of_mem _ member) parent given)
    rw [List.foldlM_cons]
    constructor
    · exact avoids.bind_of_ok fun middle stepped => (later middle stepped).1
    · intro final given
      obtain ⟨middle, stepped, given⟩ := Result.bind_eq_ok.mp given
      obtain ⟨ordered, names⟩ := (later middle stepped).2 final given
      exact ⟨ordered, by simp [names, (continues middle stepped).2]⟩

/-- Whether all parents of a group have been merged, or are not waited for. -/
def isReady (names : List String) (merged group : List Entity) : Bool :=
  (parentsOf group).all fun parent => merged.any (·.name == parent) || !names.contains parent

theorem mergeRounds_cons {book : RuleBook} {names : List String} {rounds : Nat}
    {group : List Entity} {rest : List (List Entity)} {merged : List Entity} :
    mergeRounds book names (rounds + 1) (group :: rest) merged =
      if ((group :: rest).filter (isReady names merged)).isEmpty then
        .error (missingParent group merged)
      else
        ((group :: rest).filter (isReady names merged)).foldlM (mergeInto book) merged >>=
          mergeRounds book names rounds ((group :: rest).filter (!isReady names merged ·)) :=
  rfl

@[simp] theorem mergeRounds_nil {book : RuleBook} {names : List String} {rounds : Nat}
    {merged : List Entity} : mergeRounds book names rounds [] merged = .ok merged := by
  cases rounds <;> rfl

/-- What is ready does not wait. -/
theorem length_waiting_lt {pending : List (List Entity)} {ready : List Entity → Bool}
    (some_ : (pending.filter ready).isEmpty = false) :
    (pending.filter (!ready ·)).length < pending.length := by
  obtain ⟨group, rest, found⟩ := List.exists_cons_of_ne_nil (List.isEmpty_eq_false_iff.mp some_)
  obtain ⟨member, isReady⟩ := List.mem_filter.mp (found ▸ List.mem_cons_self)
  exact List.length_filter_lt_length_iff_exists.mpr ⟨group, member, by simp [isReady]⟩

/-- Every round merges a group, so more rounds than there are groups change nothing. -/
theorem mergeRounds_of_le {book : RuleBook} {names : List String}
    {pending : List (List Entity)} {rounds other : Nat} (enough : pending.length ≤ rounds)
    (enoughOther : pending.length ≤ other) (merged : List Entity) :
    mergeRounds book names rounds pending merged = mergeRounds book names other pending merged := by
  induction rounds generalizing pending other merged with
  | zero =>
    obtain rfl := List.eq_nil_of_length_eq_zero (Nat.le_zero.mp enough)
    simp
  | succ rounds ih =>
    match pending, other with
    | [], _ => simp
    | group :: rest, 0 => simp at enoughOther
    | group :: rest, other + 1 =>
      rw [mergeRounds_cons, mergeRounds_cons]
      cases idle : ((group :: rest).filter (isReady names merged)).isEmpty with
      | true => rfl
      | false =>
        have fewer := length_waiting_lt idle
        rw [funext (ih (Nat.le_of_lt_succ (Nat.lt_of_lt_of_le fewer enough))
          (Nat.le_of_lt_succ (Nat.lt_of_lt_of_le fewer enoughOther)))]

/-! ## All rounds -/

/-- What has been merged is in order, and what has not is pending. -/
structure PartlyMerged (entities : List Entity) (pending : List (List Entity))
    (merged : List Entity) : Prop where
  first : ParentsFirst entities merged
  groups : ∀ group ∈ pending, group ∈ groupByName entities
  covers : ∀ name ∈ entities.map (·.name), name ∈ merged.map (·.name) ∨
    entities.filter (·.name == name) ∈ pending

/-- Every parent is the name of an entity. -/
def ParentsKnown (entities : List Entity) : Prop :=
  ∀ entity ∈ entities, ∀ parent, entity.parent = some parent → parent ∈ entities.map (·.name)

/-- No name inherits from itself. -/
def Acyclic (entities : List Entity) : Prop := ∀ name, ¬TransGen (HasParent entities) name name

section Rounds

variable {book : RuleBook} {entities : List Entity} {pending : List (List Entity)}
  {merged : List Entity}

section Known

variable (known : ParentsKnown entities)
include known

theorem isReady_iff {group : List Entity} (inGroups : group ∈ groupByName entities) :
    isReady (entities.map (·.name)) merged group = true ↔
      ∀ parent ∈ parentsOf group, parent ∈ merged.map (·.name) := by
  rw [isReady, List.all_eq_true]
  refine forall₂_congr fun parent member => ?_
  obtain ⟨entity, inEntities, _, has⟩ := (mem_parentsOf_iff inGroups).mp member
  have listed : (entities.map (·.name)).contains parent = true :=
    List.contains_iff_mem.mpr (known entity inEntities parent has)
  rw [listed, Bool.not_true, Bool.or_false, List.any_eq_true, List.mem_map]
  simp only [beq_iff_eq]

/-- Where no name inherits from itself, some group does not have to wait: going from a group to that
of a parent, one comes to a group whose parents have all been merged. -/
theorem PartlyMerged.exists_isReady (partly : PartlyMerged entities pending merged)
    (acyclic : Acyclic entities) {group : List Entity} (member : group ∈ pending) :
    ∃ ready ∈ pending, isReady (entities.map (·.name)) merged ready = true := by
  have within (child parent : String) (link : HasParent entities child parent) :
      parent ∈ entities.map (·.name) := by
    obtain ⟨entity, inEntities, _, has⟩ := link
    exact known entity inEntities parent has
  obtain ⟨rank, down, _⟩ := exists_rank within fun name _ => acyclic name
  induction height : rank (groupName group) using Nat.strongRecOn generalizing group with
  | _ height ih =>
    subst height
    have inGroups := partly.groups group member
    by_cases ready : isReady (entities.map (·.name)) merged group = true
    · exact ⟨group, member, ready⟩
    · rw [isReady_iff known inGroups] at ready
      push Not at ready
      obtain ⟨parent, given, unmerged⟩ := ready
      have link := (mem_parentsOf_iff inGroups).mp given
      have named := within _ _ link
      have waits := (partly.covers parent named).resolve_left unmerged
      have lower := down _ _ link
      rw [← groupName_filter named] at lower
      exact ih _ lower waits rfl

/-- A round misses no parent, and it leads to the next round. -/
theorem PartlyMerged.step (book : RuleBook) (partly : PartlyMerged entities pending merged) :
    ((pending.filter (isReady (entities.map (·.name)) merged)).foldlM (mergeInto book)
      merged).Avoids .orphan ∧
    ∀ later, (pending.filter (isReady (entities.map (·.name)) merged)).foldlM (mergeInto book)
        merged = .ok later →
      PartlyMerged entities (pending.filter (!isReady (entities.map (·.name)) merged ·)) later := by
  have inGroups : ∀ group ∈ pending.filter (isReady (entities.map (·.name)) merged),
      group ∈ groupByName entities := fun group member =>
    partly.groups group (List.mem_filter.mp member).1
  obtain ⟨avoids, gives⟩ := @foldlM_mergeInto_parentsFirst book _ _ _ partly.first inGroups
    fun group member => (isReady_iff known (inGroups group member)).mp (List.mem_filter.mp member).2
  refine ⟨avoids, fun later given => ?_⟩
  obtain ⟨first, names⟩ := gives later given
  refine ⟨first, fun group member => partly.groups group (List.mem_filter.mp member).1,
    fun name named => ?_⟩
  rw [names, List.mem_append]
  rcases partly.covers name named with done | waits
  · exact .inl (.inl done)
  · cases ready : isReady (entities.map (·.name)) merged (entities.filter (·.name == name)) with
    | true =>
      refine .inl (.inr ?_)
      exact groupName_filter named ▸ List.mem_map_of_mem (List.mem_filter.mpr ⟨waits, ready⟩)
    | false => exact .inr (List.mem_filter.mpr ⟨waits, by simp [ready]⟩)

/-- What all rounds give is in the order of inheritance. Where no name inherits from itself, no
parent is missed. -/
theorem PartlyMerged.mergeRounds (partly : PartlyMerged entities pending merged) {rounds : Nat}
    (enough : pending.length ≤ rounds) :
    (Acyclic entities →
      (mergeRounds book (entities.map (·.name)) rounds pending merged).Avoids .orphan) ∧
    ∀ later, mergeRounds book (entities.map (·.name)) rounds pending merged = .ok later →
      ParentsFirst entities later := by
  induction rounds generalizing pending merged with
  | zero =>
    obtain rfl := List.eq_nil_of_length_eq_zero (Nat.le_zero.mp enough)
    refine ⟨fun _ => avoids_ok _, ?_⟩
    rintro _ ⟨⟩
    exact partly.first
  | succ rounds ih =>
    match pending with
    | [] =>
      refine ⟨fun _ => avoids_ok _, ?_⟩
      rintro _ ⟨⟩
      exact partly.first
    | group :: rest =>
      rw [mergeRounds_cons]
      cases idle : ((group :: rest).filter (isReady (entities.map (·.name)) merged)).isEmpty with
      | true =>
        constructor
        · intro acyclic
          obtain ⟨ready, member, isReady⟩ := partly.exists_isReady known acyclic List.mem_cons_self
          have inReady := List.mem_filter.mpr ⟨member, isReady⟩
          simp [List.isEmpty_iff.mp idle] at inReady
        · rintro _ ⟨⟩
      | false =>
        have fewer := Nat.le_of_lt_succ (Nat.lt_of_lt_of_le (length_waiting_lt idle) enough)
        obtain ⟨avoids, gives⟩ := partly.step known book
        constructor
        · intro acyclic
          exact avoids.bind_of_ok fun middle stepped => (ih (gives middle stepped) fewer).1 acyclic
        · intro later given
          obtain ⟨middle, stepped, given⟩ := Result.bind_eq_ok.mp given
          exact (ih (gives middle stepped) fewer).2 later given

end Known

/-- Groups without parents come first, and leave the others pending. -/
theorem mergeEntities_partly (book : RuleBook) (entities : List Entity) :
    (((groupByName entities).filter fun group => (parentsOf group).isEmpty).foldlM (mergeInto book)
      []).Avoids .orphan ∧
    ∀ later, ((groupByName entities).filter fun group => (parentsOf group).isEmpty).foldlM
        (mergeInto book) [] = .ok later →
      PartlyMerged entities ((groupByName entities).filter fun group => !(parentsOf group).isEmpty)
        later := by
  obtain ⟨avoids, gives⟩ := @foldlM_mergeInto_parentsFirst book entities []
    ((groupByName entities).filter fun group => (parentsOf group).isEmpty) (.nil entities)
    (fun group member => (List.mem_filter.mp member).1)
    (fun group member parent given => by
      simp [List.isEmpty_iff.mp (List.mem_filter.mp member).2] at given)
  refine ⟨avoids, fun later given => ?_⟩
  obtain ⟨first, names⟩ := gives later given
  refine ⟨first, fun group member => (List.mem_filter.mp member).1, fun name named => ?_⟩
  have inGroups : entities.filter (·.name == name) ∈ groupByName entities :=
    List.mem_map_of_mem (List.mem_eraseDups.mpr named)
  rw [names, List.map_nil, List.nil_append]
  cases alone : (parentsOf (entities.filter (·.name == name))).isEmpty with
  | true =>
    refine .inl ?_
    exact groupName_filter named ▸ List.mem_map_of_mem (List.mem_filter.mpr ⟨inGroups, alone⟩)
  | false => exact .inr (List.mem_filter.mpr ⟨inGroups, by simp [alone]⟩)

theorem mergeEntities_parentsFirst (known : ParentsKnown entities) {later : List Entity}
    (given : mergeEntities book entities = .ok later) : ParentsFirst entities later := by
  obtain ⟨middle, folded, given⟩ := Result.bind_eq_ok.mp given
  have partly := (mergeEntities_partly book entities).2 middle folded
  exact (partly.mergeRounds known (Nat.le_refl _)).2 later given

theorem mergeEntities_avoids_orphan (known : ParentsKnown entities) (acyclic : Acyclic entities) :
    (mergeEntities book entities).Avoids .orphan := by
  obtain ⟨avoids, gives⟩ := mergeEntities_partly book entities
  exact avoids.bind_of_ok fun middle folded =>
    ((gives middle folded).mergeRounds known (Nat.le_refl _)).1 acyclic

end Rounds

/-- Where every parent is the name of an entity, merging gives each name once, with the sources of
all entities of that name, and behind its parents. It comes to an end, gives nothing if names
inherit from each other in a cycle, and misses no parent otherwise. -/
theorem mergeEntities_follows_inheritance (book : RuleBook) {entities : List Entity}
    (known : ParentsKnown entities) :
    (∀ merged, mergeEntities book entities = .ok merged →
      (merged.map (·.name)).Nodup ∧
      (∀ name, name ∈ merged.map (·.name) ↔ name ∈ entities.map (·.name)) ∧
      (∀ entity ∈ merged, entity.sourceTypes.Perm
        ((entities.filter (·.name == entity.name)).flatMap (·.sourceTypes))) ∧
      ParentsFirst entities merged) ∧
    (∀ names pending merged, ∀ rounds ≥ pending.length,
      mergeRounds book names rounds pending merged =
        mergeRounds book names pending.length pending merged) ∧
    (∀ merged missing name, ∀ steps > merged.length,
      ancestry merged missing steps [] name =
        ancestry merged missing (merged.length + 1) [] name) ∧
    ((∃ name, TransGen (HasParent entities) name name) →
      ∀ merged, mergeEntities book entities ≠ .ok merged) ∧
    ((∀ name, ¬TransGen (HasParent entities) name name) →
      ∀ name parent types,
        mergeEntities book entities ≠ .error (.missingParent name parent types)) := by
  refine ⟨fun merged given => ?_, fun names pending merged rounds enough => ?_,
    fun merged missing name steps enough => ?_, ?_, fun acyclic name parent types missed => ?_⟩
  · have whole := mergeEntities_merged given
    exact ⟨whole.distinct, whole.names,
      fun entity member => (whole.from_group entity member).sources,
      mergeEntities_parentsFirst known given⟩
  · exact mergeRounds_of_le enough (Nat.le_refl _) merged
  · exact ancestry_of_le List.nodup_nil (by simp) (by simpa using enough) (by simp) name
  · rintro ⟨name, cycle⟩ merged given
    have whole := mergeEntities_merged given
    exact (mergeEntities_parentsFirst known given).not_transGen whole.distinct
      (fun name => (whole.names name).mpr) name cycle
  · cases mergeEntities_avoids_orphan known acyclic _ missed

/-! ### Letters that derive from each other -/

/-- An entity of one type, with fields of text. -/
def letter (name path : String) (parent : Option String) (fields : List String) : Entity :=
  { Entity.ofTypePath name path with
    parent
    fields := fields.map fun field => .ofKind field field (.scalar (.ofKind .text)) }

/-- Those that derive come first. Each of them has a second type, which has the inherited fields
itself. -/
def letters : List Entity :=
  [letter "B" "B1" (some "A") ["y"], letter "B" "B2" none ["code", "x", "y"],
    letter "Root" "Root" none ["code"], letter "A" "ZA1" (some "Root") ["x"],
    letter "A" "ZA2" none ["code", "x"]]

/-- Each derives from the other. -/
def circularLetters : List Entity := [letter "A" "A" (some "B") [], letter "B" "B" (some "A") []]

theorem mergeEntities_follows_inheritance_of_letters :
    (ParentsKnown letters ∧ ∃ merged, mergeEntities default letters = .ok merged ∧
      merged.map (·.name) = ["Root", "A", "B"] ∧ ParentsFirst letters merged) ∧
    ParentsKnown circularLetters ∧ TransGen (HasParent circularLetters) "A" "A" ∧
      ∀ merged, mergeEntities default circularLetters ≠ .ok merged := by
  have known : ParentsKnown letters := by
    simp [ParentsKnown, letters, letter, Entity.ofTypePath]
  have knownCircular : ParentsKnown circularLetters := by
    simp [ParentsKnown, circularLetters, letter, Entity.ofTypePath]
  have evaluated : (mergeEntities default letters).toOption.map (·.map (·.name)) =
      some ["Root", "A", "B"] := by decide +kernel
  obtain ⟨merged, given, names⟩ := Result.exists_ok_of_map evaluated
  have cycle : TransGen (HasParent circularLetters) "A" "A" :=
    .head ⟨_, .head _, rfl, rfl⟩ (.single ⟨_, .tail _ (.head _), rfl, rfl⟩)
  refine ⟨⟨known, merged, given, names, ?_⟩, knownCircular, cycle, ?_⟩
  · exact ((mergeEntities_follows_inheritance default known).1 merged given).2.2.2
  · exact (mergeEntities_follows_inheritance default knownCircular).2.2.2.1 ⟨"A", cycle⟩

end EntityGraph.Compile
