import EntityGraph.Proofs.Merge.Aliases
import EntityGraph.Proofs.Merge.Blend
import EntityGraph.Proofs.Merge.Parents

/-!
# Merging groups

The entities of one name become one, which has the sources of all of them and closes over its
fields. Its materialized fields have different names, are blends of the fields of the members, and
stand for every field that is materialized wherever it occurs, unless an ancestor has that field. A
field that leads to many values in a member does so in the merged entity, unless an ancestor has it
or a difference is tolerated.
-/
namespace EntityGraph.Compile

/-- The fields of the name and path of a field lead to many values. -/
def AllMany (fields : List Field) (field : Field) : Prop :=
  ∀ known ∈ fields, known.name = field.name → known.dottedPath = field.dottedPath →
    known.kind.isCollection = true

/-- What is known of the entity that a group has been merged to, among all merged entities. -/
structure MergedFrom (book : RuleBook) (merged members : List Entity) (entity : Entity) :
    Prop where
  name : ∀ member ∈ members, entity.name = member.name
  closed : (∀ member ∈ members, member.IsClosed) → entity.IsClosed
  nodup : (∀ member ∈ members, (materializedNames member.fields).Nodup) →
    (materializedNames entity.fields).Nodup
  sorted : (∀ member ∈ members, member.IsSorted) → entity.IsSorted
  sources : entity.sourceTypes.Perm (members.flatMap (·.sourceTypes))
  parent : ∀ parent, entity.parent = some parent → ∃ member ∈ members, member.parent = some parent
  blended : ∀ field ∈ entity.fields, field.isMaterialized = true → ∀ Holds, Blends Holds →
    (∀ member ∈ members, ∀ known ∈ member.fields, known.name = field.name →
      Holds known.kind known.maxOccurs) → Holds field.kind field.maxOccurs
  complete : ∀ member ∈ members, ∀ field ∈ member.fields,
    (∀ other ∈ members, ∀ known ∈ other.fields, known.name = field.name →
      known.dottedPath = field.dottedPath → known.isMaterialized = true) →
    field.name ∈ materializedNames entity.fields ∨
      ∃ start, entity.parent = some start ∧ Covered book merged start field
  many : ∀ member ∈ members, ∀ field ∈ member.fields, AllMany member.fields field →
    (∃ other ∈ members, Tolerates book other field.dottedPath) ∨
      (∃ start, entity.parent = some start ∧ Covered book merged start field) ∨
      AllMany (entity.fields.filter Field.isMaterialized) field
  single : ∀ member, members = [member] → GrownEntity member entity

namespace MergedFrom

variable {book : RuleBook} {merged members : List Entity} {entity : Entity}

/-- A group of one is its member. -/
theorem of_single (book : RuleBook) (merged : List Entity) (entity : Entity) :
    MergedFrom book merged [entity] entity := by
  refine ⟨by simp, by simp, by simp, by simp, by simp, by simp, ?_, ?_, ?_, ?_⟩
  · intro field member _ Holds _ all
    exact all entity (by simp) field member rfl
  · intro member inGroup field fieldMember all
    obtain rfl := List.mem_singleton.mp inGroup
    exact .inl (mem_materializedNames.mpr
      ⟨field, fieldMember, all member (by simp) field fieldMember rfl rfl, rfl⟩)
  · intro member inGroup field _ all
    obtain rfl := List.mem_singleton.mp inGroup
    exact .inr (.inr fun known member => all known (List.mem_filter.mp member).1)
  · intro member same
    obtain rfl : entity = member := by simpa using same
    exact .refl entity

/-- Growth takes nothing away. -/
theorem grown (from_ : MergedFrom book merged members entity) {later : Entity}
    {others : List Entity} (grown : GrownEntity entity later)
    (covers : ∀ start field, Covered book merged start field → Covered book others start field) :
    MergedFrom book others members later := by
  refine ⟨fun member inGroup => grown.name.trans (from_.name member inGroup),
    fun closed => grown.isClosed (from_.closed closed), fun nodup => ?_, fun sorted => ?_,
    grown.sourceTypes ▸ from_.sources, grown.parent ▸ from_.parent, ?_, ?_, ?_,
    fun member same => (from_.single member same).trans grown⟩
  · rw [grown.materializedNames_eq]
    exact from_.nodup nodup
  · rw [Entity.IsSorted, grown.dependencies]
    exact from_.sorted sorted
  · intro field fieldMember materialized Holds blends all
    obtain ⟨old, oldMember, step⟩ := grown.exists_earlier fieldMember
    have oldHolds := from_.blended old oldMember (step.isMaterialized ▸ materialized) Holds blends
      (step.name ▸ all)
    -- Growth changes no kind but a bag, which gets more entries.
    rw [step.maxOccurs]
    rcases step.kind_cases with same | ⟨entries, more, kind, laterKind⟩
    · exact same ▸ oldHolds
    · rw [kind] at oldHolds
      exact laterKind ▸ blends.bag _ _ _ oldHolds
  · intro member inGroup field fieldMember all
    rw [grown.materializedNames_eq, grown.parent]
    rcases from_.complete member inGroup field fieldMember all with kept | ⟨start, parent, covered⟩
    · exact .inl kept
    · exact .inr ⟨start, parent, covers _ _ covered⟩
  · intro member inGroup field fieldMember all
    rw [grown.parent]
    rcases from_.many member inGroup field fieldMember all with
      tolerated | ⟨start, parent, covered⟩ | many
    · exact .inl tolerated
    · exact .inr (.inl ⟨start, parent, covers _ _ covered⟩)
    · refine .inr (.inr fun known knownMember name path => ?_)
      obtain ⟨inLater, materialized⟩ := List.mem_filter.mp knownMember
      obtain ⟨old, oldMember, step⟩ := grown.exists_earlier inLater
      have oldKept : old ∈ entity.fields.filter Field.isMaterialized :=
        List.mem_filter.mpr ⟨oldMember, step.isMaterialized ▸ materialized⟩
      exact step.isCollection.trans
        (many old oldKept (step.name.symm.trans name) (step.dottedPath.symm.trans path))

end MergedFrom

/-! ## One group -/

theorem mem_identities {members : List Entity} {identity : String × String} :
    identity ∈ identities members ↔
      ∃ member ∈ members, ∃ field ∈ member.fields, (field.name, field.dottedPath) = identity := by
  simp [identities, List.mem_eraseDups]

/-- The merged fields of a group, before those of one name are coalesced, but for the fields that
are left to an ancestor. -/
structure MergedFields (book : RuleBook) (members : List Entity) (Left : Field → Prop)
    (fields : List Field) : Prop where
  blended : ∀ field ∈ fields, ∀ Holds, Blends Holds →
    (∀ member ∈ members, ∀ known ∈ member.fields, known.name = field.name →
      Holds known.kind known.maxOccurs) → Holds field.kind field.maxOccurs
  complete : ∀ member ∈ members, ∀ field ∈ member.fields,
    (∀ other ∈ members, ∀ known ∈ other.fields, known.name = field.name →
      known.dottedPath = field.dottedPath → known.isMaterialized = true) →
    (∃ merged ∈ fields, merged.isMaterialized = true ∧ merged.name = field.name) ∨ Left field
  many : ∀ member ∈ members, ∀ field ∈ member.fields, AllMany member.fields field →
    (∃ other ∈ members, Tolerates book other field.dottedPath) ∨ Left field ∨ AllMany fields field

/-- A name and path that a field has can be looked up. -/
theorem exists_fieldAt? {entity : Entity} {field : Field} (member : field ∈ entity.fields) :
    ∃ known, entity.fieldAt? field.name field.dottedPath = some known := by
  cases found : entity.fieldAt? field.name field.dottedPath with
  | some known => exact ⟨known, rfl⟩
  | none => simpa using List.find?_eq_none.mp found field member

theorem mapM_mergeField {book : RuleBook} {entity : String} {members : List Entity}
    {fields : List Field}
    (given : (identities members).mapM (mergeField book entity members) = .ok fields) :
    MergedFields book members (fun _ => False) fields := by
  have all := Result.forall₂_of_mapM given
  refine ⟨?_, ?_, ?_⟩
  · intro field fieldMember Holds blends known
    obtain ⟨⟨name, dottedPath⟩, _, merged⟩ := Pointwise.exists_left all fieldMember
    have fieldName := (mergeField_identity merged).1
    refine (mergeField_belongs blends merged fun member inGroup other found => ?_).holds
    obtain ⟨otherMember, otherName, _⟩ := fieldAt?_some found
    exact known member inGroup other otherMember (otherName.trans fieldName.symm)
  · intro member inGroup field fieldMember materialized
    have identity : (field.name, field.dottedPath) ∈ identities members :=
      mem_identities.mpr ⟨member, inGroup, field, fieldMember, rfl⟩
    obtain ⟨merged, mergedMember, given⟩ := Pointwise.exists_right all identity
    have blends : Blends fun kind _ => kind.isMaterialized = true :=
      ⟨fun _ _ _ _ _ _ _ _ _ _ _ => rfl, fun _ _ _ _ => rfl⟩
    have belongs := mergeField_belongs blends given fun other otherGroup known found => by
      obtain ⟨knownMember, knownName, path⟩ := fieldAt?_some found
      exact materialized other otherGroup known knownMember knownName path
    exact .inl ⟨merged, mergedMember, belongs.holds, belongs.name_eq⟩
  · intro member inGroup field fieldMember many
    rw [false_or, or_iff_not_imp_left]
    intro strict merged mergedMember name path
    -- The merged field of the name and path has been merged from that of the member as well.
    obtain ⟨⟨ownName, ownPath⟩, _, given⟩ := Pointwise.exists_left all mergedMember
    obtain ⟨mergedName, mergedPath⟩ := mergeField_identity given
    obtain rfl : field.name = ownName := name.symm.trans mergedName
    obtain rfl : field.dottedPath = ownPath := path.symm.trans mergedPath
    obtain ⟨known, found⟩ := exists_fieldAt? fieldMember
    obtain ⟨knownMember, knownName, knownPath⟩ := fieldAt?_some found
    have collection := many known knownMember knownName knownPath
    exact (mergeField_lasting lasting_isCollection given inGroup found collection).resolve_right
      strict

/-- Adoption takes no field from the members that no ancestor has, and adds none. -/
theorem MergedFields.of_adopted {book : RuleBook} {entities members adopted : List Entity}
    {parent : Option String} {fields : List Field}
    (adoption : List.Forall₂ (Adopted book entities parent) members adopted)
    (merged : MergedFields book adopted (fun _ => False) fields) :
    MergedFields book members
      (fun field => ∃ start, parent = some start ∧ Covered book entities start field) fields := by
  refine ⟨?_, ?_, ?_⟩
  · intro field fieldMember Holds blends all
    refine merged.blended field fieldMember Holds blends fun later inLater known knownMember => ?_
    obtain ⟨member, inGroup, step⟩ := Pointwise.exists_left adoption inLater
    exact all member inGroup known (step.fields known knownMember)
  · intro member inGroup field fieldMember materialized
    obtain ⟨later, inLater, step⟩ := Pointwise.exists_right adoption inGroup
    rcases step.kept field fieldMember with kept | covered
    · -- All fields of the name are materialized before adoption, and so are those that are left.
      refine .inl ((merged.complete later inLater field kept ?_).resolve_right id)
      intro other inOther known knownMember
      obtain ⟨before, inBefore, otherStep⟩ := Pointwise.exists_left adoption inOther
      exact materialized before inBefore known (otherStep.fields known knownMember)
    · exact .inr covered
  · intro member inGroup field fieldMember all
    obtain ⟨later, inLater, step⟩ := Pointwise.exists_right adoption inGroup
    rcases step.kept field fieldMember with kept | covered
    · have stillAll : AllMany later.fields field := fun known knownMember =>
        all known (step.fields known knownMember)
      rcases merged.many later inLater field kept stillAll with
        ⟨other, inOther, tolerates⟩ | left | many
      · obtain ⟨before, inBefore, otherStep⟩ := Pointwise.exists_left adoption inOther
        exact .inl ⟨before, inBefore,
          tolerates.of_same otherStep.name.symm otherStep.sourceTypes.symm⟩
      · exact left.elim
      · exact .inr (.inr many)
    · exact .inr (.inl covered)

/-- What a merge of several entities that succeeds has done: the members have agreed on a parent,
their fields have been merged by name and path, and aliases have been put in place of those whose
names are taken. -/
structure GroupMerge (book : RuleBook) (members later : List Entity) (entity : Entity) where
  adopted : List Entity
  fields : List Field
  adoption : List.Forall₂ (Adopted book later entity.parent) members adopted
  parent : ∀ start, entity.parent = some start → ∃ member ∈ members, member.parent = some start
  blended : List.Forall₂
    (fun identity field => mergeField book entity.name adopted identity = .ok field)
    (identities adopted) fields
  aliases : coalesceAliases entity.name fields = .ok entity.fields

theorem exists_groupMerge {book : RuleBook} {first entity : Entity}
    {others merged later : List Entity}
    (given : mergeGroup book first others merged = .ok (entity, later)) :
    Nonempty (GroupMerge book (first :: others) later entity) := by
  obtain ⟨⟨parent, members, grown⟩, parents, given⟩ := Result.bind_eq_ok.mp given
  obtain ⟨fields, blended, given⟩ := Result.bind_eq_ok.mp given
  obtain ⟨kept, coalesced, given⟩ := Result.bind_eq_ok.mp given
  cases given
  exact ⟨⟨members, fields, (mergeParents_spec parents).2, fun _ => mergeParents_parent parents,
    Result.forall₂_of_mapM blended, coalesced⟩⟩

theorem mergeGroup_grown {book : RuleBook} {first entity : Entity}
    {others merged later : List Entity}
    (given : mergeGroup book first others merged = .ok (entity, later)) : Grown merged later := by
  obtain ⟨⟨parent, members, grown⟩, parents, given⟩ := Result.bind_eq_ok.mp given
  obtain ⟨fields, blended, given⟩ := Result.bind_eq_ok.mp given
  obtain ⟨kept, coalesced, given⟩ := Result.bind_eq_ok.mp given
  cases given
  exact (mergeParents_spec parents).1

theorem mergeGroup_spec {book : RuleBook} {first entity : Entity}
    {others merged later : List Entity} (several : others ≠ [])
    (same : ∀ member ∈ others, member.name = first.name)
    (given : mergeGroup book first others merged = .ok (entity, later)) :
    Grown merged later ∧ MergedFrom book later (first :: others) entity := by
  simp only [mergeGroup] at given
  obtain ⟨⟨parent, members, grown⟩, parents, given⟩ := Result.bind_eq_ok.mp given
  obtain ⟨fields, mergedFields, given⟩ := Result.bind_eq_ok.mp given
  obtain ⟨kept, coalesced, given⟩ := Result.bind_eq_ok.mp given
  cases given
  -- Parents first: the members lose what ancestors have. Then the fields are merged by name and
  -- path, and last those that share a name are coalesced.
  obtain ⟨grows, adoption⟩ := mergeParents_spec parents
  obtain ⟨blended, complete, many⟩ := (mapM_mergeField mergedFields).of_adopted adoption
  have aliases := coalesceAliases_coalesced coalesced
  refine ⟨grows, ?_, fun _ => Entity.close_isClosed _, fun _ => aliases.nodup,
    fun _ => Entity.IsSorted.close List.Pairwise.nil, ?_, fun _ => mergeParents_parent parents,
    ?_, ?_, ?_, ?_⟩
  · intro member inGroup
    rcases List.mem_cons.mp inGroup with rfl | inOthers
    · rfl
    · exact (same member inOthers).symm
  · have sources : members.flatMap (·.sourceTypes) = (first :: others).flatMap (·.sourceTypes) := by
      rw [List.flatMap_def, List.flatMap_def,
        Pointwise.map_eq (fun _ _ step => step.sourceTypes) adoption]
    exact sources ▸ sorted_perm _
  · intro field fieldMember materialized Holds blends all
    obtain ⟨before, beforeMember, bare⟩ := aliases.sound field fieldMember materialized
    obtain ⟨name, _, kind, _, _, _, occurs, _⟩ := Field.bare_eq_iff.mp bare
    rw [kind, occurs]
    exact blended before beforeMember Holds blends (name ▸ all)
  · intro member inGroup field fieldMember all
    rcases complete member inGroup field fieldMember all with
      ⟨before, beforeMember, materialized, name⟩ | covered
    · exact .inl (name ▸ aliases.complete before beforeMember materialized)
    · exact .inr covered
  · intro member inGroup field fieldMember all
    rcases many member inGroup field fieldMember all with tolerated | covered | many
    · exact .inl tolerated
    · exact .inr (.inl covered)
    · refine .inr (.inr fun known knownMember name path => ?_)
      obtain ⟨inKept, materialized⟩ := List.mem_filter.mp knownMember
      obtain ⟨before, beforeMember, bare⟩ := aliases.sound known inKept materialized
      obtain ⟨sameName, samePath, kind, _⟩ := Field.bare_eq_iff.mp bare
      rw [kind]
      exact many before beforeMember (sameName.symm.trans name) (samePath.symm.trans path)
  · intro member single
    cases others with
    | nil => exact absurd rfl several
    | cons other rest => simp at single

/-! ## All groups -/

/-- A group has entities, and they share a name. -/
def IsGroup (group : List Entity) : Prop :=
  group ≠ [] ∧ ∀ member ∈ group, ∀ other ∈ group, member.name = other.name

/-- A relation between the merged entities, a group and the entity it has been merged to, that holds
as soon as the group is merged, and still holds when bags grow and other groups are merged. -/
structure MergeLaw (book : RuleBook) (From : List Entity → List Entity → Entity → Prop) :
    Prop where
  single : ∀ merged entity, From merged [entity] entity
  several : ∀ first others merged later entity, others ≠ [] →
    (∀ member ∈ others, member.name = first.name) →
    mergeGroup book first others merged = .ok (entity, later) → From later (first :: others) entity
  grown : ∀ merged afterwards members entity later, From merged members entity →
    Grown merged afterwards → GrownEntity entity later → From afterwards members later
  append : ∀ merged members entity more, From merged members entity →
    From (merged ++ [more]) members entity

theorem MergeLaw.and {book : RuleBook} {From Other : List Entity → List Entity → Entity → Prop}
    (law : MergeLaw book From) (other : MergeLaw book Other) :
    MergeLaw book fun merged members entity =>
      From merged members entity ∧ Other merged members entity := by
  refine ⟨fun _ _ => ⟨law.single _ _, other.single _ _⟩, ?_, ?_, ?_⟩
  · intro first others merged later entity several same given
    exact ⟨law.several _ _ _ _ _ several same given, other.several _ _ _ _ _ several same given⟩
  · intro merged afterwards members entity later holds grows step
    exact ⟨law.grown _ _ _ _ _ holds.1 grows step, other.grown _ _ _ _ _ holds.2 grows step⟩
  · intro merged members entity more holds
    exact ⟨law.append _ _ _ _ holds.1, other.append _ _ _ _ holds.2⟩

theorem mergedFrom_law (book : RuleBook) : MergeLaw book (MergedFrom book) := by
  refine ⟨.of_single book, ?_, ?_, ?_⟩
  · intro first others merged later entity several same given
    exact (mergeGroup_spec several same given).2
  · intro merged afterwards members entity later from_ grows step
    exact from_.grown step fun _ _ covered => covered.grown grows
  · intro merged members entity more from_
    exact from_.grown (.refl entity) fun _ _ covered => covered.append [more]

/-- A property that the merged entity has if all members have it. -/
theorem MergeLaw.of_property {book : RuleBook} (Holds : Entity → Prop)
    (several : ∀ first others merged later entity, (∀ member ∈ first :: others, Holds member) →
      mergeGroup book first others merged = .ok (entity, later) → Holds entity)
    (grown : ∀ entity later, GrownEntity entity later → Holds entity → Holds later) :
    MergeLaw book fun _ members entity => (∀ member ∈ members, Holds member) → Holds entity :=
  ⟨fun _ entity all => all entity (List.mem_singleton_self entity),
    fun _ _ _ _ _ _ _ given all => several _ _ _ _ _ all given,
    fun _ _ _ _ _ holds _ step all => grown _ _ step (holds all),
    fun _ _ _ _ holds => holds⟩

/-- Every group has been merged, in this order. -/
abbrev MergedInOrder (From : List Entity → List Entity → Entity → Prop)
    (groups : List (List Entity)) (merged : List Entity) : Prop :=
  List.Forall₂ (From merged) groups merged

section Law

variable {book : RuleBook} {From : List Entity → List Entity → Entity → Prop}

/-- Adding the entity of one more group, after growth of the earlier ones. -/
theorem MergedInOrder.add (law : MergeLaw book From) {groups : List (List Entity)}
    {merged later : List Entity} (order : MergedInOrder From groups merged)
    (grows : Grown merged later) {group : List Entity} {entity : Entity}
    (from_ : From later group entity) :
    MergedInOrder From (groups ++ [group]) (later ++ [entity]) := by
  have known : List.Forall₂ (From (later ++ [entity])) groups later :=
    Pointwise.mono_right (fun members known knownLater before step =>
      law.append later members knownLater entity
        (law.grown merged later members known knownLater before grows step)) order grows
  exact List.rel_append known (.cons (law.append _ _ _ _ from_) .nil)

/-- Merging a group lets bags grow and adds one entity, which comes from the group. -/
theorem mergeInto_eq_ok (law : MergeLaw book From) {merged later group : List Entity}
    (isGroup : IsGroup group) (given : mergeInto book merged group = .ok later) :
    ∃ grown entity, later = grown ++ [entity] ∧ Grown merged grown ∧ From grown group entity := by
  match group, isGroup, given with
  | [], isGroup, _ => exact absurd rfl isGroup.1
  | [entity], _, given =>
    cases given
    exact ⟨merged, entity, rfl, .refl merged, law.single merged entity⟩
  | first :: second :: others, isGroup, given =>
    obtain ⟨⟨entity, grown⟩, mergedGroup, given⟩ := Result.bind_eq_ok.mp given
    cases given
    have several : second :: others ≠ [] := by simp
    have same : ∀ member ∈ second :: others, member.name = first.name := fun member inOthers =>
      isGroup.2 member (List.mem_cons_of_mem _ inOthers) first List.mem_cons_self
    exact ⟨grown, entity, rfl, (mergeGroup_spec several same mergedGroup).1,
      law.several _ _ _ _ _ several same mergedGroup⟩

theorem mergeInto_inOrder (law : MergeLaw book From) {groups : List (List Entity)}
    {merged later : List Entity} {group : List Entity} (isGroup : IsGroup group)
    (order : MergedInOrder From groups merged) (given : mergeInto book merged group = .ok later) :
    MergedInOrder From (groups ++ [group]) later := by
  obtain ⟨grown, entity, rfl, grows, from_⟩ := mergeInto_eq_ok law isGroup given
  exact order.add law grows from_

theorem foldlM_mergeInto (law : MergeLaw book From) {groups done : List (List Entity)}
    {merged later : List Entity} (isGroup : ∀ group ∈ groups, IsGroup group)
    (order : MergedInOrder From done merged)
    (given : groups.foldlM (mergeInto book) merged = .ok later) :
    MergedInOrder From (done ++ groups) later := by
  induction groups generalizing done merged with
  | nil =>
    cases given
    simpa using order
  | cons group rest ih =>
    rw [List.foldlM_cons] at given
    obtain ⟨middle, stepped, given⟩ := Result.bind_eq_ok.mp given
    have next := mergeInto_inOrder law (isGroup group List.mem_cons_self) order stepped
    have all := ih (fun other member => isGroup other (List.mem_cons_of_mem _ member)) next given
    simpa using all

theorem mergeRounds_inOrder (law : MergeLaw book From) {names : List String} (rounds : Nat)
    {pending done : List (List Entity)} {merged later : List Entity}
    (isGroup : ∀ group ∈ pending, IsGroup group) (order : MergedInOrder From done merged)
    (given : mergeRounds book names rounds pending merged = .ok later) :
    ∃ groups, groups.Perm (done ++ pending) ∧ MergedInOrder From groups later := by
  induction rounds generalizing pending done merged with
  | zero =>
    cases pending with
    | nil =>
      cases given
      exact ⟨done, by simp, order⟩
    | cons group rest => cases given
  | succ rounds ih =>
    cases pending with
    | nil =>
      cases given
      exact ⟨done, by simp, order⟩
    | cons group rest =>
      unfold mergeRounds at given
      extract_lets isReady ready at given
      split at given
      · exact absurd given Result.throw_ne_ok
      · obtain ⟨middle, folded, given⟩ := Result.bind_eq_ok.mp given
        -- The groups of this round and those of the later rounds are the pending ones.
        have readyGroups : ∀ other ∈ ready, IsGroup other := fun other member =>
          isGroup other (List.mem_filter.mp member).1
        have next := foldlM_mergeInto law readyGroups order folded
        obtain ⟨groups, perm, all⟩ :=
          ih (fun other member => isGroup other (List.mem_filter.mp member).1) next given
        refine ⟨groups, perm.trans ?_, all⟩
        rw [List.append_assoc]
        exact (List.filter_append_perm isReady (group :: rest)).append_left done

end Law

theorem isGroup_of_mem_groupByName {entities group : List Entity}
    (member : group ∈ groupByName entities) : IsGroup group := by
  obtain ⟨name, named, rfl⟩ := List.mem_map.mp member
  rw [List.mem_eraseDups] at named
  obtain ⟨entity, entityMember, rfl⟩ := List.mem_map.mp named
  refine ⟨List.ne_nil_of_mem (List.mem_filter.mpr ⟨entityMember, by simp⟩), ?_⟩
  intro first inFirst second inSecond
  have firstName := (List.mem_filter.mp inFirst).2
  have secondName := (List.mem_filter.mp inSecond).2
  rw [beq_iff_eq] at firstName secondName
  exact firstName.trans secondName.symm

/-- What merging makes of entities: one of each name, from all the entities of that name. -/
structure Merged (book : RuleBook) (entities merged : List Entity) : Prop where
  distinct : (merged.map (·.name)).Nodup
  from_group : ∀ entity ∈ merged,
    MergedFrom book merged (entities.filter (·.name == entity.name)) entity
  names : ∀ name, name ∈ merged.map (·.name) ↔ name ∈ entities.map (·.name)

/-- The name of a group is that of its entity. -/
theorem MergedFrom.group_eq {book : RuleBook} {entities merged : List Entity} {entity : Entity}
    {name : String} (named : name ∈ entities.map (·.name))
    (from_ : MergedFrom book merged (entities.filter (·.name == name)) entity) :
    entity.name = name := by
  obtain ⟨member, inEntities, rfl⟩ := List.mem_map.mp named
  exact from_.name member (List.mem_filter.mpr ⟨inEntities, by simp⟩)

/-- The name that the entities of a group share. -/
def groupName (group : List Entity) : String := (group.head?.map (·.name)).getD ""

theorem groupName_filter {entities : List Entity} {name : String}
    (named : name ∈ entities.map (·.name)) :
    groupName (entities.filter (·.name == name)) = name := by
  have isGroup : entities.filter (·.name == name) ∈ groupByName entities :=
    List.mem_map.mpr ⟨name, List.mem_eraseDups.mpr named, rfl⟩
  cases same : entities.filter (·.name == name) with
  | nil => exact absurd same (isGroup_of_mem_groupByName isGroup).1
  | cons first rest =>
    have member : first ∈ entities.filter (·.name == name) := same ▸ List.mem_cons_self
    simpa [groupName] using (List.mem_filter.mp member).2

theorem map_groupName_groupByName (entities : List Entity) :
    (groupByName entities).map groupName = (entities.map (·.name)).eraseDups := by
  rw [groupByName, List.map_map]
  refine (List.map_congr_left fun name member => ?_).trans (List.map_id _)
  exact groupName_filter (List.mem_eraseDups.mp member)

theorem merged_of_order {book : RuleBook} {entities merged : List Entity}
    {From : List Entity → List Entity → Entity → Prop} {groups : List (List Entity)}
    (perm : groups.Perm (groupByName entities))
    (order : MergedInOrder (fun merged members entity =>
      MergedFrom book merged members entity ∧ From merged members entity) groups merged) :
    Merged book entities merged ∧
      ∀ entity ∈ merged, From merged (entities.filter (·.name == entity.name)) entity := by
  -- Each group is known by its name, so the entity of a name can be traced to its group.
  have known : List.Forall₂ (fun group entity =>
      (∃ name ∈ entities.map (·.name), group = entities.filter (·.name == name)) ∧
        MergedFrom book merged group entity ∧ From merged group entity) groups merged := by
    refine (List.forall₂_and_left groups merged).mpr ⟨fun group member => ?_, order⟩
    obtain ⟨name, named, rfl⟩ := List.mem_map.mp (perm.mem_iff.mp member)
    exact ⟨name, List.mem_eraseDups.mp named, rfl⟩
  have names : merged.map (·.name) = groups.map groupName := by
    refine Pointwise.map_eq (fun group entity step => ?_) known
    obtain ⟨⟨name, named, rfl⟩, from_, _⟩ := step
    exact (from_.group_eq named).trans (groupName_filter named).symm
  have namesPerm : (merged.map (·.name)).Perm (entities.map (·.name)).eraseDups := by
    rw [names, ← map_groupName_groupByName]
    exact perm.map groupName
  have from_group (entity : Entity) (member : entity ∈ merged) :
      MergedFrom book merged (entities.filter (·.name == entity.name)) entity ∧
        From merged (entities.filter (·.name == entity.name)) entity := by
    obtain ⟨group, _, ⟨name, named, rfl⟩, from_⟩ := Pointwise.exists_left known member
    rwa [from_.1.group_eq named]
  refine ⟨⟨namesPerm.nodup_iff.mpr (nodup_eraseDups _), fun entity member => ?_, fun name => ?_⟩,
    fun entity member => (from_group entity member).2⟩
  · exact (from_group entity member).1
  · rw [namesPerm.mem_iff, List.mem_eraseDups]

/-- Whatever law the merge of groups follows, every merged entity keeps to it. -/
theorem mergeEntities_law {book : RuleBook} {entities merged : List Entity}
    {From : List Entity → List Entity → Entity → Prop} (law : MergeLaw book From)
    (given : mergeEntities book entities = .ok merged) :
    Merged book entities merged ∧
      ∀ entity ∈ merged, From merged (entities.filter (·.name == entity.name)) entity := by
  obtain ⟨independent, folded, given⟩ := Result.bind_eq_ok.mp given
  have isGroup {keep : List Entity → Bool} :
      ∀ group ∈ (groupByName entities).filter keep, IsGroup group := fun group member =>
    isGroup_of_mem_groupByName (List.mem_filter.mp member).1
  have both := (mergedFrom_law book).and law
  have first := foldlM_mergeInto both isGroup .nil folded
  obtain ⟨groups, perm, order⟩ := mergeRounds_inOrder both _ isGroup first given
  refine merged_of_order (perm.trans ?_) order
  rw [List.nil_append]
  exact List.filter_append_perm _ _

theorem mergeEntities_merged {book : RuleBook} {entities merged : List Entity}
    (given : mergeEntities book entities = .ok merged) : Merged book entities merged :=
  (mergeEntities_law (mergedFrom_law book) given).1

end EntityGraph.Compile
