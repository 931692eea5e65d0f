import EntityGraph.Proofs.Merge.Absorption
import EntityGraph.Proofs.Merge.Groups

/-!
# Members that agree in pairs

Members are compared with what has been merged before them, and every comparison may change the
merged field. Where no difference is tolerated, each step absorbs both fields, so that in the end
all members' fields are absorbed by one field, and agree in pairs. A field that a member has left to
an ancestor is not compared with those of the others.
-/
open Relation (ReflTransGen)

namespace EntityGraph.Compile

open EntityGraph.Field

/-! ## Steps -/

/-- Two fields have been made more alike: nothing of them is lost, and what holds of fields that can
be compared still does. -/
structure Aligned (first other : Field) (later : Field × Field) : Prop where
  left : Absorbed first later.1
  right : Absorbed other later.2
  comparable : later.1.IsComparable
  otherComparable : later.2.IsComparable

variable {first other : Field} {later : Field × Field}

theorem Aligned.refl (left : first.IsComparable) (right : other.IsComparable) :
    Aligned first other (first, other) :=
  ⟨.refl first, .refl other, left, right⟩

theorem Aligned.trans {middle last : Field × Field} (before : Aligned first other middle)
    (after : Aligned middle.1 middle.2 last) : Aligned first other last :=
  ⟨before.left.trans after.left, before.right.trans after.right, after.comparable,
    after.otherComparable⟩

theorem Widens.aligned (widens : Widens first other later) (left : first.IsComparable)
    (right : other.IsComparable) : Aligned first other later := by
  cases widens with
  | kept => exact .refl left right
  | @widenedFirst single array item list same =>
    have equal := ScalarRepr.unsigned_eq_of_beq same
    refine ⟨.widened ⟨single, array, item, list, equal⟩ rfl, .refl other, ?_, right⟩
    exact ⟨⟨fun _ _ _ reference => absurd (list.symm.trans reference) nofun,
      fun _ bag => absurd (list.symm.trans bag) nofun⟩, right.finite⟩
  | @widenedOther single array item list same =>
    have equal := ScalarRepr.unsigned_eq_of_beq same
    refine ⟨.refl first, .widened ⟨single, array, item, list, equal⟩ rfl, left, ?_⟩
    exact ⟨⟨fun _ _ _ reference => absurd (list.symm.trans reference) nofun,
      fun _ bag => absurd (list.symm.trans bag) nofun⟩, left.finite⟩

theorem Relaxes.aligned (relaxes : Relaxes first other later) (left : first.IsComparable)
    (right : other.IsComparable) : Aligned first other later := by
  cases relaxes with
  | kept => exact .refl left right
  | relaxedFirst owned plain =>
    refine ⟨.relaxed ⟨_, _, _, _, _, owned, plain⟩ rfl rfl, .refl other, ?_, right⟩
    exact ⟨⟨right.cascades, fun _ bag => absurd (plain.symm.trans bag) nofun⟩, right.finite⟩
  | relaxedOther owned plain =>
    refine ⟨.refl first, .relaxed ⟨_, _, _, _, _, owned, plain⟩ rfl rfl, left, ?_⟩
    exact ⟨⟨left.cascades, fun _ bag => absurd (plain.symm.trans bag) nofun⟩, left.finite⟩

theorem Restores.aligned {firstType otherType : String}
    (restores : Restores first other firstType otherType later) (left : first.IsComparable)
    (right : other.IsComparable) : Aligned first other later := by
  have annotated {field : Field} (comparable : field.IsComparable) (note : MergeNote) :
      (field.annotate note).IsComparable :=
    ⟨⟨comparable.cascades, comparable.bag⟩, comparable.finite⟩
  cases restores with
  | kept => exact .refl left right
  | replacedFirst dropped =>
    exact ⟨.dropped (kind_of_isDropped dropped), .same rfl rfl rfl, annotated right _,
      annotated right _⟩
  | replacedOther dropped =>
    exact ⟨.same rfl rfl rfl, .dropped (kind_of_isDropped dropped), annotated left _,
      annotated left _⟩

theorem unify_aligned (firstType otherType : String) (left : first.IsComparable)
    (right : other.IsComparable) : Aligned first other (unify first other firstType otherType) := by
  obtain ⟨widened, relaxed, widens, relaxes, restores⟩ :=
    unify_steps first other firstType otherType
  have widening := widens.aligned left right
  have relaxing := relaxes.aligned widening.comparable widening.otherComparable
  exact widening.trans
    (relaxing.trans (restores.aligned relaxing.comparable relaxing.otherComparable))

theorem absorbed_documented (field : Field) (documentation : List String) :
    Absorbed field { field with documentation } :=
  .same rfl rfl rfl

theorem isComparable_documented {field : Field} (comparable : field.IsComparable)
    (documentation : List String) : { field with documentation }.IsComparable :=
  ⟨⟨comparable.cascades, comparable.bag⟩, comparable.finite⟩

theorem isComparable_of_bag {field : Field} {entries : Bag} (bag : field.kind = .jsonBag entries)
    (occurs : field.maxOccurs = .one) (flags : field.flags = (false, false, false)) :
    field.IsComparable := by
  refine ⟨⟨fun _ _ _ reference => ?_, fun _ _ => ⟨occurs, flags⟩⟩, fun repr has => ?_⟩
  · exact absurd (bag.symm.trans reference) nofun
  · rw [bag] at has
    cases has

/-- Bags that are joined are both absorbed, as no bag has options. -/
theorem joinBags?_absorbed {joined : Field} (left : first.IsComparable) (right : other.IsComparable)
    (join : joinBags? first other = some joined) :
    Absorbed first joined ∧ Absorbed other joined ∧ joined.IsComparable := by
  obtain ⟨entries, more, firstBag, otherBag, rfl⟩ := bags_of_joinBags? join
  obtain ⟨occurs, flags⟩ := left.bag entries firstBag
  obtain ⟨otherOccurs, otherFlags⟩ := right.bag more otherBag
  refine ⟨.same ?_ rfl rfl, .same ?_ (otherOccurs.trans occurs.symm) (otherFlags.trans flags.symm),
    isComparable_of_bag rfl occurs flags⟩
  · rw [firstBag]
    rfl
  · rw [otherBag]
    rfl

/-- If no difference is tolerated, then both fields are absorbed. -/
theorem mergeNext_absorbed {book : RuleBook} {entity firstType : String} {merged result : Field}
    {next : Entity × Field} (given : mergeNext book entity firstType merged next = .ok result)
    (strict : ¬Tolerates book next.1 next.2.dottedPath) (left : merged.IsComparable)
    (right : next.2.IsComparable) :
    Absorbed merged result ∧ Absorbed next.2 result ∧ result.IsComparable := by
  cases mergeNext_cases given with
  | joined join => exact joinBags?_absorbed left right join
  | @same unified _ unifies same =>
    -- The two forms that are compared differ in nothing that is compared.
    have aligned := unify_aligned firstType (sourceLabel next.1) left right
    rw [unifies] at aligned
    have comparable := isComparable_documented aligned.comparable
      (Text.Documentation.squeeze (unified.1.documentation ++ unified.2.documentation))
    have alike := indistinct_of_signature comparable.finite aligned.otherComparable.finite same
    exact ⟨aligned.left.trans (absorbed_documented _ _),
      aligned.right.trans (.same alike.kind.symm alike.maxOccurs.symm alike.flags.symm),
      comparable⟩
  | tolerated _ _ tolerates => exact absurd tolerates strict

/-! ## Runs -/

/-- If no difference is tolerated, then all fields are absorbed, in whatever order they come. -/
theorem foldlM_mergeNext_absorbed {book : RuleBook} {entity firstType : String}
    {others : List (Entity × Field)} {start result : Field}
    (given : others.foldlM (mergeNext book entity firstType) start = .ok result)
    (strict : ∀ holder ∈ others, ¬Tolerates book holder.1 holder.2.dottedPath)
    (comparable : start.IsComparable) (all : ∀ holder ∈ others, holder.2.IsComparable) :
    Absorbed start result ∧ ∀ holder ∈ others, Absorbed holder.2 result := by
  induction others generalizing start with
  | nil =>
    rw [List.foldlM_nil] at given
    obtain rfl := Result.pure_eq_ok.mp given
    exact ⟨.refl start, by simp⟩
  | cons holder rest ih =>
    rw [List.foldlM_cons] at given
    obtain ⟨middle, step, given⟩ := Result.bind_eq_ok.mp given
    obtain ⟨strictHere, strictRest⟩ := List.forall_mem_cons.mp strict
    obtain ⟨here, others⟩ := List.forall_mem_cons.mp all
    obtain ⟨before, next, middleComparable⟩ :=
      mergeNext_absorbed step strictHere comparable here
    obtain ⟨later, absorbed⟩ := ih given strictRest middleComparable others
    exact ⟨before.trans later, List.forall_mem_cons.mpr ⟨next.trans later, absorbed⟩⟩

theorem absorbed_prepared (relaxed : Bool) (holder : Entity × Field) :
    Absorbed holder.2 (prepared relaxed holder).2 := by
  cases relaxed <;> exact .same rfl rfl rfl

theorem isComparable_prepared (relaxed : Bool) {holder : Entity × Field}
    (comparable : holder.2.IsComparable) : (prepared relaxed holder).2.IsComparable := by
  cases relaxed <;> exact ⟨⟨comparable.cascades, comparable.bag⟩, comparable.finite⟩

theorem absorbed_noted {field noted : Field}
    (same : noted = field ∨ ∃ note, noted = field.annotate note) : Absorbed field noted := by
  rcases same with rfl | ⟨note, rfl⟩
  · exact .refl noted
  · exact .same rfl rfl rfl

/-- The first fields of a name and path that the members have are all absorbed by the merged one. -/
theorem mergeField_absorbed {book : RuleBook} {entity name dottedPath : String}
    {members : List Entity} {merged : Field}
    (given : mergeField book entity members (name, dottedPath) = .ok merged)
    (strict : ∀ member ∈ members, ¬Tolerates book member dottedPath)
    (comparable : ∀ member ∈ members, ∀ field ∈ member.fields, field.IsComparable)
    {member : Entity} (inGroup : member ∈ members) {field : Field}
    (found : member.fieldAt? name dottedPath = some field) : Absorbed field merged := by
  obtain ⟨merge⟩ := mergeField_steps given
  have listed {holder : Entity × Field} (among : holder ∈ merge.first :: merge.others) :
      ¬Tolerates book holder.1 holder.2.dottedPath ∧ holder.2.IsComparable := by
    rw [← merge.holding] at among
    obtain ⟨held, heldMember, rfl⟩ := List.mem_map.mp among
    obtain ⟨heldGroup, heldFound⟩ := mem_holders.mp heldMember
    obtain ⟨inFields, _, path⟩ := fieldAt?_some heldFound
    refine ⟨?_, isComparable_prepared _ (comparable held.1 heldGroup held.2 inFields)⟩
    rw [(prepared_same _ held).2.1, path]
    exact strict held.1 heldGroup
  obtain ⟨start, others⟩ := foldlM_mergeNext_absorbed merge.folded
    (fun holder inOthers => (listed (List.mem_cons_of_mem _ inOthers)).1)
    (listed List.mem_cons_self).2
    (fun holder inOthers => (listed (List.mem_cons_of_mem _ inOthers)).2)
  -- The field is one of those that are folded, but for its flag of nullability.
  have among : prepared merge.relaxed (member, field) ∈ merge.first :: merge.others := by
    rw [← merge.holding]
    exact List.mem_map_of_mem (mem_holders.mpr ⟨inGroup, found⟩)
  have blended : Absorbed (prepared merge.relaxed (member, field)).2 merge.blended := by
    rcases List.mem_cons.mp among with first | other
    · exact first ▸ start
    · exact others _ other
  exact (absorbed_prepared merge.relaxed (member, field)).trans
    (blended.trans (absorbed_noted merge.noted))

/-- Some member has a list of scalars of the name and path. -/
def HasLists (members : List Entity) (name dottedPath : String) : Prop :=
  ∃ member ∈ members, ∃ field ∈ member.fields, field.name = name ∧ field.dottedPath = dottedPath ∧
    ∃ array, field.kind = .collection array

/-- The first fields of a name and path that two members have agree. -/
theorem mergeField_agrees {book : RuleBook} {entity name dottedPath : String}
    {members : List Entity} {merged : Field}
    (given : mergeField book entity members (name, dottedPath) = .ok merged)
    (strict : ∀ member ∈ members, ¬Tolerates book member dottedPath)
    (comparable : ∀ member ∈ members, ∀ field ∈ member.fields, field.IsComparable)
    {member second : Entity} (inGroup : member ∈ members) (secondInGroup : second ∈ members)
    {field other : Field} (found : member.fieldAt? name dottedPath = some field)
    (otherFound : second.fieldAt? name dottedPath = some other) :
    Agrees (HasLists members name dottedPath) field other := by
  have regular {member : Entity} (inGroup : member ∈ members) {field : Field}
      (found : member.fieldAt? name dottedPath = some field) : field.IsRegular :=
    (comparable member inGroup field (fieldAt?_some found).1).toIsRegular
  refine agrees_of_absorbed (mergeField_absorbed given strict comparable inGroup found)
    (mergeField_absorbed given strict comparable secondInGroup otherFound)
    (regular inGroup found) (regular secondInGroup otherFound) fun array list => ?_
  -- Merging makes up no list, so if no member had one, then there would be none.
  by_contra none
  have blends : Blends fun kind _ => kind ≠ .collection array :=
    ⟨fun _ _ _ _ _ _ _ _ _ _ _ => nofun, fun _ _ _ _ => nofun⟩
  refine (mergeField_belongs blends given fun member inGroup field found kind => ?_).holds list
  obtain ⟨fieldMember, ownName, path⟩ := fieldAt?_some found
  exact none ⟨member, inGroup, field, fieldMember, ownName, path, array, kind⟩

/-! ## Groups -/

/-- The field of an ancestor takes the place of the other one: they compare equal, or both are
bags. -/
def StandsIn (known field : Field) : Prop :=
  signature known = signature field ∨
    ∃ entries more, field.kind = .jsonBag entries ∧ known.kind = .jsonBag more

theorem Matches.standsIn {field known later : Field} (matches_ : Matches field later)
    (grown : GrownField known later) : StandsIn known field := by
  cases matches_ with
  | same signature noBag =>
    cases grown with
    | same => exact .inl signature
    | bag _ _ => exact absurd rfl (noBag _)
  | bag kind holds =>
    obtain ⟨more, laterKind, _⟩ := holds
    rcases grown.kind_cases with same | ⟨earlier, _, knownKind, _⟩
    · exact .inr ⟨_, more, kind, same.symm.trans laterKind⟩
    · exact .inr ⟨_, earlier, kind, knownKind⟩

/-- A member without parent leaves a field to an ancestor: another member has a parent, and this or
an ancestor of it has a field of the same name and path that takes its place. -/
def LeavesTo (entities members : List Entity) (member : Entity) (field : Field) : Prop :=
  member.parent = none ∧ ∃ sibling ∈ members, ∃ start, sibling.parent = some start ∧
    ∃ ancestor ∈ entities, ReflTransGen (HasParent entities) start ancestor.name ∧
      ∃ known ∈ ancestor.fields, known.name = field.name ∧ known.dottedPath = field.dottedPath ∧
        StandsIn known field

/-- The first fields of a name and path that two members have agree, unless one of the members
leaves its field to an ancestor. -/
def AgreeInPairs (Leaves : Entity → Field → Prop) (members : List Entity) : Prop :=
  ∀ first ∈ members, ∀ second ∈ members, ∀ name dottedPath field other,
    first.fieldAt? name dottedPath = some field → second.fieldAt? name dottedPath = some other →
      Leaves first field ∨ Leaves second other ∨
        Agrees (HasLists members name dottedPath) field other

/-- Where the ancestors are in the end, they were before their bags grew. -/
theorem Covered.exists_earlier {book : RuleBook} {entities later : List Entity}
    (grown : Grown entities later) (strict : ∀ member dottedPath, ¬Tolerates book member dottedPath)
    {start : String} {field : Field} (covered : Covered book later start field) :
    ∃ ancestor ∈ entities, ReflTransGen (HasParent entities) start ancestor.name ∧
      ∃ known ∈ ancestor.fields, known.name = field.name ∧ known.dottedPath = field.dottedPath ∧
        StandsIn known field := by
  obtain ⟨ancestor, inLater, lineage, known, knownMember, name, path, compared⟩ := covered
  obtain ⟨earlier, inEntities, step⟩ := Pointwise.exists_left grown inLater
  obtain ⟨old, oldMember, grownField⟩ := step.exists_earlier knownMember
  have links (child parent : String) (link : HasParent later child parent) :
      HasParent entities child parent := by
    obtain ⟨entity, entityMember, named, has⟩ := link
    obtain ⟨before, beforeMember, stepped⟩ := Pointwise.exists_left grown entityMember
    exact ⟨before, beforeMember, stepped.name.symm.trans named, stepped.parent.symm.trans has⟩
  exact ⟨earlier, inEntities, step.name ▸ lineage.lift id links, old, oldMember,
    grownField.name.symm.trans name, grownField.dottedPath.symm.trans path,
    (compared.resolve_right (strict _ _)).standsIn grownField⟩

namespace GroupMerge

variable {book : RuleBook} {members merged later : List Entity} {entity : Entity}

/-- The first field of a name and path that a member has takes part in the merge, or is left to an
ancestor. -/
theorem leaves_or_looked (merge : GroupMerge book members later entity) (grown : Grown merged later)
    (strict : ∀ member dottedPath, ¬Tolerates book member dottedPath) {member : Entity}
    (inGroup : member ∈ members) {name dottedPath : String} {field : Field}
    (found : member.fieldAt? name dottedPath = some field) :
    LeavesTo merged members member field ∨
      ∃ adopted ∈ merge.adopted, adopted.fieldAt? name dottedPath = some field := by
  obtain ⟨adopted, inAdopted, adoption⟩ := Pointwise.exists_right merge.adoption inGroup
  rcases adoption.looked _ _ _ found with kept | ⟨start, parent, covered⟩
  case inl => exact .inr ⟨adopted, inAdopted, kept⟩
  cases own : member.parent with
  | none =>
    obtain ⟨sibling, siblingInGroup, has⟩ := merge.parent start parent
    exact .inl ⟨own, sibling, siblingInGroup, start, has, covered.exists_earlier grown strict⟩
  | some parent =>
    -- Only members without parent give up fields.
    have same : adopted = member := adoption.parented (by rw [own]; rfl)
    exact .inr ⟨adopted, inAdopted, same ▸ found⟩

theorem agreeInPairs (merge : GroupMerge book members later entity) (grown : Grown merged later)
    (strict : ∀ member dottedPath, ¬Tolerates book member dottedPath)
    (comparable : ∀ member ∈ members, ∀ field ∈ member.fields, field.IsComparable) :
    AgreeInPairs (LeavesTo merged members) members := by
  -- Adoption makes up no fields.
  have earlier {adopted : Entity} (inAdopted : adopted ∈ merge.adopted) :
      ∃ member ∈ members, ∀ field ∈ adopted.fields, field ∈ member.fields := by
    obtain ⟨member, inGroup, adoption⟩ := Pointwise.exists_left merge.adoption inAdopted
    exact ⟨member, inGroup, adoption.fields⟩
  have adoptedComparable (adopted : Entity) (inAdopted : adopted ∈ merge.adopted) (field : Field)
      (fieldMember : field ∈ adopted.fields) : field.IsComparable := by
    obtain ⟨member, inGroup, keeps⟩ := earlier inAdopted
    exact comparable member inGroup field (keeps field fieldMember)
  intro first inGroup second secondInGroup name dottedPath field other found otherFound
  rcases merge.leaves_or_looked grown strict inGroup found with
    leaves | ⟨adopted, inAdopted, looked⟩
  case inl => exact .inl leaves
  rcases merge.leaves_or_looked grown strict secondInGroup otherFound with
    leaves | ⟨another, anotherInAdopted, otherLooked⟩
  case inl => exact .inr (.inl leaves)
  obtain ⟨fieldMember, fieldName, path⟩ := fieldAt?_some looked
  have identity : (name, dottedPath) ∈ identities merge.adopted :=
    mem_identities.mpr ⟨adopted, inAdopted, field, fieldMember, by rw [fieldName, path]⟩
  obtain ⟨blend, _, given⟩ := Pointwise.exists_right merge.blended identity
  have agrees := mergeField_agrees given (fun member _ => strict member dottedPath)
    adoptedComparable inAdopted anotherInAdopted looked otherLooked
  refine .inr (.inr (agrees.mono ?_))
  rintro ⟨holder, holderInAdopted, list, listMember, listed⟩
  obtain ⟨member, memberInGroup, keeps⟩ := earlier holderInAdopted
  exact ⟨member, memberInGroup, list, keeps list listMember, listed⟩

end GroupMerge

/-- If no difference is tolerated, then the merge of a group only succeeds if its members agree in
pairs, and fails with any other difference. -/
theorem mergeGroup_agrees {book : RuleBook} {first : Entity} {others merged : List Entity}
    (strict : ∀ member dottedPath, ¬Tolerates book member dottedPath)
    (comparable : ∀ member ∈ first :: others, ∀ field ∈ member.fields, field.IsComparable) :
    (∀ entity later, mergeGroup book first others merged = .ok (entity, later) →
      AgreeInPairs (LeavesTo merged (first :: others)) (first :: others)) ∧
    (¬AgreeInPairs (LeavesTo merged (first :: others)) (first :: others) →
      ∃ failure, mergeGroup book first others merged = .error failure) := by
  have succeeds (entity : Entity) (later : List Entity)
      (given : mergeGroup book first others merged = .ok (entity, later)) :
      AgreeInPairs (LeavesTo merged (first :: others)) (first :: others) := by
    obtain ⟨merge⟩ := exists_groupMerge given
    exact merge.agreeInPairs (mergeGroup_grown given) strict comparable
  refine ⟨succeeds, fun differ => ?_⟩
  cases given : mergeGroup book first others merged with
  | error failure => exact ⟨failure, rfl⟩
  | ok result => exact absurd (succeeds result.1 result.2 given) differ

end EntityGraph.Compile
