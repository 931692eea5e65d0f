import EntityGraph.Proofs.Merge.Aliases
import EntityGraph.Proofs.Merge.Blend

/-!
# Nullability of merged fields

A merged field is nullable exactly if some member of the group has no such field or has a nullable
one. All fields of one name and path are made nullable before the first two of them meet, so they
agree throughout, and neither the exchange of kinds nor the turning of fields into aliases touches
it. A primary key is never made nullable: the merge fails.
-/
namespace EntityGraph.Compile

/-! ## Flags -/

/-- A flag of fields that the exchange of kinds leaves alone, as well as notes and documentation. -/
def IsFlag (flag : Field → Bool) : Prop :=
  ∀ field kind maxOccurs notes documentation,
    flag { field with kind, maxOccurs, notes, documentation } = flag field

theorem isFlag_nullable : IsFlag Field.nullable := fun _ _ _ _ _ => rfl

theorem isFlag_primaryKey : IsFlag Field.primaryKey := fun _ _ _ _ _ => rfl

variable {flag : Field → Bool} {value : Bool} {first other : Field} {later : Field × Field}

theorem Widens.keepsFlag (isFlag : IsFlag flag) (widens : Widens first other later) :
    flag later.1 = flag first ∧ flag later.2 = flag other := by
  cases widens with
  | kept => exact ⟨rfl, rfl⟩
  | widenedFirst => exact ⟨isFlag first _ _ _ _, rfl⟩
  | widenedOther => exact ⟨rfl, isFlag other _ _ _ _⟩

theorem Relaxes.keepsFlag (isFlag : IsFlag flag) (relaxes : Relaxes first other later) :
    flag later.1 = flag first ∧ flag later.2 = flag other := by
  cases relaxes with
  | kept => exact ⟨rfl, rfl⟩
  | relaxedFirst => exact ⟨isFlag first _ _ _ _, rfl⟩
  | relaxedOther => exact ⟨rfl, isFlag other _ _ _ _⟩

/-- A declared field that replaces a dropped one brings its own flag, which is the same. -/
theorem Restores.keepsFlag (isFlag : IsFlag flag) {firstType otherType : String}
    (restores : Restores first other firstType otherType later) (left : flag first = value)
    (right : flag other = value) : flag later.1 = value := by
  cases restores with
  | kept => exact left
  | replacedFirst => exact (isFlag other _ _ _ _).trans right
  | replacedOther => exact (isFlag first _ _ _ _).trans left

theorem unify_flag (isFlag : IsFlag flag) (firstType otherType : String)
    (left : flag first = value) (right : flag other = value) :
    flag (unify first other firstType otherType).1 = value := by
  obtain ⟨widened, relaxed, widens, relaxes, restores⟩ :=
    unify_steps first other firstType otherType
  obtain ⟨widenedLeft, widenedRight⟩ := widens.keepsFlag isFlag
  obtain ⟨relaxedLeft, relaxedRight⟩ := relaxes.keepsFlag isFlag
  exact restores.keepsFlag isFlag (relaxedLeft.trans (widenedLeft.trans left))
    (relaxedRight.trans (widenedRight.trans right))

theorem mergeNext_flag (isFlag : IsFlag flag) {book : RuleBook} {entity firstType : String}
    {merged result : Field} {next : Entity × Field} (left : flag merged = value)
    (right : flag next.2 = value)
    (given : mergeNext book entity firstType merged next = .ok result) : flag result = value := by
  cases mergeNext_cases given with
  | joined join =>
    obtain ⟨_, _, _, _, rfl⟩ := bags_of_joinBags? join
    exact (isFlag merged _ _ _ _).trans left
  | @same unified _ unifies | @tolerated unified _ unifies =>
    have stays := unify_flag isFlag firstType (sourceLabel next.1) left right
    rw [unifies] at stays
    exact (isFlag unified.1 _ _ _ _).trans stays

/-! ## The field of an identity -/

variable {book : RuleBook} {entity : String} {members : List Entity}
  {identity : String × String} {merged : Field}

theorem mergeField_nullable (given : mergeField book entity members identity = .ok merged) :
    merged.nullable = true ↔ IsRelaxed members identity := by
  obtain ⟨merge⟩ := mergeField_steps given
  rw [← merge.relaxed_iff]
  suffices same : merged.nullable = merge.relaxed by rw [same]
  refine merge.keeps (·.nullable = merge.relaxed) ?_ ?_ ?_
  · intro holder held
    unfold prepared
    split
    next relaxed => exact relaxed.symm
    next strict =>
      -- A nullable field of a holder would have relaxed all of them.
      obtain ⟨inGroup, found⟩ := mem_holders.mp held
      have notRelaxed : merge.relaxed = false := Bool.eq_false_iff.mpr strict
      rw [notRelaxed]
      refine Bool.eq_false_iff.mpr fun nullable => strict (merge.relaxed_iff.mpr ?_)
      exact .inr ⟨holder.1, inGroup, holder.2, found, nullable⟩
  · intro before next after beforeSame nextSame merges
    exact mergeNext_flag isFlag_nullable beforeSame nextSame merges
  · intro field note same
    exact same

/-- If the fields are made nullable, then none of them is a primary key, and so the merged one is
not either. -/
theorem mergeField_unkeyed (given : mergeField book entity members identity = .ok merged)
    (nullable : merged.nullable = true) : merged.primaryKey = false := by
  have relaxed := (mergeField_nullable given).mp nullable
  obtain ⟨merge⟩ := mergeField_steps given
  have noKey := merge.noKey (merge.relaxed_iff.mpr relaxed)
  refine merge.keeps (·.primaryKey = false) ?_ ?_ ?_
  · intro holder held
    obtain ⟨inGroup, found⟩ := mem_holders.mp held
    have unkeyed : holder.2.primaryKey = false := by
      by_contra key
      exact noKey ⟨holder.1, inGroup, holder.2, found, by simpa using key⟩
    unfold prepared
    split
    · exact unkeyed
    · exact unkeyed
  · intro before next after beforeSame nextSame merges
    exact mergeNext_flag isFlag_primaryKey beforeSame nextSame merges
  · intro field note same
    exact same

/-- A primary key that would have to become nullable stops the merge. -/
theorem mergeField_key (relaxed : IsRelaxed members identity) (key : HoldsKey members identity) :
    mergeField book entity members identity = .error (.nullablePrimaryKey entity identity.1) := by
  have isRelaxed := relaxes_iff.mpr relaxed
  have isKey := (any_holders_iff Field.primaryKey).mpr key
  unfold mergeField
  extract_lets holding everywhere nullable fields proceed
  rw [if_pos]
  · rfl
  · rw [Bool.and_eq_true]
    exact ⟨isRelaxed, isKey⟩

/-! ## The fields of the merged entity -/

/-- The field that a name and path of the members have in the merged entity. -/
structure IsMergedField (members : List Entity) (identity : String × String) (field : Field) :
    Prop where
  path : field.dottedPath = identity.2
  name : field.name = identity.1 ∨ field.kind = .coalescedAlias identity.1
  nullable : field.nullable = true ↔ IsRelaxed members identity

/-- Whenever a group is merged, there is one field for every name and path that occurs in a member
after its parents have been settled, and it is nullable exactly if a member lacks it or has it
nullable. With a primary key among the fields of such a name and path, the group is not merged. -/
theorem mergeGroup_nullability {first : Entity} {others entities grown : List Entity}
    {parent : Option String}
    (settled : mergeParents book first.name (first :: others) entities =
      .ok (parent, members, grown)) :
    (∀ entity later, mergeGroup book first others entities = .ok (entity, later) →
      List.Forall₂ (IsMergedField members) (identities members) entity.fields) ∧
    ∀ identity ∈ identities members, IsRelaxed members identity → HoldsKey members identity →
      mergeField book first.name members identity =
          .error (.nullablePrimaryKey first.name identity.1) ∧
        ∃ failure, mergeGroup book first others entities = .error failure := by
  constructor
  · intro entity later given
    obtain ⟨_, settledSame, given⟩ := Result.bind_eq_ok.mp given
    cases settled.symm.trans settledSame
    obtain ⟨fields, mergedFields, given⟩ := Result.bind_eq_ok.mp given
    obtain ⟨kept, coalesced, given⟩ := Result.bind_eq_ok.mp given
    cases given
    refine Pointwise.mono_right ?_ (Result.forall₂_of_mapM mergedFields)
      (coalesceAliases_standsFor coalesced)
    intro identity merged field given stands
    have trivially : Blends fun _ _ => True := ⟨by simp, by simp⟩
    have belongs := mergeField_belongs trivially given fun _ _ _ _ => trivial
    refine ⟨stands.path.trans belongs.path_eq, ?_, ?_⟩
    · rw [← belongs.name_eq]
      exact stands.name
    · rw [stands.nullable]
      exact mergeField_nullable given
  · intro identity member relaxed key
    have refused : mergeField book first.name members identity =
        .error (.nullablePrimaryKey first.name identity.1) := mergeField_key relaxed key
    refine ⟨refused, ?_⟩
    cases result : mergeGroup book first others entities with
    | error failure => exact ⟨failure, rfl⟩
    | ok pair =>
      -- All fields would have been merged, this one among them.
      obtain ⟨_, settledSame, result⟩ := Result.bind_eq_ok.mp result
      cases settled.symm.trans settledSame
      obtain ⟨fields, mergedFields, _⟩ := Result.bind_eq_ok.mp result
      obtain ⟨merged, _, given⟩ :=
        Pointwise.exists_right (Result.forall₂_of_mapM mergedFields) member
      rw [refused] at given
      cases given

/-- A row of the given references. -/
def rowOf (path : String) (references : List String) : Entity :=
  { Entity.ofTypePath "Row" path with
    fields := references.map fun name => .ofKind name name (.toOne "Unit" false .protect none) }

/-- Of two required references, the one that only one of the rows has becomes nullable. -/
theorem mergeGroup_nullability_of_rows :
    let left := rowOf "Left" ["unit", "part"]
    let right := rowOf "Right" ["unit"]
    (mergeGroup default left [right] []).toOption.map
        (·.1.fields.map fun field => (field.name, field.nullable)) =
      some [("unit", false), ("part", true)] ∧
    (∀ entity later, mergeGroup default left [right] [] = .ok (entity, later) →
      List.Forall₂ (IsMergedField [left, right]) (identities [left, right]) entity.fields) ∧
    ∀ identity ∈ identities [left, right], IsRelaxed [left, right] identity →
      HoldsKey [left, right] identity →
        mergeField default "Row" [left, right] identity =
            .error (.nullablePrimaryKey "Row" identity.1) ∧
          ∃ failure, mergeGroup default left [right] [] = .error failure :=
  ⟨by decide, mergeGroup_nullability rfl⟩

end EntityGraph.Compile
