import EntityGraph.Proofs.Merge.Groups

/-!
# What merging keeps of the fields

A materialized field of a member stays in the merged entity, becomes an alias of a field of its
name, or is left to an ancestor that has the same. Only the first field of each name and path takes
part in the merge, so this does not hold of a field that stands behind a mark of its name and path.
A bag that stays keeps its entries.
-/
namespace EntityGraph

namespace Entity

/-- A mark stands before the field and has its name and path. -/
def Hides (entity : Entity) (field : Field) : Prop :=
  ∃ mark, entity.fieldAt? field.name field.dottedPath = some mark ∧ mark.isMaterialized = false

/-- The entity has a materialized field of the name and path, with all entries of a bag. -/
def Retains (entity : Entity) (field : Field) : Prop :=
  ∃ known ∈ entity.fields, known.isMaterialized = true ∧ known.name = field.name ∧
    known.dottedPath = field.dottedPath ∧
      ∀ entries, field.kind = .jsonBag entries → Compile.HoldsPaths entries known.kind

/-- The entity has a mark at the path that points to the name of the field, and a materialized field
of this name that comes from another path. -/
def PointsFrom (entity : Entity) (field : Field) : Prop :=
  (∃ pointer ∈ entity.fields, pointer.kind = .coalescedAlias field.name ∧
    pointer.dottedPath = field.dottedPath) ∧
  ∃ known ∈ entity.fields, known.isMaterialized = true ∧ known.name = field.name ∧
    known.dottedPath ≠ field.dottedPath

variable {entity later : Entity} {field : Field}

theorem Retains.name_mem (retains : entity.Retains field) :
    field.name ∈ materializedNames entity.fields := by
  obtain ⟨known, member, materialized, name, _⟩ := retains
  exact mem_materializedNames.mpr ⟨known, member, materialized, name⟩

theorem PointsFrom.name_mem (points : entity.PointsFrom field) :
    field.name ∈ materializedNames entity.fields := by
  obtain ⟨_, known, member, materialized, name, _⟩ := points
  exact mem_materializedNames.mpr ⟨known, member, materialized, name⟩

/-- A materialized field that no mark hides is the one that is found at its name and path. -/
theorem fieldAt?_of_not_hides (nodup : (materializedNames entity.fields).Nodup)
    (member : field ∈ entity.fields) (materialized : field.isMaterialized = true)
    (visible : ¬entity.Hides field) : entity.fieldAt? field.name field.dottedPath = some field := by
  obtain ⟨known, found⟩ := Compile.exists_fieldAt? member
  obtain ⟨knownMember, name, _⟩ := Compile.fieldAt?_some found
  have knownMaterialized : known.isMaterialized = true := by
    by_contra mark
    exact visible ⟨known, found, by simpa using mark⟩
  have same : known = field := List.inj_on_of_nodup_map nodup
    (List.mem_filter.mpr ⟨knownMember, knownMaterialized⟩)
    (List.mem_filter.mpr ⟨member, materialized⟩) name
  exact same ▸ found

end Entity

namespace Compile

open Entity

variable {book : RuleBook} {entity later : Entity} {field : Field}

theorem Matches.isMaterialized {field known : Field} (matches_ : Matches field known) :
    known.isMaterialized = field.isMaterialized := by
  rw [Field.isMaterialized, Field.isMaterialized, isMaterialized_eq_contains,
    isMaterialized_eq_contains, matches_.category]

theorem HoldsPaths.grown {entries : Bag} {known grownField : Field}
    (holds : HoldsPaths entries known.kind) (grown : GrownField known grownField) :
    HoldsPaths entries grownField.kind := by
  obtain ⟨more, kind, all⟩ := holds
  rcases grown.bag_cases with same | ⟨before, after, kindBefore, kindAfter, keeps⟩
  · exact ⟨more, same.trans kind, all⟩
  · obtain rfl : more = before := FieldKind.jsonBag.inj (kind.symm.trans kindBefore)
    exact ⟨after, kindAfter, fun path there => keeps path (all path there)⟩

theorem retains_grown (grown : GrownEntity entity later) (retains : entity.Retains field) :
    later.Retains field := by
  obtain ⟨known, member, materialized, name, path, bag⟩ := retains
  obtain ⟨other, otherMember, step⟩ := grown.exists_later member
  exact ⟨other, otherMember, step.isMaterialized.trans materialized, step.name.trans name,
    step.dottedPath.trans path, fun entries kind => (bag entries kind).grown step⟩

theorem pointsFrom_grown (grown : GrownEntity entity later) (points : entity.PointsFrom field) :
    later.PointsFrom field := by
  obtain ⟨⟨pointer, member, kind, path⟩, known, knownMember, materialized, name, apart⟩ := points
  refine ⟨?_, ?_⟩
  · obtain ⟨other, otherMember, step⟩ := grown.exists_later member
    refine ⟨other, otherMember, ?_, step.dottedPath.trans path⟩
    rcases step.kind_cases with same | ⟨_, _, bag, _⟩
    · exact same.trans kind
    · rw [kind] at bag
      cases bag
  · obtain ⟨other, otherMember, step⟩ := grown.exists_later knownMember
    exact ⟨other, otherMember, step.isMaterialized.trans materialized, step.name.trans name,
      fun same => apart (step.dottedPath.symm.trans same)⟩

/-! ## Fields -/

/-- What has become of a field of a member, among all merged entities. -/
inductive Outcome (book : RuleBook) (merged members : List Entity) (entity : Entity)
    (field : Field) : Prop
  | retained (retains : entity.Retains field)
  | pointed (points : entity.PointsFrom field)
  | inherited {start : String} (parent : entity.parent = some start)
      (covered : Covered book merged start field)
  | tolerated {member : Entity} (inGroup : member ∈ members)
      (tolerates : Tolerates book member field.dottedPath)

namespace GroupMerge

variable {members merged : List Entity}

/-- Every name and path has one place in the merged entity. All other materialized fields have
another name or path. -/
theorem exists_place (merge : GroupMerge book members merged entity) {name dottedPath : String}
    (identity : (name, dottedPath) ∈ identities merge.adopted) :
    ∃ blend ∈ merge.fields,
      mergeField book entity.name merge.adopted (name, dottedPath) = .ok blend ∧
        ∃ known ∈ entity.fields, StandsFor blend known ∧
          ∀ other ∈ entity.fields, other.isMaterialized = true →
            other = known ∨ other.name ≠ name ∨ other.dottedPath ≠ dottedPath := by
  -- Identities, merged fields and fields of the entity correspond one by one, and no identity
  -- comes twice.
  have places : List.Forall₂ (fun identity known => ∃ blend,
      mergeField book entity.name merge.adopted identity = .ok blend ∧ StandsFor blend known)
      (identities merge.adopted) entity.fields :=
    Pointwise.mono_right (fun _ blend _ given stands => ⟨blend, given, stands⟩) merge.blended
      (coalesceAliases_standsFor merge.aliases)
  obtain ⟨known, knownMember, ⟨blend, given, stands⟩, apart⟩ :=
    Pointwise.exists_right_apart places (nodup_eraseDups _) identity
  obtain ⟨same, blendMember, sameGiven⟩ := Pointwise.exists_right merge.blended identity
  obtain rfl : same = blend := Except.ok.inj (sameGiven.symm.trans given)
  refine ⟨same, blendMember, given, known, knownMember, stands, fun other member materialized => ?_⟩
  rcases apart other member with rfl | ⟨⟨otherName, otherPath⟩, _, different, blend, given, stands⟩
  · exact .inl rfl
  · obtain ⟨blendName, blendPath⟩ := mergeField_identity given
    obtain ⟨name_eq, path_eq, _⟩ :=
      Field.bare_eq_iff.mp (stands.kept_of_isMaterialized materialized)
    refine .inr (not_and_or.mp fun same => different ?_)
    rw [← same.1, ← same.2, name_eq, path_eq, blendName, blendPath]

/-- What lasts and holds of the field of a member, holds of the merged field, unless a difference is
tolerated. -/
theorem lasts (merge : GroupMerge book members merged entity) {Lasts : FieldKind → Prop}
    (lasting : Lasting Lasts) {adopted : Entity} (inAdopted : adopted ∈ merge.adopted)
    {name dottedPath : String} {blend : Field}
    (found : adopted.fieldAt? name dottedPath = some field)
    (given : mergeField book entity.name merge.adopted (name, dottedPath) = .ok blend)
    (has : Lasts field.kind) :
    Lasts blend.kind ∨ ∃ member ∈ members, Tolerates book member dottedPath := by
  rcases mergeField_lasting lasting given inAdopted found has with
    stays | ⟨other, inOther, tolerates⟩
  · exact .inl stays
  · obtain ⟨before, inBefore, step⟩ := Pointwise.exists_left merge.adoption inOther
    exact .inr ⟨before, inBefore, tolerates.of_same step.name.symm step.sourceTypes.symm⟩

/-- The first field of each name and path of a member has an outcome. -/
theorem outcome (merge : GroupMerge book members merged entity) {member : Entity}
    (inGroup : member ∈ members)
    (found : member.fieldAt? field.name field.dottedPath = some field)
    (materialized : field.isMaterialized = true) : Outcome book merged members entity field := by
  obtain ⟨adopted, inAdopted, adoption⟩ := Pointwise.exists_right merge.adoption inGroup
  rcases adoption.looked _ _ _ found with kept | ⟨start, parent, covered⟩
  case inr => exact .inherited parent covered
  obtain ⟨keptMember, _, _⟩ := fieldAt?_some kept
  obtain ⟨blend, blendMember, given, known, knownMember, stands, apart⟩ :=
    merge.exists_place (mem_identities.mpr ⟨adopted, inAdopted, field, keptMember, rfl⟩)
  obtain ⟨blendName, blendPath⟩ := mergeField_identity given
  rcases merge.lasts lasting_isMaterialized inAdopted kept given materialized with
    blendMaterialized | ⟨other, inOther, tolerates⟩
  case inr => exact .tolerated inOther tolerates
  cases stands with
  | kept same =>
    obtain ⟨name, path, kind, _⟩ := Field.bare_eq_iff.mp same
    have knownMaterialized := (Field.isMaterialized_of_bare same).trans blendMaterialized
    -- A bag keeps its entries as well, again unless a difference is tolerated.
    by_cases strict : ∃ other ∈ members, Tolerates book other field.dottedPath
    · obtain ⟨other, inOther, tolerates⟩ := strict
      exact .tolerated inOther tolerates
    · refine .retained ⟨known, knownMember, knownMaterialized, name.trans blendName,
        path.trans blendPath, fun entries bag => ?_⟩
      have holds := merge.lasts (lasting_holdsPaths entries) inAdopted kept given
        ⟨entries, bag, fun _ there => there⟩
      exact kind ▸ holds.resolve_right strict
  | pointed _ same =>
    obtain ⟨_, path, kind, _⟩ := Field.bare_eq_iff.mp same
    have points : known.kind = .coalescedAlias field.name :=
      kind.trans (congrArg FieldKind.coalescedAlias blendName)
    -- The materialized field of the name has another place, and therefore another path.
    have named := (coalesceAliases_coalesced merge.aliases).complete blend blendMember
      blendMaterialized
    obtain ⟨first, firstMember, firstMaterialized, firstName⟩ := mem_materializedNames.mp named
    refine .pointed ⟨⟨known, knownMember, points, path.trans blendPath⟩, first, firstMember,
      firstMaterialized, firstName.trans blendName, ?_⟩
    rcases apart first firstMember firstMaterialized with rfl | otherName | otherPath
    · rw [Field.isMaterialized, points] at firstMaterialized
      exact absurd firstMaterialized Bool.false_ne_true
    · exact absurd (firstName.trans blendName) otherName
    · exact otherPath

/-- An alias of the merged entity points to one of its materialized fields, or it is that of a
member. -/
theorem alias_cases (merge : GroupMerge book members merged entity) {pointer : Field}
    (inEntity : pointer ∈ entity.fields) {into : String}
    (points : pointer.kind = .coalescedAlias into) :
    into ∈ materializedNames entity.fields ∨
      ∃ member ∈ members, ∃ known ∈ member.fields, known.kind = .coalescedAlias into := by
  obtain ⟨blend, blendMember, stands⟩ :=
    Pointwise.exists_left (coalesceAliases_standsFor merge.aliases) inEntity
  cases stands with
  | pointed materialized same =>
    left
    have kind := (Field.bare_eq_iff.mp same).2.2.1
    obtain rfl : into = blend.name := FieldKind.coalescedAlias.inj (points.symm.trans kind)
    exact (coalesceAliases_coalesced merge.aliases).complete blend blendMember materialized
  | kept same =>
    right
    have blendPoints : blend.kind = .coalescedAlias into :=
      (Field.bare_eq_iff.mp same).2.2.1.symm.trans points
    obtain ⟨⟨name, dottedPath⟩, _, given⟩ := Pointwise.exists_left merge.blended blendMember
    -- Merging makes up no alias, so if no member had this one, then there would be none.
    by_contra none
    have blends : Blends fun kind _ => kind ≠ .coalescedAlias into :=
      ⟨fun _ _ _ _ _ _ _ _ _ _ _ => nofun, fun _ _ _ _ => nofun⟩
    refine (mergeField_belongs blends given fun adopted inAdopted known found => ?_).holds
      blendPoints
    obtain ⟨before, inBefore, step⟩ := Pointwise.exists_left merge.adoption inAdopted
    intro knownPoints
    exact none ⟨before, inBefore, known, step.fields known (fieldAt?_some found).1, knownPoints⟩

end GroupMerge

/-! ## All groups -/

/-- What is known of the fields and aliases of a merged entity. A field that a mark hides may be
lost if there are other members. -/
structure SurvivedFrom (book : RuleBook) (merged members : List Entity) (entity : Entity) :
    Prop where
  outcome : ∀ member ∈ members, (materializedNames member.fields).Nodup →
    ∀ field ∈ member.fields, field.isMaterialized = true →
      (1 < members.length → ¬member.Hides field) → Outcome book merged members entity field
  pointers : ∀ pointer ∈ entity.fields, ∀ into, pointer.kind = .coalescedAlias into →
    into ∈ materializedNames entity.fields ∨
      ∃ member ∈ members, ∃ known ∈ member.fields, known.kind = .coalescedAlias into

theorem Outcome.grown {merged members others : List Entity}
    (outcome : Outcome book merged members entity field) (step : GrownEntity entity later)
    (covers : ∀ start field, Covered book merged start field → Covered book others start field) :
    Outcome book others members later field := by
  cases outcome with
  | retained retains => exact .retained (retains_grown step retains)
  | pointed points => exact .pointed (pointsFrom_grown step points)
  | inherited parent covered => exact .inherited (step.parent.trans parent) (covers _ _ covered)
  | tolerated inGroup tolerates => exact .tolerated inGroup tolerates

theorem SurvivedFrom.grown {merged members others : List Entity}
    (survived : SurvivedFrom book merged members entity) (step : GrownEntity entity later)
    (covers : ∀ start field, Covered book merged start field → Covered book others start field) :
    SurvivedFrom book others members later := by
  refine ⟨fun member inGroup nodup field fieldMember materialized visible => ?_, ?_⟩
  · exact (survived.outcome member inGroup nodup field fieldMember materialized visible).grown step
      covers
  · intro pointer inLater into points
    obtain ⟨old, oldMember, grownField⟩ := step.exists_earlier inLater
    rw [step.materializedNames_eq]
    refine survived.pointers old oldMember into ?_
    rcases grownField.kind_cases with same | ⟨_, _, _, bag⟩
    · exact same.symm.trans points
    · rw [points] at bag
      cases bag

theorem survivedFrom_law (book : RuleBook) : MergeLaw book (SurvivedFrom book) := by
  refine ⟨?_, ?_, ?_, ?_⟩
  · -- A single member is the entity.
    intro merged entity
    refine ⟨fun member inGroup _ field fieldMember materialized _ => ?_, ?_⟩
    · obtain rfl := List.mem_singleton.mp inGroup
      exact .retained ⟨field, fieldMember, materialized, rfl, rfl,
        fun entries bag => ⟨entries, bag, fun _ there => there⟩⟩
    · intro pointer inEntity into points
      exact .inr ⟨entity, List.mem_singleton_self entity, pointer, inEntity, points⟩
  · -- Several members are merged.
    intro first others merged later entity several _ given
    obtain ⟨merge⟩ := exists_groupMerge given
    refine ⟨fun member inGroup nodup field fieldMember materialized visible => ?_, ?_⟩
    · have many : 1 < (first :: others).length := by
        simpa using List.length_pos_of_ne_nil several
      exact merge.outcome inGroup
        (fieldAt?_of_not_hides nodup fieldMember materialized (visible many)) materialized
    · intro pointer inEntity into points
      exact merge.alias_cases inEntity points
  · -- Groups that are merged later add to the bags of the entity and of its ancestors.
    intro merged afterwards members entity later survived grows step
    exact survived.grown step fun _ _ covered => covered.grown grows
  · intro merged members entity more survived
    exact survived.grown (.refl entity) fun _ _ covered => covered.append [more]

end Compile

end EntityGraph
