import EntityGraph.Proofs.Field
import EntityGraph.Proofs.Merge.Signatures

/-!
# Merging the fields of one name and path

Merging makes nothing up: the kind of a merged field, with the number of occurrences that belongs to
it, is that of one of the fields it was merged from. Only a reference may take its details from one
field and its occurrences from another, and the entries of bags are put together. What holds of all
the fields and survives these two, therefore holds of the merged field.
-/
namespace EntityGraph.Compile

/-! ## Two fields -/

theorem kind_of_isDropped {field : Field} (dropped : field.isDropped = true) :
    field.kind = .dropped := by
  unfold Field.isDropped at dropped
  split at dropped
  next mark => exact mark
  next => cases dropped

/-- A single value becomes a list of the same scalar. -/
inductive Widens (first other : Field) : Field × Field → Prop
  | kept : Widens first other (first, other)
  | widenedFirst {single array : ScalarRepr} (item : first.kind = .scalar single)
      (list : other.kind = .collection array) (same : (single == array) = true) :
      Widens first other ({ first with kind := other.kind, maxOccurs := other.maxOccurs }, other)
  | widenedOther {single array : ScalarRepr} (item : other.kind = .scalar single)
      (list : first.kind = .collection array) (same : (single == array) = true) :
      Widens first other (first, { other with kind := first.kind, maxOccurs := first.maxOccurs })

/-- A one-to-one reference becomes a plain reference to the same target. -/
inductive Relaxes (first other : Field) : Field × Field → Prop
  | kept : Relaxes first other (first, other)
  | relaxedFirst {target : String} {onDelete otherOnDelete : OnDelete}
      {relatedName otherName : Option String}
      (owned : first.kind = .toOne target true onDelete relatedName)
      (plain : other.kind = .toOne target false otherOnDelete otherName) :
      Relaxes first other ({ first with kind := other.kind }, other)
  | relaxedOther {target : String} {onDelete otherOnDelete : OnDelete}
      {relatedName otherName : Option String}
      (owned : other.kind = .toOne target true onDelete relatedName)
      (plain : first.kind = .toOne target false otherOnDelete otherName) :
      Relaxes first other (first, { other with kind := first.kind })

/-- A declared field takes the place of a dropped one, with a note on it. -/
inductive Restores (first other : Field) (firstType otherType : String) : Field × Field → Prop
  | kept (alike : first.isDropped = other.isDropped) :
      Restores first other firstType otherType (first, other)
  | replacedFirst (dropped : first.isDropped = true) (declared : other.isDropped = false) :
      Restores first other firstType otherType
        (other.annotate (.replacesDropped [firstType]),
          other.annotate (.replacesDropped [firstType]))
  | replacedOther (dropped : other.isDropped = true) (declared : first.isDropped = false) :
      Restores first other firstType otherType
        (first.annotate (.replacesDropped [otherType]),
          first.annotate (.replacesDropped [otherType]))

theorem widens (first other : Field) : Widens first other (widen first other) := by
  unfold widen
  split
  next single array item list =>
    split
    next same => exact .widenedFirst item list same
    next => exact .kept
  next array single list item =>
    split
    next same => exact .widenedOther item list same
    next => exact .kept
  next => exact .kept

theorem relaxes (first other : Field) : Relaxes first other (relax first other) := by
  unfold relax
  split
  next target oneToOne _ _ otherTarget otherOneToOne _ _ left right =>
    split
    next differ =>
      obtain ⟨rfl, differ⟩ := differ
      cases oneToOne with
      | true =>
        obtain rfl : otherOneToOne = false := by simpa using differ
        exact .relaxedFirst left right
      | false =>
        obtain rfl : otherOneToOne = true := by simpa using differ
        exact .relaxedOther right left
    next => exact .kept
  next => exact .kept

theorem restores (first other : Field) (firstType otherType : String) :
    Restores first other firstType otherType (restore first other firstType otherType) := by
  unfold restore
  cases dropped : first.isDropped <;> cases otherDropped : other.isDropped
  · exact .kept (dropped.trans otherDropped.symm)
  · exact .replacedOther otherDropped dropped
  · exact .replacedFirst dropped otherDropped
  · exact .kept (dropped.trans otherDropped.symm)

/-- Two fields are unified in three steps, each of which changes one of them at most. -/
theorem unify_steps (first other : Field) (firstType otherType : String) :
    ∃ widened relaxed, Widens first other widened ∧ Relaxes widened.1 widened.2 relaxed ∧
      Restores relaxed.1 relaxed.2 firstType otherType
        (unify first other firstType otherType) :=
  ⟨_, _, widens first other, relaxes _ _, restores _ _ firstType otherType⟩

/-! ## One more field -/

/-- The first of two fields, with the documentation of both. -/
def withBothTexts (fields : Field × Field) : Field :=
  { fields.1 with
    documentation :=
      Text.Documentation.squeeze (fields.1.documentation ++ fields.2.documentation) }

/-- What comes of one more field. Two bags are joined. Any other two fields are unified, and the
first of them stays, with the documentation of both: they have the same signature then, or the rules
tolerate the difference, and it is noted. -/
inductive NextMerge (book : RuleBook) (firstType : String) (merged : Field)
    (next : Entity × Field) : Field → Prop
  | joined {result : Field} (join : joinBags? merged next.2 = some result) :
      NextMerge book firstType merged next result
  | same {unified : Field × Field} (apart : joinBags? merged next.2 = none)
      (unifies : unify merged next.2 firstType (sourceLabel next.1) = unified)
      (same : signature (withBothTexts unified) = signature unified.2) :
      NextMerge book firstType merged next (withBothTexts unified)
  | tolerated {unified : Field × Field} (apart : joinBags? merged next.2 = none)
      (unifies : unify merged next.2 firstType (sourceLabel next.1) = unified)
      (tolerates : Tolerates book next.1 next.2.dottedPath) :
      NextMerge book firstType merged next ((withBothTexts unified).annotate
        (.mergeVariant [sourceLabel next.1, unified.2.kind.describe]))

theorem mergeNext_cases {book : RuleBook} {entity firstType : String} {merged result : Field}
    {next : Entity × Field} (given : mergeNext book entity firstType merged next = .ok result) :
    NextMerge book firstType merged next result := by
  obtain ⟨member, field⟩ := next
  simp only [mergeNext] at given
  split at given
  next joined join =>
    obtain rfl := Result.pure_eq_ok.mp given
    exact .joined join
  next apart =>
    split at given
    next same =>
      obtain rfl := Result.pure_eq_ok.mp given
      exact .same apart rfl same
    next =>
      obtain ⟨rules, read, given⟩ := Result.bind_eq_ok.mp given
      split at given
      next tolerated =>
        obtain rfl := Result.pure_eq_ok.mp given
        exact .tolerated apart rfl ⟨rules, read, tolerated⟩
      next => exact absurd given Result.throw_ne_ok

/-! ## Kinds and occurrences -/

/-- A property of kinds and occurrences that survives the exchange of references to one target, and
the joining of bags. -/
structure Blends (Holds : FieldKind → Schema.MaxOccurs → Prop) : Prop where
  toOne : ∀ target oneToOne onDelete relatedName otherOneToOne otherOnDelete otherName most
      otherMost,
    Holds (.toOne target oneToOne onDelete relatedName) most →
    Holds (.toOne target otherOneToOne otherOnDelete otherName) otherMost →
    Holds (.toOne target otherOneToOne otherOnDelete otherName) most
  bag : ∀ entries joined most, Holds (.jsonBag entries) most → Holds (.jsonBag joined) most

/-- A field of the name and path, with the property. -/
structure Belongs (Holds : FieldKind → Schema.MaxOccurs → Prop) (name dottedPath : String)
    (field : Field) : Prop where
  name_eq : field.name = name
  path_eq : field.dottedPath = dottedPath
  holds : Holds field.kind field.maxOccurs

variable {Holds : FieldKind → Schema.MaxOccurs → Prop} {name dottedPath : String}
  {first other : Field} {later : Field × Field}

theorem Widens.belongs (widens : Widens first other later)
    (left : Belongs Holds name dottedPath first) (right : Belongs Holds name dottedPath other) :
    Belongs Holds name dottedPath later.1 ∧ Belongs Holds name dottedPath later.2 := by
  cases widens with
  | kept => exact ⟨left, right⟩
  | widenedFirst => exact ⟨⟨left.name_eq, left.path_eq, right.holds⟩, right⟩
  | widenedOther => exact ⟨left, ⟨right.name_eq, right.path_eq, left.holds⟩⟩

theorem Relaxes.belongs (blends : Blends Holds) (relaxes : Relaxes first other later)
    (left : Belongs Holds name dottedPath first) (right : Belongs Holds name dottedPath other) :
    Belongs Holds name dottedPath later.1 ∧ Belongs Holds name dottedPath later.2 := by
  have firstHolds := left.holds
  have otherHolds := right.holds
  cases relaxes with
  | kept => exact ⟨left, right⟩
  | relaxedFirst owned plain =>
    rw [owned] at firstHolds
    rw [plain] at otherHolds
    refine ⟨⟨left.name_eq, left.path_eq, ?_⟩, right⟩
    simpa only [plain] using blends.toOne _ _ _ _ _ _ _ _ _ firstHolds otherHolds
  | relaxedOther owned plain =>
    rw [plain] at firstHolds
    rw [owned] at otherHolds
    refine ⟨left, ⟨right.name_eq, right.path_eq, ?_⟩⟩
    simpa only [plain] using blends.toOne _ _ _ _ _ _ _ _ _ otherHolds firstHolds

theorem Restores.belongs {firstType otherType : String}
    (restores : Restores first other firstType otherType later)
    (left : Belongs Holds name dottedPath first) (right : Belongs Holds name dottedPath other) :
    Belongs Holds name dottedPath later.1 ∧ Belongs Holds name dottedPath later.2 := by
  have annotated {field : Field} (belongs : Belongs Holds name dottedPath field)
      (note : MergeNote) : Belongs Holds name dottedPath (field.annotate note) :=
    ⟨belongs.name_eq, belongs.path_eq, belongs.holds⟩
  cases restores with
  | kept => exact ⟨left, right⟩
  | replacedFirst => exact ⟨annotated right _, annotated right _⟩
  | replacedOther => exact ⟨annotated left _, annotated left _⟩

theorem unify_belongs (blends : Blends Holds) (firstType otherType : String)
    (left : Belongs Holds name dottedPath first) (right : Belongs Holds name dottedPath other) :
    Belongs Holds name dottedPath (unify first other firstType otherType).1 ∧
      Belongs Holds name dottedPath (unify first other firstType otherType).2 := by
  obtain ⟨widened, relaxed, widens, relaxes, restores⟩ :=
    unify_steps first other firstType otherType
  obtain ⟨widenedLeft, widenedRight⟩ := widens.belongs left right
  obtain ⟨relaxedLeft, relaxedRight⟩ := relaxes.belongs blends widenedLeft widenedRight
  exact restores.belongs relaxedLeft relaxedRight

theorem joinBags?_belongs (blends : Blends Holds) {joined : Field}
    (left : Belongs Holds name dottedPath first) (join : joinBags? first other = some joined) :
    Belongs Holds name dottedPath joined := by
  have firstHolds := left.holds
  simp only [joinBags?] at join
  split at join
  next entries more firstKind _ =>
    rw [firstKind] at firstHolds
    cases join
    exact ⟨left.name_eq, left.path_eq, blends.bag _ _ _ firstHolds⟩
  next => cases join

theorem mergeNext_belongs (blends : Blends Holds) {book : RuleBook} {entity firstType : String}
    {merged result : Field} {next : Entity × Field}
    (left : Belongs Holds name dottedPath merged) (right : Belongs Holds name dottedPath next.2)
    (given : mergeNext book entity firstType merged next = .ok result) :
    Belongs Holds name dottedPath result := by
  cases mergeNext_cases given with
  | joined join => exact joinBags?_belongs blends left join
  | same _ unifies | tolerated _ unifies =>
    have unified := (unify_belongs blends firstType (sourceLabel next.1) left right).1
    rw [unifies] at unified
    exact ⟨unified.name_eq, unified.path_eq, unified.holds⟩

/-! ## All members -/

theorem fieldAt?_some {entity : Entity} {field : Field}
    (found : entity.fieldAt? name dottedPath = some field) :
    field ∈ entity.fields ∧ field.name = name ∧ field.dottedPath = dottedPath := by
  have holds := List.find?_some found
  simp only [Bool.and_eq_true, beq_iff_eq] at holds
  exact ⟨List.mem_of_find?_eq_some found, holds.1, holds.2⟩

theorem mem_holders {members : List Entity} {holder : Entity × Field} :
    holder ∈ holders members name dottedPath ↔
      holder.1 ∈ members ∧ holder.1.fieldAt? name dottedPath = some holder.2 := by
  obtain ⟨owner, field⟩ := holder
  simp only [holders, List.mem_filterMap, Option.map_eq_some_iff, Prod.mk.injEq]
  constructor
  · rintro ⟨member, inGroup, _, found, rfl, rfl⟩
    exact ⟨inGroup, found⟩
  · rintro ⟨inGroup, found⟩
    exact ⟨owner, inGroup, field, found, rfl, rfl⟩

/-- Some member has no field of the name and path, or has a nullable one. -/
def IsRelaxed (members : List Entity) (identity : String × String) : Prop :=
  (∃ member ∈ members, member.fieldAt? identity.1 identity.2 = none) ∨
    ∃ member ∈ members, ∃ field, member.fieldAt? identity.1 identity.2 = some field ∧
      field.nullable = true

/-- Some member has a primary key as its field of the name and path. -/
def HoldsKey (members : List Entity) (identity : String × String) : Prop :=
  ∃ member ∈ members, ∃ field, member.fieldAt? identity.1 identity.2 = some field ∧
    field.primaryKey = true

theorem any_holders_iff {members : List Entity} {identity : String × String}
    (test : Field → Bool) :
    (holders members identity.1 identity.2).any (test ·.2) = true ↔
      ∃ member ∈ members, ∃ field, member.fieldAt? identity.1 identity.2 = some field ∧
        test field = true := by
  rw [List.any_eq_true]
  constructor
  · rintro ⟨⟨member, field⟩, held, holds⟩
    obtain ⟨inGroup, found⟩ := mem_holders.mp held
    exact ⟨member, inGroup, field, found, holds⟩
  · rintro ⟨member, inGroup, field, found, holds⟩
    exact ⟨(member, field), mem_holders.mpr ⟨inGroup, found⟩, holds⟩

theorem relaxes_iff {members : List Entity} {identity : String × String} :
    (!decide ((holders members identity.1 identity.2).length = members.length) ||
      (holders members identity.1 identity.2).any (·.2.nullable)) = true ↔
      IsRelaxed members identity := by
  rw [Bool.or_eq_true, any_holders_iff Field.nullable]
  refine or_congr ?_ Iff.rfl
  rw [Bool.not_eq_true', decide_eq_false_iff_not, holders, List.filterMap_length_eq_length]
  simp

/-- The field of a member as it goes into the merge. -/
def prepared (relaxed : Bool) (holder : Entity × Field) : Entity × Field :=
  (holder.1, if relaxed then { holder.2 with nullable := true } else holder.2)

/-- Making a field nullable touches neither its name and path, nor its kind and occurrences. -/
theorem prepared_same (relaxed : Bool) (holder : Entity × Field) :
    (prepared relaxed holder).2.name = holder.2.name ∧
      (prepared relaxed holder).2.dottedPath = holder.2.dottedPath ∧
        (prepared relaxed holder).2.kind = holder.2.kind ∧
          (prepared relaxed holder).2.maxOccurs = holder.2.maxOccurs := by
  unfold prepared
  split
  · exact ⟨rfl, rfl, rfl, rfl⟩
  · exact ⟨rfl, rfl, rfl, rfl⟩

theorem prepared_notes (relaxed : Bool) (holder : Entity × Field) :
    (prepared relaxed holder).2.notes = holder.2.notes := by
  unfold prepared
  split <;> rfl

/-- What a merge of fields that succeeds has done: it has merged the fields of the holders one after
another, as nullable ones if need be, but no primary key, and has added a note to a materialized
field that some members lack. -/
structure FieldMerge (book : RuleBook) (entity : String) (members : List Entity)
    (identity : String × String) (merged : Field) where
  relaxed : Bool
  first : Entity × Field
  others : List (Entity × Field)
  blended : Field
  relaxed_iff : relaxed = true ↔ IsRelaxed members identity
  noKey : relaxed = true → ¬HoldsKey members identity
  holding : (holders members identity.1 identity.2).map (prepared relaxed) = first :: others
  folded : others.foldlM (mergeNext book entity (sourceLabel first.1)) first.2 = .ok blended
  concluded : merged =
    if (holders members identity.1 identity.2).length = members.length ∨
        blended.isMaterialized = false then blended
    else blended.annotate (presenceNote members (holders members identity.1 identity.2))

theorem FieldMerge.noted {book : RuleBook} {entity : String} {members : List Entity}
    {identity : String × String} {merged : Field}
    (merge : FieldMerge book entity members identity merged) :
    merged = merge.blended ∨ ∃ note, merged = merge.blended.annotate note := by
  have concluded := merge.concluded
  split at concluded
  · exact .inl concluded
  · exact .inr ⟨_, concluded⟩

theorem mergeField_steps {book : RuleBook} {entity : String} {members : List Entity}
    {identity : String × String} {merged : Field}
    (given : mergeField book entity members identity = .ok merged) :
    Nonempty (FieldMerge book entity members identity merged) := by
  unfold mergeField at given
  extract_lets holding everywhere relaxed fields proceed at given
  have noKey : relaxed = true → ¬HoldsKey members identity := by
    intro isRelaxed key
    have held := (any_holders_iff Field.primaryKey).mpr key
    have refused : (relaxed && holding.any (·.2.primaryKey)) = true := by
      rw [isRelaxed, Bool.true_and]
      exact held
    rw [if_pos refused] at given
    obtain ⟨_, thrown, _⟩ := Result.bind_eq_ok.mp given
    exact absurd thrown Result.throw_ne_ok
  have proceeded : proceed () = .ok merged := by
    split at given
    · obtain ⟨_, thrown, _⟩ := Result.bind_eq_ok.mp given
      exact absurd thrown Result.throw_ne_ok
    · exact given
  cases listed : fields with
  | nil =>
    simp only [proceed, listed] at proceeded
    exact absurd proceeded Result.throw_ne_ok
  | cons holder others =>
    simp only [proceed, listed] at proceeded
    obtain ⟨blended, folded, proceeded⟩ := Result.bind_eq_ok.mp proceeded
    refine ⟨⟨relaxed, holder, others, blended, relaxes_iff, noKey, listed, folded, ?_⟩⟩
    split at proceeded
    next plain =>
      rw [if_pos (by simpa [everywhere] using plain)]
      exact (Result.pure_eq_ok.mp proceeded).symm
    next partly =>
      rw [if_neg (by simpa [everywhere] using partly)]
      exact (Result.pure_eq_ok.mp proceeded).symm

/-- What every field has as it goes into the merge, and every step keeps, the merged field has. -/
theorem FieldMerge.keeps {book : RuleBook} {entity : String} {members : List Entity}
    {identity : String × String} {merged : Field}
    (merge : FieldMerge book entity members identity merged) (Keeps : Field → Prop)
    (start : ∀ holder ∈ holders members identity.1 identity.2,
      Keeps (prepared merge.relaxed holder).2)
    (step : ∀ before next after, Keeps before → Keeps next.2 →
      mergeNext book entity (sourceLabel merge.first.1) before next = .ok after → Keeps after)
    (annotate : ∀ field note, Keeps field → Keeps (field.annotate note)) : Keeps merged := by
  have all : ∀ holder ∈ merge.first :: merge.others, Keeps holder.2 := by
    intro holder member
    rw [← merge.holding] at member
    obtain ⟨held, heldMember, rfl⟩ := List.mem_map.mp member
    exact start held heldMember
  have blended : Keeps merge.blended := by
    refine Result.foldlM_induction Keeps merge.others merge.folded ?_ ?_
    · exact all merge.first List.mem_cons_self
    · intro next member before after merges kept
      exact step before next after kept (all next (List.mem_cons_of_mem _ member)) merges
  rcases merge.noted with same | ⟨note, same⟩
  · exact same ▸ blended
  · exact same ▸ annotate _ note blended

/-- What holds of the field of every member that has it, holds of the merged field. -/
theorem mergeField_belongs (blends : Blends Holds) {book : RuleBook} {entity : String}
    {members : List Entity} {merged : Field}
    (given : mergeField book entity members (name, dottedPath) = .ok merged)
    (all : ∀ member ∈ members, ∀ field, member.fieldAt? name dottedPath = some field →
      Holds field.kind field.maxOccurs) : Belongs Holds name dottedPath merged := by
  obtain ⟨merge⟩ := mergeField_steps given
  refine merge.keeps (Belongs Holds name dottedPath) ?_ ?_ ?_
  · intro holder held
    obtain ⟨inGroup, found⟩ := mem_holders.mp held
    obtain ⟨_, fieldName, path⟩ := fieldAt?_some found
    obtain ⟨sameName, samePath, kind, most⟩ := prepared_same merge.relaxed holder
    refine ⟨sameName.trans fieldName, samePath.trans path, ?_⟩
    rw [kind, most]
    exact all holder.1 inGroup holder.2 found
  · intro before next after beforeBelongs nextBelongs merges
    exact mergeNext_belongs blends beforeBelongs nextBelongs merges
  · intro field note belongs
    exact ⟨belongs.name_eq, belongs.path_eq, belongs.holds⟩

/-- The merged field has the name and path. -/
theorem mergeField_identity {book : RuleBook} {entity : String} {members : List Entity}
    {merged : Field} (given : mergeField book entity members (name, dottedPath) = .ok merged) :
    merged.name = name ∧ merged.dottedPath = dottedPath := by
  have trivially : Blends fun _ _ => True := ⟨by simp, by simp⟩
  have belongs := mergeField_belongs trivially given fun _ _ _ _ => trivial
  exact ⟨belongs.name_eq, belongs.path_eq⟩

/-! ## What is not lost -/

/-- A property of kinds that the merged field has as soon as one of the fields has it: the exchange
of kinds does not take it away, a mark of a dropped field does not have it, and fields of the same
category agree in it, unless they are bags, which are joined. -/
structure Lasting (Lasts : FieldKind → Prop) : Prop where
  widens : ∀ single array, Lasts (.scalar single) → Lasts (.collection array)
  relaxes : ∀ target oneToOne onDelete relatedName otherOneToOne otherOnDelete otherName,
    Lasts (.toOne target oneToOne onDelete relatedName) →
    Lasts (.toOne target otherOneToOne otherOnDelete otherName)
  dropped : ¬Lasts .dropped
  joins : ∀ entries more, Lasts (.jsonBag entries) ∨ Lasts (.jsonBag more) →
    Lasts (.jsonBag (Bag.merge entries more))
  compared : ∀ kind other, kind.category = other.category →
    (∀ entries, other ≠ .jsonBag entries) → Lasts other → Lasts kind

/-- A property that only depends on the category lasts, if values and lists, but no dropped fields,
have it. -/
theorem Lasting.of_category {test : FieldKind → Bool}
    (category : ∀ kind other : FieldKind, kind.category = other.category → test kind = test other)
    (widens : ∀ single array, test (.scalar single) = true → test (.collection array) = true)
    (dropped : test .dropped = false) : Lasting fun kind => test kind = true := by
  refine ⟨widens, ?_, by simp [dropped], ?_, ?_⟩
  · intro target oneToOne onDelete relatedName otherOneToOne otherOnDelete otherName lasts
    have same := category (.toOne target otherOneToOne otherOnDelete otherName)
      (.toOne target oneToOne onDelete relatedName) rfl
    exact same.trans lasts
  · intro entries more lasts
    have same (one another : Bag) := category (.jsonBag one) (.jsonBag another) rfl
    rcases lasts with left | right
    · exact (same _ entries).trans left
    · exact (same _ more).trans right
  · intro kind other same _ lasts
    rwa [category kind other same]

theorem lasting_isCollection : Lasting fun kind => kind.isCollection = true := by
  refine .of_category (fun kind other same => ?_) (fun _ _ _ => rfl) rfl
  rw [isCollection_eq_contains, isCollection_eq_contains, same]

/-- The category says whether there is a column or relation. -/
theorem isMaterialized_eq_contains (kind : FieldKind) : kind.isMaterialized =
    !(["dropped", "parent_alias", "coalesced_alias"].contains kind.category) := by
  cases kind <;> rfl

theorem lasting_isMaterialized : Lasting fun kind => kind.isMaterialized = true := by
  refine .of_category (fun kind other same => ?_) (fun _ _ _ => rfl) rfl
  rw [isMaterialized_eq_contains, isMaterialized_eq_contains, same]

/-- The kind is that of a bag with all the paths of another one. -/
def HoldsPaths (entries : Bag) (kind : FieldKind) : Prop :=
  ∃ more, kind = .jsonBag more ∧ ∀ path ∈ entries.names, path ∈ more.names

theorem lasting_holdsPaths (entries : Bag) : Lasting (HoldsPaths entries) := by
  refine ⟨?_, ?_, ?_, ?_, ?_⟩
  · rintro single array ⟨_, bag, _⟩
    cases bag
  · rintro target oneToOne onDelete relatedName otherOneToOne otherOnDelete otherName ⟨_, bag, _⟩
    cases bag
  · rintro ⟨_, bag, _⟩
    cases bag
  · intro known more lasts
    refine ⟨_, rfl, fun path there => Bag.mem_names_merge.mpr ?_⟩
    rcases lasts with ⟨_, bag, holds⟩ | ⟨_, bag, holds⟩
    · cases bag
      exact .inl (holds path there)
    · cases bag
      exact .inr (holds path there)
  · rintro kind other _ noBag ⟨more, bag, _⟩
    exact absurd bag (noBag more)

variable {Lasts : FieldKind → Prop}

/-- Of two fields, those that have the property still have it. -/
def Stay (Lasts : FieldKind → Prop) (first other : Field) (later : Field × Field) : Prop :=
  (Lasts first.kind → Lasts later.1.kind) ∧ (Lasts other.kind → Lasts later.2.kind)

theorem Stay.trans {first other : Field} {middle last : Field × Field}
    (before : Stay Lasts first other middle) (after : Stay Lasts middle.1 middle.2 last) :
    Stay Lasts first other last :=
  ⟨after.1 ∘ before.1, after.2 ∘ before.2⟩

theorem Widens.stay (lasting : Lasting Lasts) {first other : Field} {later : Field × Field}
    (widens : Widens first other later) : Stay Lasts first other later := by
  cases widens with
  | kept => exact ⟨id, id⟩
  | widenedFirst item list =>
    refine ⟨fun lasts => ?_, id⟩
    rw [item] at lasts
    simpa only [list] using lasting.widens _ _ lasts
  | widenedOther item list =>
    refine ⟨id, fun lasts => ?_⟩
    rw [item] at lasts
    simpa only [list] using lasting.widens _ _ lasts

theorem Relaxes.stay (lasting : Lasting Lasts) {first other : Field} {later : Field × Field}
    (relaxes : Relaxes first other later) : Stay Lasts first other later := by
  cases relaxes with
  | kept => exact ⟨id, id⟩
  | relaxedFirst owned plain =>
    refine ⟨fun lasts => ?_, id⟩
    rw [owned] at lasts
    simpa only [plain] using lasting.relaxes _ _ _ _ _ _ _ lasts
  | relaxedOther owned plain =>
    refine ⟨id, fun lasts => ?_⟩
    rw [owned] at lasts
    simpa only [plain] using lasting.relaxes _ _ _ _ _ _ _ lasts

theorem isDropped_of_isMaterialized {field : Field} (materialized : field.isMaterialized = true) :
    field.isDropped = false := by
  by_contra dropped
  rw [Field.isMaterialized, kind_of_isDropped (Bool.not_eq_false _ ▸ dropped)] at materialized
  cases materialized

theorem Restores.stay (lasting : Lasting Lasts) {first other : Field} {later : Field × Field}
    {firstType otherType : String} (restores : Restores first other firstType otherType later) :
    Stay Lasts first other later := by
  have absent {field : Field} (dropped : field.isDropped = true) : ¬Lasts field.kind :=
    kind_of_isDropped dropped ▸ lasting.dropped
  cases restores with
  | kept => exact ⟨id, id⟩
  | replacedFirst dropped => exact ⟨fun lasts => absurd lasts (absent dropped), id⟩
  | replacedOther dropped => exact ⟨id, fun lasts => absurd lasts (absent dropped)⟩

theorem unify_stay (lasting : Lasting Lasts) (first other : Field)
    (firstType otherType : String) :
    Stay Lasts first other (unify first other firstType otherType) := by
  obtain ⟨widened, relaxed, widens, relaxes, restores⟩ :=
    unify_steps first other firstType otherType
  exact (widens.stay lasting).trans ((relaxes.stay lasting).trans (restores.stay lasting))

theorem Widens.bag {first other : Field} {later : Field × Field} {entries : Bag}
    (widens : Widens first other later) :
    (later.1.kind = .jsonBag entries → first.kind = .jsonBag entries) ∧
      (later.2.kind = .jsonBag entries → other.kind = .jsonBag entries) := by
  cases widens with
  | kept => exact ⟨id, id⟩
  | widenedFirst _ list => exact ⟨fun bag => by simp [list] at bag, id⟩
  | widenedOther _ list => exact ⟨id, fun bag => by simp [list] at bag⟩

theorem Relaxes.bag {first other : Field} {later : Field × Field} {entries : Bag}
    (relaxes : Relaxes first other later) :
    (later.1.kind = .jsonBag entries → first.kind = .jsonBag entries) ∧
      (later.2.kind = .jsonBag entries → other.kind = .jsonBag entries) := by
  cases relaxes with
  | kept => exact ⟨id, id⟩
  | relaxedFirst _ plain => exact ⟨fun bag => by simp [plain] at bag, id⟩
  | relaxedOther _ plain => exact ⟨id, fun bag => by simp [plain] at bag⟩

/-- Unless both fields are bags, they are so afterwards only if one has replaced the other. -/
theorem unify_bags {first other : Field} (apart : joinBags? first other = none)
    {firstType otherType : String} {entries more : Bag}
    (left : (unify first other firstType otherType).1.kind = .jsonBag entries)
    (right : (unify first other firstType otherType).2.kind = .jsonBag more) : entries = more := by
  obtain ⟨widened, relaxed, widens, relaxes, restores⟩ :=
    unify_steps first other firstType otherType
  generalize unify first other firstType otherType = later at left right restores
  cases restores with
  | kept =>
    have firstBag := widens.bag.1 (relaxes.bag.1 left)
    have otherBag := widens.bag.2 (relaxes.bag.2 right)
    exact absurd otherBag (not_bags_of_joinBags? apart firstBag)
  | replacedFirst | replacedOther => exact FieldKind.jsonBag.inj (left.symm.trans right)

/-- If one of two fields has a property that lasts, then so does the merged one, unless the
difference is tolerated. -/
theorem mergeNext_lasting (lasting : Lasting Lasts) {book : RuleBook} {entity firstType : String}
    {merged result : Field} {next : Entity × Field}
    (given : mergeNext book entity firstType merged next = .ok result)
    (lasts : Lasts merged.kind ∨ Lasts next.2.kind) :
    Lasts result.kind ∨ Tolerates book next.1 next.2.dottedPath := by
  cases mergeNext_cases given with
  | joined join =>
    obtain ⟨entries, more, left, right, rfl⟩ := bags_of_joinBags? join
    refine .inl (lasting.joins entries more ?_)
    rwa [← left, ← right]
  | @same unified apart unifies same =>
    -- The two forms that are compared agree in their category.
    have stay := unify_stay lasting merged next.2 firstType (sourceLabel next.1)
    have agree := category_eq_of_signature same
    rw [unifies] at stay
    refine .inl ?_
    rcases lasts with lasts | lasts
    · exact stay.1 lasts
    · have lastsOther := stay.2 lasts
      cases bag : unified.2.kind with
      | jsonBag more =>
        cases firstBag : unified.1.kind with
        | jsonBag entries =>
          obtain rfl := unify_bags apart (unifies ▸ firstBag) (unifies ▸ bag)
          rw [bag] at lastsOther
          rwa [withBothTexts, firstBag]
        | _ => simp [withBothTexts, FieldKind.category, bag, firstBag] at agree
      | _ =>
        refine lasting.compared _ _ agree (fun entries => ?_) lastsOther
        simp [bag]
  | tolerated _ _ tolerates => exact .inr tolerates

theorem foldlM_mergeNext_lasting (lasting : Lasting Lasts) {book : RuleBook}
    {entity firstType : String} {others : List (Entity × Field)} {start result : Field}
    (given : others.foldlM (mergeNext book entity firstType) start = .ok result)
    (lasts : Lasts start.kind ∨ ∃ holder ∈ others, Lasts holder.2.kind) :
    Lasts result.kind ∨ ∃ holder ∈ others, Tolerates book holder.1 holder.2.dottedPath := by
  induction others generalizing start with
  | nil =>
    rw [List.foldlM_nil] at given
    obtain rfl := Result.pure_eq_ok.mp given
    simpa using lasts
  | cons holder rest ih =>
    rw [List.foldlM_cons] at given
    obtain ⟨middle, step, given⟩ := Result.bind_eq_ok.mp given
    -- What lasts is in the field so far, in the next one or in a later one.
    have later (lasts : Lasts middle.kind ∨ ∃ other ∈ rest, Lasts other.2.kind) :
        Lasts result.kind ∨
          ∃ other ∈ holder :: rest, Tolerates book other.1 other.2.dottedPath := by
      rcases ih given lasts with lasts | ⟨other, member, tolerates⟩
      · exact .inl lasts
      · exact .inr ⟨other, List.mem_cons_of_mem _ member, tolerates⟩
    have here (lasts : Lasts start.kind ∨ Lasts holder.2.kind) :
        Lasts result.kind ∨
          ∃ other ∈ holder :: rest, Tolerates book other.1 other.2.dottedPath := by
      rcases mergeNext_lasting lasting step lasts with lasts | tolerates
      · exact later (.inl lasts)
      · exact .inr ⟨holder, List.mem_cons_self, tolerates⟩
    rcases lasts with lasts | ⟨other, member, lasts⟩
    · exact here (.inl lasts)
    · rcases List.mem_cons.mp member with rfl | inRest
      · exact here (.inr lasts)
      · exact later (.inr ⟨other, inRest, lasts⟩)

/-- If the field of one member has a property that lasts, then so does the merged one, unless the
rules of a member tolerate a difference. -/
theorem mergeField_lasting (lasting : Lasting Lasts) {book : RuleBook} {entity : String}
    {members : List Entity} {merged : Field}
    (given : mergeField book entity members (name, dottedPath) = .ok merged)
    {member : Entity} (inGroup : member ∈ members) {field : Field}
    (found : member.fieldAt? name dottedPath = some field) (lasts : Lasts field.kind) :
    Lasts merged.kind ∨ ∃ other ∈ members, Tolerates book other dottedPath := by
  obtain ⟨merge⟩ := mergeField_steps given
  have among : prepared merge.relaxed (member, field) ∈ merge.first :: merge.others := by
    rw [← merge.holding]
    exact List.mem_map_of_mem (mem_holders.mpr ⟨inGroup, found⟩)
  have some : Lasts merge.first.2.kind ∨ ∃ holder ∈ merge.others, Lasts holder.2.kind := by
    have prepares : Lasts (prepared merge.relaxed (member, field)).2.kind :=
      (prepared_same _ (member, field)).2.2.1 ▸ lasts
    rcases List.mem_cons.mp among with first | other
    · exact .inl (first ▸ prepares)
    · exact .inr ⟨_, other, prepares⟩
  rcases foldlM_mergeNext_lasting lasting merge.folded some with
    blended | ⟨holder, other, tolerates⟩
  · left
    rcases merge.noted with same | ⟨note, same⟩
    · exact same ▸ blended
    · exact same ▸ blended
  · right
    have listed : holder ∈ merge.first :: merge.others := List.mem_cons_of_mem _ other
    rw [← merge.holding] at listed
    obtain ⟨held, heldMember, rfl⟩ := List.mem_map.mp listed
    obtain ⟨heldGroup, heldFound⟩ := mem_holders.mp heldMember
    rw [(prepared_same _ held).2.1, (fieldAt?_some heldFound).2.2] at tolerates
    exact ⟨held.1, heldGroup, tolerates⟩

end EntityGraph.Compile
