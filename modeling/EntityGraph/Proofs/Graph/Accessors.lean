import EntityGraph.Proofs.Graph.Entities
import EntityGraph.Proofs.Graph.Survival

/-!
# The names of other ends

Two references of one kind from an entity to one target need different names for their other ends.
When a field is added to the entity of a type path, it gets a name of its own there if another field
is like it, so that at most one of them is left without. No name is given when type paths are
merged: the fields of the merged entity keep the names that they were built with, and two that have
never met before may both be without one. The other ends of relations to owned rows have the name of
the relation, whatever the names of the rest are.
-/
namespace EntityGraph

open Compile

/-! ## References -/

namespace FieldKind

/-- The name for the other end of a reference. -/
def relatedName? : FieldKind → Option String
  | toOne _ _ _ relatedName | manyToMany _ relatedName => relatedName
  | _ => none

/-- The target of a reference to rows that other rows may refer to as well, and whether there are
many of them. -/
def shared? : FieldKind → Option (String × Bool)
  | toOne target oneToOne _ _ => if oneToOne then none else some (target, false)
  | manyToMany target _ => some (target, true)
  | _ => none

/-- Two plain references, or two many-to-many ones, with the same target. -/
def IsLike (kind other : FieldKind) : Prop :=
  kind.shared?.isSome = true ∧ other.shared? = kind.shared?

instance (kind other : FieldKind) : Decidable (kind.IsLike other) :=
  inferInstanceAs (Decidable (_ ∧ _))

variable {kind other : FieldKind} {relatedName : Option String}

theorem isMaterialized_of_shared? (shared : kind.shared?.isSome = true) :
    kind.isMaterialized = true := by
  cases kind <;> first | rfl | cases shared

theorem shared?_setRelatedName : (setRelatedName relatedName kind).shared? = kind.shared? := by
  cases relatedName <;> cases kind <;> rfl

/-- A name that is set takes the place of the one that is there. -/
theorem relatedName?_setRelatedName (shared : kind.shared?.isSome = true) :
    (setRelatedName relatedName kind).relatedName? = (relatedName <|> kind.relatedName?) := by
  cases relatedName <;> cases kind <;> first | rfl | cases shared

theorem eq_some_of_relatedName?_setRelatedName {name : String}
    (named : (setRelatedName relatedName kind).relatedName? = some name) :
    relatedName = some name ∨ kind.relatedName? = some name := by
  cases relatedName <;> cases kind <;> simp_all [setRelatedName, relatedName?]

theorem relatedName?_mapRepr (change : ScalarRepr → ScalarRepr) :
    (kind.mapRepr change).relatedName? = kind.relatedName? := by
  cases kind <;> rfl

theorem IsLike.symm (like : kind.IsLike other) : other.IsLike kind :=
  ⟨like.2 ▸ like.1, like.2.symm⟩

/-- Fields that are like each other are rivals. -/
theorem IsLike.rivals (like : kind.IsLike other) :
    other.category = kind.category ∧ ∃ target, other.target? = some target ∧
      (kind.relatedName? = none → unnamedTarget? kind = some target) := by
  obtain ⟨shared, same⟩ := like
  cases kind <;> simp only [shared?, Option.isSome_none, Bool.false_eq_true] at shared
  case toOne target oneToOne onDelete name =>
    -- A one-to-one reference shares its row with no other.
    cases oneToOne <;> simp only [if_true, Option.isSome_none, Bool.false_eq_true] at shared
    cases other <;> simp [shared?] at same
    obtain ⟨_, rfl⟩ := same
    refine ⟨rfl, _, rfl, fun unnamed => ?_⟩
    obtain rfl : name = none := unnamed
    rfl
  case manyToMany target name =>
    cases other <;> simp [shared?] at same
    obtain rfl := same
    refine ⟨rfl, _, rfl, fun unnamed => ?_⟩
    obtain rfl : name = none := unnamed
    rfl

end FieldKind

/-! ## Settings that name no other end -/

/-- The options give no name for the other end of a field. -/
def EntityOptions.NamesNoOtherEnd (options : EntityOptions) : Prop :=
  ∀ override ∈ options.fieldOptions, override.relatedName = Option.none

instance : DecidablePred EntityOptions.NamesNoOtherEnd := fun options =>
  inferInstanceAs (Decidable (∀ override ∈ options.fieldOptions, override.relatedName = none))

namespace Compile

theorem namesNoOtherEnd_layers : Layers EntityOptions.NamesNoOtherEnd where
  none := by
    intro override member
    simp only [EntityOptions.none, List.not_mem_nil] at member
  layered := by
    intro primary fallback upper lower override member
    simp only [EntityOptions.layered] at member
    rcases EntityOptions.mem_union member with own | other
    · exact upper override own
    · exact lower override other

/-! ## Fields that are added -/

theorem withKind_relatedName? {context : Context} {rules : FieldRules} {field : Field}
    (unnamed : field.kind.relatedName? = none) :
    (withKind context rules field).kind.relatedName? = none := by
  have sized (change : ScalarRepr → ScalarRepr) :
      (documentChoices { field with kind := field.kind.mapRepr change }).kind.relatedName? =
        none := by
    rw [documentChoices_kind, FieldKind.relatedName?_mapRepr, unnamed]
  unfold withKind overrideKind
  split
  · exact sized _
  · split
    · exact (FieldKind.relatedName?_mapRepr _).trans (sized _)
    · rfl

/-- Options that name no other end leave it without a name. -/
theorem finishField_relatedName? {context : Context} {scope : Scope}
    {text primitive : Option String} {field final : Field}
    (finished : finishField context scope text primitive field = .ok final)
    (plain : scope.rules.options.NamesNoOtherEnd) (unnamed : field.kind.relatedName? = none) :
    final.kind.relatedName? = none := by
  obtain ⟨_, _, defaulted, _, set, given, _⟩ := finishField_steps finished
  have keyed : (setKeys scope.rules defaulted).kind.relatedName? = none := by
    obtain ⟨_, rfl⟩ := setDefault_eq set
    rw [setKeys_kind, FieldKind.relatedName?_mapRepr]
    exact withKind_relatedName? unnamed
  rcases given with rfl | ⟨options, _, given, override⟩
  · exact keyed
  · obtain ⟨last, set, override⟩ := Result.bind_eq_ok.mp override
    obtain ⟨_, rfl⟩ := setDefault_eq set
    obtain rfl := Result.pure_eq_ok.mp override
    have noName : options.relatedName = none := plain options (List.mem_of_find?_eq_some given)
    -- Without a name in the options, the override changes the scalar of the field at most.
    simp only [noName, setRelatedName, FieldKind.relatedName?_mapRepr]
    exact keyed

/-- The field refers back, as the other end of a relation to owned rows. -/
def IsBackOf (relation : String) (field : Field) : Prop :=
  ∃ owner oneToOne, field.dottedPath = "" ∧
    field.kind = .toOne owner oneToOne .cascade (some relation)

theorem IsBackOf.of_bare {relation : String} {field other : Field} (back : IsBackOf relation field)
    (same : other.bare = field.bare) : IsBackOf relation other := by
  obtain ⟨owner, oneToOne, path, kind⟩ := back
  obtain ⟨_, samePath, sameKind, _⟩ := Field.bare_eq_iff.mp same
  exact ⟨owner, oneToOne, samePath.trans path, sameKind.trans kind⟩

/-- Drafts leave the other end without a name. -/
theorem Draft.relatedName? {context : Context} {state : State} {scope : Scope} {draft : Field}
    (drafted : Draft context state scope draft) : draft.kind.relatedName? = none := by
  cases drafted with
  | @value _ kind _ value _ =>
    cases kind with
    | toOne target oneToOne onDelete name =>
      cases name with
      | none => rfl
      | some name => exact value.elim
    | manyToMany => exact value.elim
    | _ => rfl
  | reverseOneToMany | reverseOneToOne | manyToMany => rfl

/-- A field comes without a name for its other end, or it refers back and gets no other one. -/
def ComesUnnamed (state : State) (path : String) (field : Field) : Prop :=
  field.kind.relatedName? = none ∨
    reverseName? state path field = none ∧ ∃ relation,
      field.kind.relatedName? = some relation ∧ IsBackOf relation field

theorem Origin.comesUnnamed {context : Context} {state : State} {scope : Scope} {field : Field}
    (origin : Origin context state scope field) (plain : scope.rules.options.NamesNoOtherEnd)
    (path : String) : ComesUnnamed state path field := by
  cases origin with
  | dropped | parentAlias | content | bag => exact .inl rfl
  | finished drafted finished =>
    exact .inl (finishField_relatedName? finished plain drafted.relatedName?)
  | @back _ owner relation name oneToOne _ =>
    exact .inr ⟨reverseName?_backReference _ _ _ _ _, relation, rfl, owner, oneToOne, rfl, rfl⟩
  | extra _ asked => cases asked <;> exact .inl rfl

/-! ## The name that a field gets -/

/-- The name that the other end of a field gets if the entity has another field like it. -/
def accessorFor (entity name : String) : String := Text.snakeCase entity ++ "_as_" ++ name

theorem accessorFor_inj {entity name other : String} :
    accessorFor entity name = accessorFor entity other ↔ name = other :=
  String.append_right_inj _

section Added

variable {state : State} {path name : String} {entity : Entity} {field : Field}

theorem accessorName?_eq {target : String} (found : state.entities.get? path = some entity)
    (unnamed : unnamedTarget? field.kind = some target) :
    accessorName? state path field =
      if (ancestors state (state.entities.length + 1) entity).any
          (·.fields.any (isRival field target)) then some (accessorFor entity.name field.name)
      else none := by
  simp only [accessorName?, unnamed, found, Option.bind_eq_bind, Option.bind_some, accessorFor]

theorem eq_accessorFor_of_reverseName? (found : state.entities.get? path = some entity)
    (given : reverseName? state path field = some name) :
    name = accessorFor entity.name field.name := by
  unfold reverseName? at given
  split at given
  · cases unnamed : unnamedTarget? field.kind with
    | none => simp [accessorName?, unnamed] at given
    | some target =>
      rw [accessorName?_eq found unnamed] at given
      split at given
      · exact (Option.some.inj given).symm
      · cases given
  · cases given

theorem isLike_withRelatedName {relatedName : Option String} {kind : FieldKind} :
    (withRelatedName field relatedName).kind.IsLike kind ↔ field.kind.IsLike kind := by
  rw [withRelatedName, FieldKind.IsLike, FieldKind.shared?_setRelatedName, FieldKind.IsLike]

/-- A field that is left without a name is like no other field of the entity. -/
theorem not_isLike_of_unnamed (found : state.entities.get? path = some entity)
    (unnamed : (withRelatedName field (reverseName? state path field)).kind.relatedName? = none)
    {known : Field} (member : known ∈ entity.fields) (different : known.name ≠ field.name) :
    ¬(withRelatedName field (reverseName? state path field)).kind.IsLike known.kind := by
  rw [isLike_withRelatedName]
  intro like
  rw [withRelatedName, FieldKind.relatedName?_setRelatedName like.1] at unnamed
  obtain ⟨notGiven, bare⟩ := (Option.orElse_eq_none _ _).mp unnamed
  have materialized : field.isMaterialized = true := FieldKind.isMaterialized_of_shared? like.1
  have knownMaterialized : known.isMaterialized = true :=
    FieldKind.isMaterialized_of_shared? like.symm.1
  obtain ⟨category, target, knownTarget, free⟩ := like.rivals
  -- The two are rivals, so the field has got a name.
  have rival : isRival field target known = true := by
    simp [isRival, knownMaterialized, different, category, knownTarget]
  have own : entity.fields.any (isRival field target) = true :=
    List.any_eq_true.mpr ⟨known, member, rival⟩
  have rivals : (ancestors state (state.entities.length + 1) entity).any
      (·.fields.any (isRival field target)) = true :=
    List.any_eq_true.mpr ⟨entity, List.mem_cons_self, own⟩
  rw [reverseName?, if_pos materialized, accessorName?_eq found (free bare), if_pos rivals]
    at notGiven
  cases notGiven

theorem withRelatedName_none : withRelatedName field none = field := by
  simp [withRelatedName, setRelatedName]

/-- The name that an added field has for its other end was made for it, or it refers back. -/
theorem ComesUnnamed.named (comes : ComesUnnamed state path field)
    (found : state.entities.get? path = some entity)
    (given : (withRelatedName field (reverseName? state path field)).kind.relatedName? =
      some name) :
    name = accessorFor entity.name field.name ∨
      IsBackOf name (withRelatedName field (reverseName? state path field)) := by
  rcases comes with unnamed | ⟨notGiven, relation, named, back⟩
  · rcases FieldKind.eq_some_of_relatedName?_setRelatedName given with made | own
    · exact .inl (eq_accessorFor_of_reverseName? found made)
    · rw [unnamed] at own
      cases own
  · rw [notGiven, withRelatedName_none] at given ⊢
    obtain rfl := Option.some.inj (named.symm.trans given)
    exact .inr back

/-! ## What every step keeps -/

/-- The other ends of the fields of an entity are told apart: a name is made for the field, unless
the field refers back, and of two fields that are like each other one has a name. -/
structure TellsApart (entity : Entity) : Prop where
  named : ∀ field ∈ entity.fields, ∀ name, field.kind.relatedName? = some name →
    name = accessorFor entity.name field.name ∨ IsBackOf name field
  unnamed : ∀ first ∈ entity.fields, ∀ second ∈ entity.fields, first.name ≠ second.name →
    first.kind.IsLike second.kind → first.kind.relatedName? = none →
      second.kind.relatedName? ≠ none

/-- In entities of one name, the other ends of fields of two names are called differently, unless
one of the fields refers back. -/
theorem TellsApart.isBackOf {other : Entity} (apart : TellsApart entity)
    (alsoApart : TellsApart other) (sameEntity : other.name = entity.name) {first second : Field}
    (member : first ∈ entity.fields) (otherMember : second ∈ other.fields)
    (different : first.name ≠ second.name) (given : first.kind.relatedName? = some name)
    (alsoGiven : second.kind.relatedName? = some name) :
    IsBackOf name first ∨ IsBackOf name second := by
  rcases apart.named first member name given with own | back
  · rcases alsoApart.named second otherMember name alsoGiven with otherOwn | back
    · rw [sameEntity] at otherOwn
      exact absurd (accessorFor_inj.mp (own.symm.trans otherOwn)) different
    · exact .inr back
  · exact .inl back

theorem TellsApart.of_no_fields (none : entity.fields = []) : TellsApart entity := by
  constructor
  · intro field member
    rw [none] at member
    cases member
  · intro first member
    rw [none] at member
    cases member

theorem TellsApart.of_same_fields {later : Entity} (apart : TellsApart entity)
    (sameName : later.name = entity.name) (fields : later.fields = entity.fields) :
    TellsApart later := by
  constructor
  · rw [fields, sameName]
    exact apart.named
  · rw [fields]
    exact apart.unnamed

/-- An entity still tells its fields apart when it has taken in another one. -/
theorem TellsApart.of_insertion {old : Entity} (apart : TellsApart old)
    (found : state.entities.get? path = some old) (comes : ComesUnnamed state path field)
    (insertion : Insertion old (withRelatedName field (reverseName? state path field)) entity) :
    TellsApart entity := by
  have sameName : entity.name = old.name := by rw [insertion.eq_with_fields]
  constructor
  · intro known member name given
    rw [sameName]
    rcases insertion.placed.cases_of_mem member with ⟨first, firstMember, same⟩ | rfl | ⟨_, rfl⟩
    · obtain ⟨knownName, _, kind, _⟩ := Field.bare_eq_iff.mp same
      rw [knownName]
      rw [kind] at given
      exact (apart.named first firstMember name given).imp_right fun back => back.of_bare same
    · exact comes.named found given
    · cases given
  · -- An alias is like no other field.
    have origin {kept : Field} (member : kept ∈ entity.fields)
        (shared : kept.kind.shared?.isSome = true) :
        (∃ known ∈ old.fields, known.name = kept.name ∧ known.kind = kept.kind) ∨
          kept = withRelatedName field (reverseName? state path field) := by
      rcases insertion.placed.cases_of_mem member with ⟨known, knownMember, same⟩ | new | ⟨_, rfl⟩
      · obtain ⟨name, _, kind, _⟩ := Field.bare_eq_iff.mp same
        exact .inl ⟨known, knownMember, name.symm, kind.symm⟩
      · exact .inr new
      · cases shared
    intro first member second otherMember different like unnamed otherUnnamed
    rcases origin member like.1 with ⟨known, knownMember, name, kind⟩ | rfl
    · rcases origin otherMember like.symm.1 with ⟨other, knownOther, otherName, otherKind⟩ | rfl
      · rw [← name, ← otherName] at different
        rw [← kind] at like unnamed
        rw [← otherKind] at like otherUnnamed
        exact apart.unnamed known knownMember other knownOther different like unnamed otherUnnamed
      · rw [← name] at different
        rw [← kind] at like
        exact not_isLike_of_unnamed found otherUnnamed knownMember different like.symm
    · rcases origin otherMember like.symm.1 with ⟨other, knownOther, otherName, otherKind⟩ | rfl
      · rw [← otherName] at different
        rw [← otherKind] at like
        exact not_isLike_of_unnamed found unnamed knownOther different.symm like
      · exact absurd rfl different

end Added

/-- Every step keeps the other ends of all entities apart, if no rules name them. -/
theorem Step.tellsApart_kept {context : Context} {before after : Progress}
    (plain : ∀ entity path rules, context.book.forType entity path = .ok rules →
      rules.options.NamesNoOtherEnd) (step : Step context before after)
    (apart : ∀ path entity, before.state.entities.get? path = some entity → TellsApart entity) :
    ∀ path entity, after.state.entities.get? path = some entity → TellsApart entity := by
  intro path entity found
  cases step.fieldSource found with
  | empty fields => exact .of_no_fields fields
  | @same old foundOld fields =>
    -- Whatever else the step has done to the entity, it has kept its name.
    obtain ⟨later, foundLater, extends_⟩ := step.touches.keeps foundOld
    obtain rfl := Option.some.inj (foundLater.symm.trans found)
    exact (apart path old foundOld).of_same_fields extends_.name fields
  | @added old scope offered relatedName foundOld added insertion related =>
    subst related
    have given := plain scope.entity scope.typePath scope.rules added.fits.rules
    exact (apart path old foundOld).of_insertion foundOld (added.origin.comesUnnamed given path)
      insertion

/-- At every type path the other ends are told apart, if the settings do not name them. -/
theorem Construction.tellsApart {index : Schema.Index} {settings : Settings} {book : RuleBook}
    {state : State} (construction : Construction index settings book state)
    (read : RuleBook.ofSettings settings = .ok book)
    (plain : settings.EveryOptions EntityOptions.NamesNoOtherEnd) {path : String} {entity : Entity}
    (found : state.entities.get? path = some entity) : TellsApart entity := by
  have given : ∀ entity path rules, construction.context.book.forType entity path = .ok rules →
      rules.options.NamesNoOtherEnd := by
    intro entity path rules ruled
    rw [construction.book_eq] at ruled
    exact rules_of_layers namesNoOtherEnd_layers read plain ruled
  refine construction.holds (fun progress => ∀ path entity,
    progress.state.entities.get? path = some entity → TellsApart entity) ?_ ?_ path entity found
  · intro resolver path entity found
    cases found
  · intro before after step apart
    exact step.tellsApart_kept given apart

end Compile

/-! ## The graph -/

namespace Stages

variable {index : Schema.Index} {settings : Settings} {graph : Graph} {levels : Nat}

/-- A field of the name and kind was built at a type path. -/
def Gives (stages : Stages index settings graph levels) (path : String) (field : Field) : Prop :=
  ∃ built, stages.state.entities.get? path = some built ∧
    ∃ known ∈ built.fields, known.name = field.name ∧ known.kind = field.kind

/-- The two fields have met in a merge, since no type path has given both, and neither of them has
a name for its other end. -/
structure MetUnnamed (stages : Stages index settings graph levels) (entity : Entity)
    (first second : Field) : Prop where
  unnamed : first.kind.relatedName? = none ∧ second.kind.relatedName? = none
  given : ∃ path ∈ entity.sourceTypes, ∃ other ∈ entity.sourceTypes, path ≠ other ∧
    stages.Gives path first ∧ stages.Gives other second
  apart : ∀ path, stages.Gives path first → ¬stages.Gives path second

/-- At a type path of the entity, a field of the name is the other end of a relation to owned
rows. -/
def RefersBackBy (stages : Stages index settings graph levels) (entity : Entity)
    (name relation : String) : Prop :=
  ∃ path ∈ entity.sourceTypes, ∃ built, stages.state.entities.get? path = some built ∧
    ∃ owner, RefersBack built owner relation name false

variable {entity : Entity} {field : Field}

/-- Kinds are taken over as they are, except that the entries of bags are put together. -/
theorem blends_of_kind (Holds : FieldKind → Prop) :
    Blends fun kind _ => (∃ entries, kind = .jsonBag entries) ∨ Holds kind := by
  constructor
  · intro target oneToOne onDelete relatedName otherOneToOne otherOnDelete otherName _ _ _ other
    exact other
  · intro entries joined _ _
    exact .inl ⟨joined, rfl⟩

/-- A merged reference is one that was built at a type path. -/
theorem exists_given (stages : Stages index settings graph levels)
    (member : entity ∈ graph.entities) (fieldMember : field ∈ entity.fields)
    (shared : field.kind.shared?.isSome = true) :
    ∃ path ∈ entity.sourceTypes, stages.Gives path field := by
  have materialized : field.isMaterialized = true := FieldKind.isMaterialized_of_shared? shared
  have taken := stages.blended member fieldMember materialized
    (blends_of_kind fun kind => ∃ path ∈ entity.sourceTypes, ∃ built,
      stages.state.entities.get? path = some built ∧
        ∃ known ∈ built.fields, known.name = field.name ∧ known.kind = kind)
    (fun path built found _ source known knownMember name =>
      .inr ⟨path, source, built, found, known, knownMember, name, rfl⟩)
  rcases taken with ⟨entries, bag⟩ | ⟨path, source, built, found, known, knownMember, name, kind⟩
  · rw [bag] at shared
    cases shared
  · exact ⟨path, source, built, found, known, knownMember, name, kind⟩

/-- A type path of an entity has what was built for the entity. -/
theorem name_of_source (stages : Stages index settings graph levels)
    (member : entity ∈ graph.entities) {path : String} (source : path ∈ entity.sourceTypes)
    {built : Entity} (found : stages.state.entities.get? path = some built) :
    built.name = entity.name := by
  obtain ⟨other, foundOther, named⟩ := (stages.mem_sourceTypes_iff member).mp source
  obtain rfl := Option.some.inj (found.symm.trans foundOther)
  exact named

theorem refersBackBy_of_isBackOf (stages : Stages index settings graph levels)
    {path relation : String} (source : path ∈ entity.sourceTypes) {built : Entity}
    (found : stages.state.entities.get? path = some built) {known : Field}
    (knownMember : known ∈ built.fields) (shared : known.kind.shared?.isSome = true)
    (back : IsBackOf relation known) : stages.RefersBackBy entity known.name relation := by
  obtain ⟨owner, oneToOne, root, kind⟩ := back
  -- Rows of a one-to-one relation are not shared.
  cases oneToOne with
  | true =>
    rw [kind] at shared
    cases shared
  | false => exact ⟨path, source, built, found, owner, known, knownMember, rfl, root, kind⟩

/-- Two fields of an entity that are like each other, and have other ends of one name, have met
unnamed in a merge, or one of them refers back. -/
theorem met_or_refersBack (stages : Stages index settings graph levels)
    (plain : settings.EveryOptions EntityOptions.NamesNoOtherEnd) (member : entity ∈ graph.entities)
    {first second : Field} (firstMember : first ∈ entity.fields)
    (secondMember : second ∈ entity.fields) (different : first.name ≠ second.name)
    (like : first.kind.IsLike second.kind)
    (same : first.kind.relatedName? = second.kind.relatedName?) :
    stages.MetUnnamed entity first second ∨ ∃ relation, first.kind.relatedName? = some relation ∧
      (stages.RefersBackBy entity first.name relation ∨
        stages.RefersBackBy entity second.name relation) := by
  obtain ⟨construction⟩ := stages.construction
  have apart {path : String} {built : Entity}
      (found : stages.state.entities.get? path = some built) : TellsApart built :=
    construction.tellsApart stages.book_read plain found
  obtain ⟨path, source, gives⟩ := stages.exists_given member firstMember like.1
  obtain ⟨other, otherSource, alsoGives⟩ := stages.exists_given member secondMember like.symm.1
  cases given : first.kind.relatedName? with
  | none =>
    -- A type path with both fields would have named one of them.
    have never : ∀ path, stages.Gives path first → ¬stages.Gives path second := by
      rintro path ⟨built, found, known, knownMember, knownName, knownKind⟩
        ⟨again, foundAgain, next, nextMember, nextName, nextKind⟩
      obtain rfl := Option.some.inj (found.symm.trans foundAgain)
      rw [← knownName, ← nextName] at different
      rw [← knownKind, ← nextKind] at like
      refine (apart found).unnamed known knownMember next nextMember different like ?_ ?_
      · rw [knownKind, given]
      · rw [nextKind, ← same, given]
    refine .inl ⟨⟨given, same.symm.trans given⟩, ?_, never⟩
    refine ⟨path, source, other, otherSource, ?_, gives, alsoGives⟩
    rintro rfl
    exact never path gives alsoGives
  | some relation =>
    -- Names that are made for fields of different names are different.
    refine .inr ⟨relation, rfl, ?_⟩
    obtain ⟨built, found, known, knownMember, knownName, knownKind⟩ := gives
    obtain ⟨otherBuilt, otherFound, next, nextMember, nextName, nextKind⟩ := alsoGives
    have sameEntity : otherBuilt.name = built.name :=
      (stages.name_of_source member otherSource otherFound).trans
        (stages.name_of_source member source found).symm
    rw [← knownName, ← nextName] at different ⊢
    rw [← knownKind] at given
    rw [← knownKind, ← nextKind] at like same
    rcases (apart found).isBackOf (apart otherFound) sameEntity knownMember nextMember different
      given (same.symm.trans given) with back | back
    · exact .inl (stages.refersBackBy_of_isBackOf source found knownMember like.1 back)
    · exact .inr (stages.refersBackBy_of_isBackOf otherSource otherFound nextMember like.symm.1
        back)

end Stages

/-- If the settings do not name other ends, then two references of one kind from an entity to one
target have other ends of different names, of which one may be missing. There are two exceptions:
neither has a name, since they were built at different type paths and have only met in a merge; or
one of them refers back, and its relation has the name that was made for the other. -/
theorem other_ends_differ {index : Schema.Index} {settings : Settings} {graph : Graph}
    {levels : Nat} (compiled : compile index settings levels = .ok graph)
    (plain : settings.EveryOptions EntityOptions.NamesNoOtherEnd) :
    ∃ stages : Stages index settings graph levels, ∀ entity ∈ graph.entities,
      entity.materializedFields.Pairwise fun first second => first.kind.IsLike second.kind →
        first.kind.relatedName? = second.kind.relatedName? →
          stages.MetUnnamed entity first second ∨
            ∃ relation, first.kind.relatedName? = some relation ∧
              (stages.RefersBackBy entity first.name relation ∨
                stages.RefersBackBy entity second.name relation) := by
  obtain ⟨stages⟩ := exists_stages compiled
  refine ⟨stages, fun entity member => ?_⟩
  refine (List.pairwise_map.mp (stages.fieldNames_nodup member)).imp_of_mem ?_
  intro first second firstMember secondMember different like same
  have inEntity {field : Field} (kept : field ∈ entity.materializedFields) :
      field ∈ entity.fields := (List.mem_filter.mp kept).1
  exact stages.met_or_refersBack plain member (inEntity firstMember) (inEntity secondMember)
    different like same

/-! ## Rows of units -/

/-- Two types of rows with elements that refer to units. -/
def unitRows (left right : List String) : Schema.Index :=
  let members (names : List String) := names.map fun name => (name, "Unit", Schema.MaxOccurs.one)
  .ofSequences [("Left", members left), ("Right", members right), ("Unit", [])]

/-- The fields of an entity with their other ends. -/
def Graph.otherEnds (graph : Graph) (name : String) : List (String × Option String) :=
  (graph.entity? name).elim [] (·.fields.map fun field => (field.name, field.kind.relatedName?))

/-- Rows that refer to their unit twice, in both types. -/
theorem other_ends_differ_of_rows :
    ∃ graph, compile (unitRows ["unit", "part"] ["unit", "part"]) (rowsWith .none) = .ok graph ∧
      graph.otherEnds "Row" = [("unit", none), ("part", some "row_as_part")] ∧
      (rowsWith .none).EveryOptions EntityOptions.NamesNoOtherEnd ∧
      ∃ stages : Stages (unitRows ["unit", "part"] ["unit", "part"]) (rowsWith .none) graph,
        ∀ entity ∈ graph.entities, entity.materializedFields.Pairwise fun first second =>
          first.kind.IsLike second.kind → first.kind.relatedName? = second.kind.relatedName? →
            stages.MetUnnamed entity first second ∨
              ∃ relation, first.kind.relatedName? = some relation ∧
                (stages.RefersBackBy entity first.name relation ∨
                  stages.RefersBackBy entity second.name relation) := by
  have evaluated : (compile (unitRows ["unit", "part"] ["unit", "part"])
      (rowsWith .none)).toOption.map (·.otherEnds "Row") =
        some [("unit", none), ("part", some "row_as_part")] := by decide +kernel
  obtain ⟨graph, compiled, seen⟩ := Result.exists_ok_of_map evaluated
  have plain : (rowsWith .none).EveryOptions EntityOptions.NamesNoOtherEnd := by decide
  exact ⟨graph, compiled, seen, plain, other_ends_differ compiled plain⟩

/-- Two references of one kind from an entity to one target have other ends of one name. -/
def Graph.Confuses (graph : Graph) : Prop :=
  ∃ entity ∈ graph.entities, ∃ first ∈ entity.fields, ∃ second ∈ entity.fields,
    first.name ≠ second.name ∧ first.kind.IsLike second.kind ∧
      first.kind.relatedName? = second.kind.relatedName?

instance (graph : Graph) : Decidable graph.Confuses :=
  inferInstanceAs (Decidable (∃ entity ∈ graph.entities, ∃ first ∈ entity.fields,
    ∃ second ∈ entity.fields, first.name ≠ second.name ∧ first.kind.IsLike second.kind ∧
      first.kind.relatedName? = second.kind.relatedName?))

/-- An owner of rows by a relation that has the name of another field's other end. -/
def partRows : Schema.Index :=
  .ofSequences [("Owner", [("note", "xs:string", .one), ("row_as_part", "Row", .unbounded)]),
    ("Row", [("unit", "Owner", .one), ("part", "Owner", .one)])]

/-- The settings of such an owner. -/
def owningParts : Settings :=
  { settingsOf ["Owner"] with
    entities := [⟨"Owner", { EntityOptions.none with oneToManyFields := ["row_as_part"] }, []⟩] }

/-- Rows whose types have one reference each have two without a name, and a reference may get the
name of a relation. -/
theorem other_ends_confused :
    ((rowsWith .none).EveryOptions EntityOptions.NamesNoOtherEnd ∧
      ∃ graph, compile (unitRows ["unit"] ["part"]) (rowsWith .none) = .ok graph ∧
        graph.otherEnds "Row" = [("unit", none), ("part", none)] ∧ graph.Confuses) ∧
    owningParts.EveryOptions EntityOptions.NamesNoOtherEnd ∧
      ∃ graph, compile partRows owningParts = .ok graph ∧ graph.otherEnds "Row" =
        [("unit", none), ("part", some "row_as_part"), ("owner", some "row_as_part")] ∧
          graph.Confuses := by
  refine ⟨⟨by decide, ?_⟩, by decide, ?_⟩
  · have evaluated : (compile (unitRows ["unit"] ["part"]) (rowsWith .none)).toOption.map
        (fun graph => (graph.otherEnds "Row", decide graph.Confuses)) =
          some ([("unit", none), ("part", none)], true) := by decide +kernel
    obtain ⟨graph, compiled, seen⟩ := Result.exists_ok_of_map evaluated
    obtain ⟨ends, confuses⟩ := Prod.mk.inj seen
    exact ⟨graph, compiled, ends, of_decide_eq_true confuses⟩
  · have evaluated : (compile partRows owningParts).toOption.map
        (fun graph => (graph.otherEnds "Row", decide graph.Confuses)) =
          some ([("unit", none), ("part", some "row_as_part"), ("owner", some "row_as_part")],
            true) := by decide +kernel
    obtain ⟨graph, compiled, seen⟩ := Result.exists_ok_of_map evaluated
    obtain ⟨ends, confuses⟩ := Prod.mk.inj seen
    exact ⟨graph, compiled, ends, of_decide_eq_true confuses⟩

end EntityGraph
