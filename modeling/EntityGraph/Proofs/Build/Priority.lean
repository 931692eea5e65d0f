import EntityGraph.Proofs.Build.LawfulEntities

/-!
# Which rule decides

Eight families of rules take the decision about an element away from the number of its occurrences.
Several of them may name the same element. `RuleFamily.decisive` is the one that decides, and
`Decides` says what it makes of the element: the category of its field and the type path that the
field leads to, or that there is no field.
-/
namespace EntityGraph.Compile

open Schema (ComplexType Element)

/-! ## Families of rules -/

/-- The rules that say what becomes of an element. -/
inductive RuleFamily where
  | oneToOne
  | oneToMany
  | manyToMany
  | json
  | flatten
  | referenceExtension
  | array
  | foreignKey
  deriving DecidableEq, Repr

namespace RuleFamily

/-- Whether a rule of the family names the element. -/
def isAsked (rules : FieldRules) (name : String) (isComplex : Bool) : RuleFamily → Bool
  | oneToOne => rules.oneToOne.contains name
  | oneToMany => rules.oneToMany.contains name || (rules.oneToManyTarget? name).isSome
  | manyToMany => rules.manyToMany.contains name || (rules.manyToManyTarget? name).isSome
  | json => rules.json.contains name
  | flatten => asksForFlattening rules name isComplex
  | referenceExtension => rules.referenceExtension.contains name
  | array => rules.array.contains name
  | foreignKey => (rules.foreignKeyTarget? name).isSome

/-- Whether the type of an element has what the family needs: members to flatten, or an extension
whose base can be referred to. -/
def isFit (type : Option ComplexType) : RuleFamily → Bool
  | flatten => type.any (·.simpleContent.isNone)
  | referenceExtension => type.any (·.extension.isSome)
  | _ => true

/-- Whether a rule of the family names the element and its type has what the family needs. -/
def applies (rules : FieldRules) (name : String) (type : Option ComplexType) (family : RuleFamily) :
    Bool :=
  family.isAsked rules name type.isSome && family.isFit type

/-- The families that give an element no kind of value. -/
def leading : List RuleFamily := [oneToOne, oneToMany, manyToMany, json, flatten]

/-- The families that give an element a kind of value, in the order in which they do. -/
def valued : List RuleFamily := [array, foreignKey, referenceExtension]

/-- The order in which the families are documented to apply. -/
def documented : List RuleFamily := leading ++ [referenceExtension, array, foreignKey]

/-- The order in which they do. -/
def effective : List RuleFamily := leading ++ valued

/-- The family that decides about an element. -/
def decisive (rules : FieldRules) (name : String) (type : Option ComplexType) : Option RuleFamily :=
  effective.find? (applies rules name type)

variable {rules : FieldRules} {name : String} {isComplex : Bool} {type : Option ComplexType}

/-- The number of occurrences is left alone exactly if no family names the element. -/
theorem hasExplicitRule_iff :
    hasExplicitRule rules name isComplex = true ↔
      ∃ family : RuleFamily, family.isAsked rules name isComplex = true := by
  constructor
  · intro explicit
    simp only [hasExplicitRule, Bool.or_eq_true] at explicit
    rcases explicit with ((((((((((h | h) | h) | h) | h) | h) | h) | h) | h) | h) | h)
    · exact ⟨.oneToOne, h⟩
    · exact ⟨.oneToMany, by simp [isAsked, h]⟩
    · exact ⟨.manyToMany, by simp [isAsked, h]⟩
    · exact ⟨.oneToMany, by simp [isAsked, h]⟩
    · exact ⟨.manyToMany, by simp [isAsked, h]⟩
    · exact ⟨.json, h⟩
    · exact ⟨.flatten, by simp [isAsked, asksForFlattening, h]⟩
    · exact ⟨.flatten, by simp [isAsked, asksForFlattening, h]⟩
    · exact ⟨.array, h⟩
    · exact ⟨.referenceExtension, h⟩
    · exact ⟨.foreignKey, h⟩
  · rintro ⟨family, asked⟩
    cases family <;> simp_all [isAsked, hasExplicitRule, asksForFlattening] <;> grind

theorem hasExplicitRule_of_decisive {family : RuleFamily}
    (decides : decisive rules name type = some family) :
    hasExplicitRule rules name type.isSome = true := by
  have applies_ := List.find?_some decides
  exact hasExplicitRule_iff.mpr ⟨family, (Bool.and_eq_true_iff.mp applies_).1⟩

theorem applies_array : applies rules name type .array = rules.array.contains name :=
  Bool.and_true _

theorem applies_foreignKey :
    applies rules name type .foreignKey = (rules.foreignKeyTarget? name).isSome :=
  Bool.and_true _

theorem applies_referenceExtension_iff :
    applies rules name type .referenceExtension = true ↔
      rules.referenceExtension.contains name = true ∧
        ∃ members extension, type = some members ∧ members.extension = some extension := by
  cases type with
  | none => simp [applies, isFit]
  | some members => simp [applies, isFit, isAsked, Option.isSome_iff_exists]

theorem applies_flatten :
    applies rules name type .flatten = (flattened? rules name type).isSome := by
  unfold flattened?
  cases type with
  | none => simp [applies, isFit]
  | some members =>
    cases asked : asksForFlattening rules name true <;>
      cases plain : members.simpleContent <;> simp [applies, isFit, isAsked, asked, plain]

/-- The family that decides is the documented one, unless this is a reference to the base of an
extension and a rule for arrays or foreign keys names the element as well. -/
theorem decisive_eq_documented_iff :
    decisive rules name type = documented.find? (applies rules name type) ↔
      ¬(documented.find? (applies rules name type) = some .referenceExtension ∧
        (rules.array.contains name = true ∨ (rules.foreignKeyTarget? name).isSome = true)) := by
  simp only [decisive, effective, valued, documented, List.find?_append]
  cases first : leading.find? (applies rules name type) with
  | some family =>
    have member := List.mem_of_find?_eq_some first
    have other : family ≠ .referenceExtension := by
      rintro rfl
      exact absurd member (by decide)
    simp [other]
  | none =>
    cases based : applies rules name type .referenceExtension <;>
      cases listed : rules.array.contains name <;>
        cases keyed : (rules.foreignKeyTarget? name).isSome <;>
          simp [based, listed, keyed, applies_array, applies_foreignKey]

end RuleFamily

/-! ## What becomes of an element -/

/-- The entity of the type path has a field of the name, path and kind, or the mark that is left
where the name was taken by another field. The rules may leave a field of the name out, and replace
a kind that is no scalar by a scalar. -/
def State.Shows (state : State) (rules : FieldRules) (path name dottedPath : String)
    (kind : FieldKind) : Prop :=
  rules.dropAfterProcessing.contains name = true ∨
    ∃ entity, state.entities.get? path = some entity ∧
      ∃ field ∈ entity.fields, field.dottedPath = dottedPath ∧
        (field.kind = .coalescedAlias name ∨ field.name = name ∧
          (field.kind.shape = kind.shape ∨
            (rules.kind? name).isSome = true ∧ kind.repr? = none ∧
              field.kind.shape = .scalar default))

theorem Steps.shows {context : Context} {before after : Progress}
    (steps : Steps context before after) {rules : FieldRules} {path name dottedPath : String}
    {kind : FieldKind} (shows : before.state.Shows rules path name dottedPath kind) :
    after.state.Shows rules path name dottedPath kind := by
  rcases shows with leftOut | ⟨entity, found, field, member, fieldPath, which⟩
  · exact .inl leftOut
  · obtain ⟨later, foundLater, extends_⟩ := steps.keeps found
    obtain ⟨kept, keptMember, bare⟩ := extends_.fields field member
    obtain ⟨keptName, keptPath, keptKind, _⟩ := Field.bare_eq_iff.mp bare
    refine .inr ⟨later, foundLater, kept, keptMember, keptPath.trans fieldPath, ?_⟩
    rw [keptName, keptKind]
    exact which

/-- The element whose rows an element leads to is the element itself, or the one that repeats inside
of it. An anonymous type is named by the place. -/
inductive RowsAt (index : Schema.Index) (scope : Scope) (site : Site) (declaration : Element) :
    String → Prop
  | itself {type : ComplexType} (typed : index.elementComplexType declaration = .ok (some type))
      (direct : declaration.occurs.most.isUnbounded = true ∨ type.unboundedChild? = none) :
      RowsAt index scope site declaration (type.name.getD (scope.memberPath site.name))
  | inside {type inner : ComplexType} {child : Element}
      (typed : index.elementComplexType declaration = .ok (some type))
      (single : declaration.occurs.most.isUnbounded = false)
      (repeats : type.unboundedChild? = some child)
      (complex : index.elementComplexType child = .ok (some inner)) :
      RowsAt index scope site declaration
        (inner.name.getD (scope.memberPath (site.name ++ "_" ++ child.localName)))

/-- What a family of rules makes of an element. -/
def RuleFamily.Decides (context : Context) (onward : Onward) (scope : Scope) (site : Site)
    (bagKey : String) (declaration : Element) (type : Option ComplexType)
    (state final : State) : RuleFamily → Prop
  | oneToOne => ∃ members target reverse, type = some members ∧
      final.NameAt (members.name.getD (scope.memberPath site.name)) target ∧
      final.Shows scope.rules scope.typePath site.name site.dottedPath
        (.reverseOneToOne target reverse)
  | oneToMany => ∃ path target reverse,
      (scope.rules.oneToManyTarget? site.name = some path ∨
        scope.rules.oneToManyTarget? site.name = none ∧
          RowsAt context.index scope site declaration path) ∧
      final.NameAt path target ∧
      final.Shows scope.rules scope.typePath site.name site.dottedPath
        (.reverseOneToMany target reverse)
  | manyToMany => ∃ path target,
      (scope.rules.manyToManyTarget? site.name = some path ∨
        scope.rules.manyToManyTarget? site.name = none ∧
          RowsAt context.index scope site declaration path) ∧
      final.NameAt path target ∧
      final.Shows scope.rules scope.typePath site.name site.dottedPath (.manyToMany target none)
  | json => final.entities = state.entities ∧
      (scope.rules.dropAfterProcessing.contains site.name = true ∨
        ∃ bag, final.bags.get? scope.typePath = some bag ∧ bag.has bagKey = true)
  | flatten => ∃ members, type = some members ∧
      (onward.members (scope.flattened site.dottedPath (site.doc.getD site.name) site.nullable)
        members).run state = .ok ((), final)
  | referenceExtension => ∃ members extension target,
      type = some members ∧ members.extension = some extension ∧
      final.NameAt extension.base target ∧
      final.Shows scope.rules scope.typePath site.name site.dottedPath
        (.toOne target false .protect none) ∧
      ∃ reached, (onward.extension { scope with
        ancestors := site.dottedPath ++ ".", nullable := site.nullable } extension).run reached =
          .ok ((), final)
  | array => ∃ repr,
      final.Shows scope.rules scope.typePath site.name site.dottedPath (.collection repr)
  | foreignKey => ∃ path target, scope.rules.foreignKeyTarget? site.name = some path ∧
      final.NameAt path target ∧
      final.Shows scope.rules scope.typePath site.name site.dottedPath
        (.toOne target false .protect none)

/-! ## Fields that are shown -/

/-- Kinds that compare equal are the same but for the details of their scalars. -/
theorem shape_of_beq {kind other : FieldKind} (same : (kind == other) = true) :
    kind.shape = other.shape := by
  -- The derived comparison goes through the components one by one.
  cases kind <;> cases other <;> try exact absurd same Bool.false_ne_true
  case scalar | collection | dropped | parentAlias => rfl
  case toOne => rw [FieldKind.eq_toOne_of_beq same]
  case reverseOneToMany target name otherTarget otherName =>
    have parts : (decide (target = otherTarget) && decide (name = otherName)) = true := same
    simp_all
  case reverseOneToOne target name otherTarget otherName =>
    have parts : (decide (target = otherTarget) && decide (name = otherName)) = true := same
    simp_all
  case manyToMany target name otherTarget otherName =>
    have parts : (decide (target = otherTarget) && (name == otherName)) = true := same
    simp_all [FieldKind.shape]
  case jsonBag entries otherEntries =>
    have parts : (entries == otherEntries) = true := same
    simp_all
  case coalescedAlias into otherInto =>
    have parts : decide (into = otherInto) = true := same
    simp_all

section Shown

variable {context : Context} {onward : Onward} {pending : List String} {state : State}
  {scope : Scope} {site : Site} {declaration : Element} {type : Option ComplexType}

theorem Received.shows {final : State} {draft field : Field} {text primitive : Option String}
    (finished : finishField context scope text primitive draft = .ok field)
    (received : Received state final scope field) :
    final.Shows scope.rules scope.typePath draft.name draft.dottedPath draft.kind := by
  obtain ⟨declared, kind, _⟩ := finishField_form finished
  obtain ⟨name, path, _⟩ := Field.declaration_eq_iff.mp declared
  rcases received with ⟨_, leftOut⟩ | ⟨entity, after, insertion, found⟩
  · exact .inl (name ▸ leftOut)
  · refine .inr ⟨after, found, ?_⟩
    rcases insertion.present with ⟨known, member, knownName, knownPath, same⟩ | ⟨former, _, marked⟩
    · have shape : known.kind.shape = field.kind.shape := by
        rcases same with compared | same
        · exact (shape_of_beq compared).trans (FieldKind.shape_setRelatedName _ _)
        · exact (congrArg FieldKind.shape same).trans (FieldKind.shape_setRelatedName _ _)
      refine ⟨known, member, knownPath.trans path, .inr ⟨knownName.trans name, ?_⟩⟩
      rcases kind with kept | ⟨noScalar, replacement, given, replaced⟩
      · exact .inl (shape.trans kept)
      · exact .inr ⟨by rw [given]; rfl, noScalar, shape.trans replaced⟩
    · exact ⟨_, marked, path, .inl (congrArg FieldKind.coalescedAlias name)⟩

theorem addFinished_shows {draft : Field} {text primitive : Option String}
    (fits : scope.Fits context ⟨pending, state⟩) (drafted : Draft context state scope draft) :
    Runs context pending pending
      (do addField context scope.rules scope.typePath
            (← finishField context scope text primitive draft)) state
      fun _ final =>
        final.Shows scope.rules scope.typePath draft.name draft.dottedPath draft.kind := by
  refine (Runs.lifts _).bind fun field reached _ ⟨finished, same⟩ => ?_
  subst same
  exact (addField_runs fits (.finished drafted finished)).weaken
    fun _ _ _ received => received.shows finished

/-! ## Relations -/

theorem repeatedTarget_rowsAt :
    Runs context pending pending (repeatedTarget context scope site declaration) state
      fun target _ => RowsAt context.index scope site declaration target.path := by
  unfold repeatedTarget repeatedElement
  split
  next repeats =>
    rw [pure_bind]
    refine (Runs.lifts _).bind fun type reached _ given => ?_
    have typed := given.1
    split
    · exact .returns (.itself typed (.inl repeats))
    · exact .fails
  next single =>
    rw [bind_assoc]
    refine (Runs.lifts _).bind fun type reached _ given => ?_
    have typed := given.1
    split
    next child found =>
      obtain ⟨members, rfl, repeats⟩ := Option.bind_eq_some_iff.mp found
      rw [pure_bind]
      refine (Runs.lifts _).bind fun inner final _ complex => ?_
      split
      · exact .returns (.inside typed (Bool.eq_false_iff.mpr single) repeats complex.1)
      · exact .fails
    next missing =>
      rw [bind_assoc]
      refine (notify_runs (by rintro ⟨⟩)).bind fun _ _ _ _ => ?_
      rw [pure_bind]
      refine (Runs.lifts _).bind fun again final _ same => ?_
      obtain rfl : type = again := Except.ok.inj (typed.symm.trans same.1)
      split
      next members => exact .returns (.itself typed (.inr (by simpa using missing)))
      · exact .fails

theorem addReverse_shows (onwardRuns : OnwardRuns context onward)
    (fits : scope.Fits context ⟨pending, state⟩) (oneToOne : Bool) (target : Target) :
    Runs context pending pending (addReverse context onward scope site oneToOne target) state
      fun _ final => ∃ entity reverse, final.NameAt target.path entity ∧
        final.Shows scope.rules scope.typePath site.name site.dottedPath
          (if oneToOne then .reverseOneToOne entity reverse
            else .reverseOneToMany entity reverse) := by
  refine addReverse_builds onwardRuns fits site oneToOne target
    fun entity reverse reached toReached named other => ?_
  cases oneToOne with
  | true =>
    exact (addFinished_shows (toReached.fits fits) (.reverseOneToOne other)).weaken
      fun _ _ steps shown => ⟨entity, reverse, steps.nameAt named, shown⟩
  | false =>
    exact (addFinished_shows (toReached.fits fits) (.reverseOneToMany other)).weaken
      fun _ _ steps shown => ⟨entity, reverse, steps.nameAt named, shown⟩

theorem addManyToMany_shows (onwardRuns : OnwardRuns context onward)
    (fits : scope.Fits context ⟨pending, state⟩) (target : Target) :
    Runs context pending pending (addManyToMany context onward scope site target) state
      fun _ final => ∃ entity, final.NameAt target.path entity ∧
        final.Shows scope.rules scope.typePath site.name site.dottedPath
          (.manyToMany entity none) := by
  refine (onwardRuns.build _ _ _ _ _ (by simp)).bind fun entity built toBuilt ⟨named, _⟩ => ?_
  exact (addFinished_shows (toBuilt.fits fits) (.manyToMany named)).weaken
    fun _ _ steps shown => ⟨entity, steps.nameAt named, shown⟩

theorem manyTarget_rowsAt (configured : Option String) :
    Runs context pending pending
      (manyTarget context scope site declaration configured none) state
      fun target _ => configured = some target.path ∨
        configured = none ∧ RowsAt context.index scope site declaration target.path := by
  unfold manyTarget
  split
  · exact .returns (.inl rfl)
  next inferred => cases inferred
  · exact repeatedTarget_rowsAt.weaken fun _ _ _ rows => .inr ⟨rfl, rows⟩

theorem singleTarget_typed (typed : context.index.elementComplexType declaration = .ok type) :
    Runs context pending pending (singleTarget context scope site declaration) state
      fun target _ => ∃ members, type = some members ∧
        target.path = members.name.getD (scope.memberPath site.name) := by
  refine (Runs.lifts _).bind fun found reached _ ⟨same, _⟩ => ?_
  obtain rfl : type = found := Except.ok.inj (typed.symm.trans same)
  split
  · exact .returns ⟨_, rfl, rfl⟩
  · exact .fails

/-- The family of a relation. -/
def Relation.family : Relation → RuleFamily
  | oneToOne => .oneToOne
  | oneToMany => .oneToMany
  | manyToMany => .manyToMany

theorem addRelation_decides (onwardRuns : OnwardRuns context onward)
    (fits : scope.Fits context ⟨pending, state⟩)
    (typed : context.index.elementComplexType declaration = .ok type) (bagKey : String)
    (relation : Relation) :
    Runs context pending pending
      (addRelation context onward scope site declaration none relation) state
      fun _ final => relation.family.Decides context onward scope site bagKey declaration type
        state final := by
  cases relation with
  | oneToOne =>
    refine (singleTarget_typed typed).bind fun target reached toReached ⟨members, some_, path⟩ => ?_
    refine (addReverse_shows onwardRuns (toReached.fits fits) true target).weaken ?_
    rintro _ final _ ⟨entity, reverse, named, shown⟩
    exact ⟨members, entity, reverse, some_, path ▸ named, shown⟩
  | oneToMany =>
    refine (manyTarget_rowsAt _).bind fun target reached toReached rows => ?_
    refine (addReverse_shows onwardRuns (toReached.fits fits) false target).weaken ?_
    rintro _ final _ ⟨entity, reverse, named, shown⟩
    exact ⟨target.path, entity, reverse, rows, named, shown⟩
  | manyToMany =>
    refine (manyTarget_rowsAt _).bind fun target reached toReached rows => ?_
    refine (addManyToMany_shows onwardRuns (toReached.fits fits) target).weaken ?_
    rintro _ final _ ⟨entity, named, shown⟩
    exact ⟨target.path, entity, rows, named, shown⟩

/-! ## Values -/

theorem addMember_shows (fits : scope.Fits context ⟨pending, state⟩) {member : Schema.Member}
    {resolved : ResolvedKind} {most : Schema.MaxOccurs} (value : state.IsValue resolved.kind)
    (consistent : (∃ declaration, member = .element declaration) ∨
      resolved.kind.isCollection = !most.isOne) :
    Runs context pending pending (addMember context scope site member resolved most) state
      fun _ final => final.Shows scope.rules scope.typePath site.name site.dottedPath
        resolved.kind := by
  exact addMember_agrees consistent fun agrees => addFinished_shows fits (.value value agrees)

/-- The kind is that of a reference to the entity of a type path. -/
def RefersTo (path : String) (resolved : ResolvedKind) (state : State) : Prop :=
  ∃ target, state.NameAt path target ∧ resolved.kind = .toOne target false .protect none

theorem reference_refersTo (onwardRuns : OnwardRuns context onward) (path : String) :
    Runs context pending pending
      (do return .reference (← onward.build path type []) false .protect) state
      (RefersTo path) := by
  refine (onwardRuns.build _ _ _ _ _ (by simp)).bind fun entity built _ ⟨named, _⟩ => ?_
  exact .returns ⟨entity, named, rfl⟩

theorem resolveForeignKey_refersTo (onwardRuns : OnwardRuns context onward) (name path : String) :
    Runs context pending pending (resolveForeignKey onward scope name path type) state
      (RefersTo path) := by
  unfold resolveForeignKey
  split
  · split
    · exact reference_refersTo onwardRuns path
    · exact .fails
  · exact reference_refersTo onwardRuns path

theorem listKind_isList {resolved list : ResolvedKind} {path : String}
    (listed : listKind resolved path = .ok list) : ∃ repr, list.kind = .collection repr := by
  unfold listKind at listed
  split at listed
  next repr _ =>
    cases listed
    exact ⟨repr, rfl⟩
  · cases listed

theorem resolveArray_isList (onwardRuns : OnwardRuns context onward) :
    Runs context pending pending (resolveArray context onward scope site declaration type) state
      fun result _ => ∃ repr, result.1.kind = .collection repr := by
  unfold resolveArray
  extract_lets path
  split
  · refine (resolveValue_runs onwardRuns _ _ _).bind fun resolved _ _ _ => ?_
    refine (Runs.lifts _).bind fun list _ _ ⟨listed, _⟩ => ?_
    exact .returns (listKind_isList listed)
  · split
    · exact .fails
    · extract_lets most inner documented
      refine (resolveValue_runs onwardRuns _ _ _).bind fun resolved _ _ _ => ?_
      refine (Runs.lifts _).bind fun list _ _ ⟨listed, _⟩ => ?_
      exact .returns (listKind_isList listed)

/-- What the kind of an element is, by the rules and by the extension whose base it refers to. -/
structure ResolvedBy (rules : FieldRules) (name : String) (extension : Option Schema.Extension)
    (resolved : ResolvedKind) (state : State) : Prop where
  array : rules.array.contains name = true → ∃ repr, resolved.kind = .collection repr
  foreignKey : rules.array.contains name = false →
    ∀ path, rules.foreignKeyTarget? name = some path → RefersTo path resolved state
  base : rules.array.contains name = false → rules.foreignKeyTarget? name = none →
    ∀ given, extension = some given → RefersTo given.base resolved state
  plain : rules.array.contains name = false → rules.foreignKeyTarget? name = none →
    extension = none → resolved.kind.isCollection = false

theorem ResolvedBy.mono {rules : FieldRules} {name : String} {resolved : ResolvedKind}
    {extension : Option Schema.Extension} {reached final : State}
    (resolvedBy : ResolvedBy rules name extension resolved reached)
    (more : ∀ {path target : String}, reached.NameAt path target → final.NameAt path target) :
    ResolvedBy rules name extension resolved final where
  array := resolvedBy.array
  foreignKey listed path keyed := (resolvedBy.foreignKey listed path keyed).imp
    fun _ refers => refers.imp_left more
  base listed keyed given same := (resolvedBy.base listed keyed given same).imp
    fun _ refers => refers.imp_left more
  plain := resolvedBy.plain

theorem resolveElement_resolvedBy (onwardRuns : OnwardRuns context onward) (hint : Option String)
    (extension : Option Schema.Extension) :
    Runs context pending pending
      (resolveElement context onward scope site declaration type hint extension) state
      fun result final => ResolvedBy scope.rules site.name extension result.1 final := by
  unfold resolveElement
  split
  next listed =>
    refine (resolveArray_isList onwardRuns).weaken fun _ _ _ list => ?_
    exact ⟨fun _ => list, by simp [listed], by simp [listed], by simp [listed]⟩
  next unlisted =>
    split
    next _ path keyed =>
      refine (resolveForeignKey_refersTo onwardRuns _ _).bind fun resolved _ _ refers => ?_
      refine Runs.returns ⟨fun listed => absurd listed unlisted, fun _ other same => ?_,
        by simp [keyed], by simp [keyed]⟩
      obtain rfl : path = other := Option.some.inj (keyed.symm.trans same)
      exact refers
    next extension unkeyed =>
      refine (onwardRuns.build _ _ _ _ _ (by simp)).bind fun entity _ _ ⟨named, _⟩ => ?_
      rw [pure_bind]
      refine Runs.returns ⟨fun listed => absurd listed unlisted, by simp [unkeyed],
        fun _ _ given same => ?_, by simp⟩
      obtain rfl : extension = given := Option.some.inj same
      exact ⟨entity, named, rfl⟩
    next unkeyed =>
      refine (resolveValue_runs onwardRuns _ _ _).bind fun resolved _ _ value => ?_
      exact Runs.returns ⟨fun listed => absurd listed unlisted, by simp [unkeyed], by simp,
        fun _ _ _ => value.2⟩

/-- The extension whose base an element refers to is that of its type, if the rules name the
element. -/
def IsReferenced (rules : FieldRules) (name : String) (type : Option ComplexType)
    (extension : Option Schema.Extension) : Prop :=
  (rules.referenceExtension.contains name = true → extension = type.bind (·.extension)) ∧
    (rules.referenceExtension.contains name = false → extension = none)

theorem IsReferenced.eq_none {rules : FieldRules} {name : String} {type : Option ComplexType}
    {extension : Option Schema.Extension} (referenced : IsReferenced rules name type extension)
    (based : RuleFamily.applies rules name type .referenceExtension = false) :
    extension = none := by
  cases contains : rules.referenceExtension.contains name with
  | false => exact referenced.2 contains
  | true =>
    rw [referenced.1 contains, Option.eq_none_iff_forall_ne_some]
    intro given same
    obtain ⟨members, rfl, extended⟩ := Option.bind_eq_some_iff.mp same
    rw [RuleFamily.applies_referenceExtension_iff.mpr ⟨contains, members, given, rfl, extended⟩]
      at based
    cases based

theorem referencedExtension?_asked :
    Runs context pending pending (referencedExtension? scope site type) state
      fun extension _ => IsReferenced scope.rules site.name type extension := by
  unfold referencedExtension?
  split
  next unasked =>
    rw [Bool.not_eq_true'] at unasked
    exact .returns ⟨by simp [unasked], fun _ => rfl⟩
  next asked =>
    rw [Bool.not_eq_true', Bool.not_eq_false] at asked
    extract_lets path
    split
    · exact .fails
    next members =>
      extract_lets proceed
      split
      · exact (notify_runs (by nofun)).bind fun _ _ _ _ =>
          Runs.returns ⟨fun _ => rfl, by simp [asked]⟩
      · exact .returns ⟨fun _ => rfl, by simp [asked]⟩

/-- Two statements about a walk hold together. -/
theorem Runs.both {α : Type} {later : List String} {walk : Walk α} {first second : α → State → Prop}
    (runs : Runs context pending later walk state first)
    (more : Runs context pending later walk state second) :
    Runs context pending later walk state fun value final =>
      first value final ∧ second value final := by
  intro wellFormed result final ran
  obtain ⟨steps, undisturbed, ensured⟩ := runs wellFormed result final ran
  exact ⟨steps, undisturbed, ensured, (more wellFormed result final ran).2.2⟩

/-- What comes of an element, given the family that decides. Where none does, it has a single
value. -/
def Becomes (context : Context) (onward : Onward) (scope : Scope) (site : Site) (bagKey : String)
    (declaration : Element) (type : Option ComplexType) (state final : State) :
    Option RuleFamily → Prop
  | some family =>
    family.Decides context onward scope site bagKey declaration type state final
  | none => ∃ kind : FieldKind, kind.isCollection = false ∧
      final.Shows scope.rules scope.typePath site.name site.dottedPath kind

/-- The families of values decide in their order about an element whose kind is settled, whose field
is there, and whose extension has been walked. -/
theorem ResolvedBy.becomes {resolved : ResolvedKind} {extension : Option Schema.Extension}
    {bagKey : String} {earlier final : State}
    (resolvedBy : ResolvedBy scope.rules site.name extension resolved final)
    (referenced : IsReferenced scope.rules site.name type extension)
    (shown : final.Shows scope.rules scope.typePath site.name site.dottedPath resolved.kind)
    (walked : ∀ given, extension = some given → ∃ reached, (onward.extension { scope with
      ancestors := site.dottedPath ++ ".", nullable := site.nullable } given).run reached =
        .ok ((), final)) :
    Becomes context onward scope site bagKey declaration type earlier final
      (RuleFamily.valued.find? (RuleFamily.applies scope.rules site.name type)) := by
  have refers {path : String} (refersTo : RefersTo path resolved final) :
      ∃ target, final.NameAt path target ∧
        final.Shows scope.rules scope.typePath site.name site.dottedPath
          (.toOne target false .protect none) := by
    obtain ⟨target, named, kind⟩ := refersTo
    exact ⟨target, named, kind ▸ shown⟩
  simp only [RuleFamily.valued, List.find?_cons, List.find?_nil, RuleFamily.applies_array,
    RuleFamily.applies_foreignKey]
  cases listed : scope.rules.array.contains site.name with
  | true =>
    obtain ⟨repr, kind⟩ := resolvedBy.array listed
    exact ⟨repr, kind ▸ shown⟩
  | false =>
    cases keyed : scope.rules.foreignKeyTarget? site.name with
    | some path =>
      obtain ⟨target, reference⟩ := refers (resolvedBy.foreignKey listed path keyed)
      exact ⟨path, target, keyed, reference⟩
    | none =>
      cases based : RuleFamily.applies scope.rules site.name type .referenceExtension with
      | true =>
        obtain ⟨contains, members, given, rfl, extended⟩ :=
          RuleFamily.applies_referenceExtension_iff.mp based
        obtain rfl : extension = some given := (referenced.1 contains).trans extended
        obtain ⟨target, named, shows⟩ := refers (resolvedBy.base listed keyed given rfl)
        exact ⟨members, given, target, rfl, extended, named, shows, walked given rfl⟩
      | false =>
        exact ⟨resolved.kind, resolvedBy.plain listed keyed (referenced.eq_none based), shown⟩

/-- The families of values decide in their order. -/
theorem classifyPlain_becomes (onwardRuns : OnwardRuns context onward)
    (fits : scope.Fits context ⟨pending, state⟩) (hint : Option String) (bagKey : String)
    (earlier : State) :
    Runs context pending pending
      (classifyPlain context onward scope site declaration type hint) state
      fun _ final => Becomes context onward scope site bagKey declaration type earlier final
        (RuleFamily.valued.find? (RuleFamily.applies scope.rules site.name type)) := by
  refine referencedExtension?_asked.bind fun extension first toFirst referenced => ?_
  refine ((resolveElement_runs onwardRuns site declaration type hint extension).both
    (resolveElement_resolvedBy onwardRuns hint extension)).bind
      fun result second toSecond both => ?_
  obtain ⟨resolved, most, documented⟩ := result
  obtain ⟨given, resolvedBy⟩ := both
  have fitsSecond := toSecond.fits (toFirst.fits fits)
  refine (addMember_shows fitsSecond given.value (.inl ⟨declaration, rfl⟩)).bind
    fun _ third toThird shown => ?_
  rw [given.name, given.path] at shown
  -- What the extension adds changes nothing about the field.
  refine Runs.weaken (?goesOn : Runs context pending pending _ third fun _ final =>
    Steps context ⟨pending, third⟩ ⟨pending, final⟩ ∧
      ∀ given, extension = some given → ∃ reached, (onward.extension { scope with
        ancestors := site.dottedPath ++ ".", nullable := site.nullable } given).run reached =
          .ok ((), final)) ?_
  case goesOn =>
    split
    next extension =>
      refine (onwardRuns.extension _ _ _ _ (toThird.fits fitsSecond).moved).recorded.weaken ?_
      intro _ final steps added
      refine ⟨steps, fun given same => ⟨third, ?_⟩⟩
      obtain rfl := Option.some.inj same
      exact added.2
    next => exact .returns ⟨.refl, by simp⟩
  intro _ final _ both
  obtain ⟨more, walked⟩ := both
  exact (resolvedBy.mono fun named => more.nameAt (toThird.nameAt named)).becomes referenced
    (more.shows shown) walked

/-! ## The decision -/

section Families

open RuleFamily

variable {rules : FieldRules} {name : String}

/-- Without an inferred target, a relation is there by a rule of its family, and no earlier family
applies. -/
theorem decisive_of_relation? {relation : Relation}
    (asked : relation? context rules name none = some relation) :
    decisive rules name type = some relation.family := by
  simp only [relation?] at asked
  split at asked
  next once =>
    cases asked
    simp [decisive, effective, leading, applies, isAsked, isFit, once, Relation.family]
  next notOnce =>
    split at asked
    next many =>
      cases asked
      simp_all [decisive, effective, leading, applies, isAsked, isFit, Relation.family]
    next notMany =>
      split at asked
      next shared =>
        cases asked
        simp_all [decisive, effective, leading, applies, isAsked, isFit, Relation.family]
      next => cases asked

/-- Without a relation, the families of the bag and of flattening come first. -/
theorem decisive_of_unrelated (unrelated : relation? context rules name none = none) :
    decisive rules name type =
      if rules.json.contains name then some .json
      else if (flattened? rules name type).isSome then some .flatten
      else valued.find? (applies rules name type) := by
  simp only [relation?] at unrelated
  split at unrelated
  · cases unrelated
  next notOnce =>
    split at unrelated
    · cases unrelated
    next notMany =>
      split at unrelated
      · cases unrelated
      next notShared =>
        have once : applies rules name type .oneToOne = false := by
          simp_all [applies, isAsked]
        have many : applies rules name type .oneToMany = false := by
          simp_all [applies, isAsked]
        have shared : applies rules name type .manyToMany = false := by
          simp_all [applies, isAsked]
        have json : applies rules name type .json = rules.json.contains name := Bool.and_true _
        rw [← json, ← applies_flatten, decisive, effective, leading]
        simp only [List.cons_append, List.nil_append, List.find?_cons, once, many, shared]
        cases applies rules name type .json <;> cases applies rules name type .flatten <;> rfl

end Families

/-- A walk that flattens is what the walk of the members is. -/
theorem flatten_recorded (onwardRuns : OnwardRuns context onward)
    (fits : scope.Fits context ⟨pending, state⟩) (members : ComplexType) :
    Runs context pending pending (flatten onward scope site members) state fun _ final =>
      (onward.members (scope.flattened site.dottedPath (site.doc.getD site.name) site.nullable)
        members).run state = .ok ((), final) := by
  unfold flatten
  have counts {reached : State} : Runs context pending pending (produced scope.typePath) reached
      fun _ final => final = reached := by
    refine Runs.bind .reads fun value final _ ⟨_, same⟩ => ?_
    exact .returns same
  refine counts.bind fun before first toFirst same => ?_
  subst same
  refine (onwardRuns.members _ _ _ _ (toFirst.fits fits).moved).recorded.bind
    fun _ second _ ⟨_, ran⟩ => ?_
  refine counts.bind fun after third _ same => ?_
  subst same
  split
  · exact .fails
  · exact .returns ran

theorem recordBag_becomes {key : String} {doc : Option String} :
    Runs context pending pending (recordBag context scope key doc type) state
      fun _ final => final.entities = state.entities ∧
        ∃ bag, final.bags.get? scope.typePath = some bag ∧ bag.has key = true := by
  refine (Runs.changes (.bagged scope.typePath _) (.of_same rfl) (.override _ _)).weaken
    fun _ final _ same => ?_
  subst same
  refine ⟨rfl, _, Table.get?_set_self _ _ _, ?_⟩
  rw [Table.has_iff_mem_names, mem_names_override]
  exact .inr ((Table.mem_names_set _ _ _ _).mpr (.inl rfl))

/-- The families of the bag and of flattening come first, and then those of values. -/
theorem classifyUnrelated_becomes (onwardRuns : OnwardRuns context onward)
    (fits : scope.Fits context ⟨pending, state⟩) (bagKey : String) :
    Runs context pending pending
      (classifyUnrelated context onward scope site bagKey declaration type) state
      fun _ final => Becomes context onward scope site bagKey declaration type state final
        (if scope.rules.json.contains site.name then some .json
        else if (flattened? scope.rules site.name type).isSome then some .flatten
        else RuleFamily.valued.find? (RuleFamily.applies scope.rules site.name type)) := by
  unfold classifyUnrelated
  split
  next bagged =>
    split
    next wanted =>
      refine recordBag_becomes.weaken fun _ _ _ ⟨untouched, kept⟩ => ?_
      exact ⟨untouched, .inr kept⟩
    next leftOut => exact .returns ⟨rfl, .inl (by simpa using leftOut)⟩
  next =>
    cases flat : flattened? scope.rules site.name type with
    | some members =>
      obtain ⟨-, rfl, -⟩ := flattened?_eq_some.mp flat
      exact (flatten_recorded onwardRuns fits members).weaken fun _ _ _ ran => ⟨members, rfl, ran⟩
    | none =>
      exact (unflattenedHint_runs site type).bind fun hint _ steps _ =>
        classifyPlain_becomes onwardRuns (steps.fits fits) hint bagKey state

/-- What a rule asks for does not depend on the number of occurrences, and the family that decides
makes of the element what it makes. -/
theorem classifyElement_becomes (onwardRuns : OnwardRuns context onward)
    (fits : scope.Fits context ⟨pending, state⟩)
    (typed : context.index.elementComplexType declaration = .ok type)
    (explicit : hasExplicitRule scope.rules site.name type.isSome = true) (bagKey : String) :
    Runs context pending pending
      (classifyElement context onward scope site bagKey declaration) state
      fun _ final => Becomes context onward scope site bagKey declaration type state final
        (RuleFamily.decisive scope.rules site.name type) := by
  rw [classifyElement_eq]
  refine (Runs.lifts _).bind fun found reached _ ⟨same, final⟩ => ?_
  subst final
  obtain rfl : type = found := Except.ok.inj (typed.symm.trans same)
  rw [inferTarget?, if_pos explicit, pure_bind]
  split
  next relation asked =>
    rw [decisive_of_relation? asked]
    exact addRelation_decides onwardRuns fits typed bagKey relation
  next unrelated =>
    rw [decisive_of_unrelated unrelated]
    exact classifyUnrelated_becomes onwardRuns fits bagKey

end Shown

end EntityGraph.Compile
