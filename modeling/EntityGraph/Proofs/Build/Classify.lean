import EntityGraph.Proofs.Build.Repeats

/-!
# Classification takes steps

What an element or attribute becomes is added by steps of a build, with a known origin, and a
repeated element leads to many values. The walks that lead to other entities and types are taken as
given here: `OnwardRuns` says what is known of them.
-/
namespace EntityGraph.Compile

/-- The field is the back reference of a relation of an entity that has been opened. -/
def IsBackReference (state : State) (field : Field) : Prop :=
  ∃ path owner relation name oneToOne,
    state.NameAt path owner ∧ field = backReference owner relation name oneToOne

/-- The entity of a type path is the other end of every relation whose back reference is among the
fields. -/
def State.IsOtherEndOfAll (book : RuleBook) (state : State) (path entity : String)
    (fields : List Field) : Prop :=
  ∀ owner relation name oneToOne, backReference owner relation name oneToOne ∈ fields →
    state.IsOtherEnd book path entity owner relation name oneToOne

/-- Leaving the type at hand takes steps. The entity that is built has the name that is given back,
and has received the further fields. -/
structure OnwardRuns (context : Context) (onward : Onward) : Prop where
  build : ∀ pending state path type fields, (∀ field ∈ fields, IsBackReference state field) →
    Runs context pending pending (onward.build path type fields) state fun entity final =>
      final.NameAt path entity ∧ final.IsOtherEndOfAll context.book path entity fields
  members : ∀ pending state scope type, scope.Fits context ⟨pending, state⟩ →
    Runs context pending pending (onward.members scope type) state fun _ _ => True
  extension : ∀ pending state scope extension, scope.Fits context ⟨pending, state⟩ →
    Runs context pending pending (onward.extension scope extension) state fun _ _ => True

variable {context : Context} {onward : Onward} {pending : List String} {state : State}
  {scope : Scope}

/-! ## Elements without a relation -/

/-- The type whose members take the place of an element, where the rules ask for it. -/
def flattened? (rules : FieldRules) (name : String) (type : Option Schema.ComplexType) :
    Option Schema.ComplexType :=
  if asksForFlattening rules name type.isSome then type.filter (·.simpleContent.isNone) else none

theorem flattened?_eq_some {rules : FieldRules} {name : String} {type : Option Schema.ComplexType}
    {members : Schema.ComplexType} :
    flattened? rules name type = some members ↔
      asksForFlattening rules name type.isSome = true ∧
        type = some members ∧ members.simpleContent.isNone = true := by
  rw [flattened?, ite_eq_iff]
  simp [Option.filter_eq_some_iff]

/-- A request to flatten that comes to nothing leaves a hint. -/
def unflattenedHint (scope : Scope) (site : Site) (type : Option Schema.ComplexType) :
    Walk (Option String) :=
  if asksForFlattening scope.rules site.name type.isSome then flatteningHint scope site type
  else pure none

/-- What becomes of an element that stands in no relation. -/
def classifyUnrelated (context : Context) (onward : Onward) (scope : Scope) (site : Site)
    (bagKey : String) (declaration : Schema.Element) (type : Option Schema.ComplexType) :
    Walk Unit :=
  if scope.rules.json.contains site.name then
    if !scope.rules.dropAfterProcessing.contains site.name then
      recordBag context scope bagKey site.doc type
    else pure ()
  else
    match flattened? scope.rules site.name type with
    | some members => flatten onward scope site members
    | none => unflattenedHint scope site type >>=
        classifyPlain context onward scope site declaration type

/-- A relation goes first. -/
theorem classifyElement_eq (context : Context) (onward : Onward) (scope : Scope) (site : Site)
    (bagKey : String) (declaration : Schema.Element) :
    classifyElement context onward scope site bagKey declaration = (do
      let type ← context.index.elementComplexType declaration
      let inferred ← inferTarget? context scope site declaration type.isSome
      match relation? context scope.rules site.name inferred with
      | some relation => addRelation context onward scope site declaration inferred relation
      | none => classifyUnrelated context onward scope site bagKey declaration type) := by
  unfold classifyElement classifyUnrelated unflattenedHint flattened?
  refine bind_congr fun type => bind_congr fun inferred => ?_
  cases relation? context scope.rules site.name inferred with
  | some relation => rfl
  | none =>
    refine if_congr Iff.rfl rfl ?_
    cases asked : asksForFlattening scope.rules site.name type.isSome with
    | false => rfl
    | true =>
      cases type with
      | none => rfl
      | some members => cases plain : members.simpleContent <;> simp [plain, Option.filter]

/-! ## Relations -/

theorem repeatedElement_runs (site : Site) (declaration : Schema.Element) :
    Runs context pending pending (repeatedElement context scope site declaration) state
      fun _ _ => True := by
  unfold repeatedElement
  split
  · exact .returns trivial
  · refine (Runs.lifts _).bind fun type reached _ _ => ?_
    split
    · exact .returns trivial
    · exact (notify_runs (by nofun)).bind fun _ _ _ _ => .returns trivial

theorem repeatedTarget_runs (site : Site) (declaration : Schema.Element) :
    Runs context pending pending (repeatedTarget context scope site declaration) state
      fun _ _ => True := by
  refine (repeatedElement_runs site declaration).bind fun (inner, name) reached _ _ => ?_
  refine (Runs.lifts _).bind fun type final _ _ => ?_
  split
  · exact .returns trivial
  · exact .fails

theorem inferTarget?_runs (site : Site) (declaration : Schema.Element) (isComplex : Bool) :
    Runs context pending pending (inferTarget? context scope site declaration isComplex) state
      fun inferred _ => inferred.isSome = true →
        hasExplicitRule scope.rules site.name isComplex = false := by
  unfold inferTarget?
  split
  next => exact .returns (by simp)
  next implicit =>
    refine (Runs.lifts _).bind fun repeats reached _ _ => ?_
    split
    · exact (repeatedTarget_runs site declaration).bind fun _ _ _ _ =>
        .returns fun _ => Bool.eq_false_iff.mpr implicit
    · exact .returns (by simp)

theorem singleTarget_runs (site : Site) (declaration : Schema.Element) :
    Runs context pending pending (singleTarget context scope site declaration) state
      fun _ _ => True := by
  refine (Runs.lifts _).bind fun type reached _ _ => ?_
  split
  · exact .returns trivial
  · exact .fails

theorem manyTarget_runs (site : Site) (declaration : Schema.Element) (configured : Option String)
    (inferred : Option Target) :
    Runs context pending pending (manyTarget context scope site declaration configured inferred)
      state fun _ _ => True := by
  unfold manyTarget
  split
  · exact .returns trivial
  · exact .returns trivial
  · exact repeatedTarget_runs site declaration

/-- Finishing a draft and adding it to the entity of its place. -/
theorem addFinished_runs {draft : Field} {text primitive : Option String}
    (fits : scope.Fits context ⟨pending, state⟩) (drafted : Draft context state scope draft) :
    Runs context pending pending
      (do addField context scope.rules scope.typePath
            (← finishField context scope text primitive draft)) state
      fun _ final => Spares scope.rules draft → draft.kind.isCollection = true →
        final.HoldsMany scope.typePath draft.name draft.dottedPath := by
  refine (Runs.lifts _).bind fun field reached _ ⟨finished, same⟩ => ?_
  subst same
  refine (addField_runs fits (.finished drafted finished)).weaken
    fun _ final _ received spares many => ?_
  obtain ⟨name, path, _⟩ := Field.declaration_eq_iff.mp (finishField_form finished).1
  rw [← name, ← path]
  exact received.holdsMany (name ▸ spares.1) (finishField_isCollection finished spares many)

/-- Adding a field that leads to many rows. -/
theorem addMany_runs (fits : scope.Fits context ⟨pending, state⟩) {site : Site} {kind : FieldKind}
    (many : kind.isCollection = true)
    (drafted : Draft context state scope
      { site.field scope kind with maxOccurs := .unbounded }) :
    Runs context pending pending
      (do addField context scope.rules scope.typePath
            (← finishField context scope none none
              { site.field scope kind with maxOccurs := .unbounded })) state
      fun _ final => SparesName scope.rules site.name →
        final.HoldsMany scope.typePath site.name site.dottedPath := by
  refine (addFinished_runs fits drafted).weaken fun _ _ _ held spares => ?_
  exact held ⟨spares.1, .inl spares.2⟩ many

/-- The target of a relation is built with the back reference, and is its other end from there
on. -/
theorem addReverse_builds {ensures : Unit → State → Prop} (onwardRuns : OnwardRuns context onward)
    (fits : scope.Fits context ⟨pending, state⟩) (site : Site) (oneToOne : Bool) (target : Target)
    (adds : ∀ entity reverse reached, Steps context ⟨pending, state⟩ ⟨pending, reached⟩ →
      reached.NameAt target.path entity →
      reached.IsOtherEnd context.book target.path entity scope.entity site.name reverse oneToOne →
      Runs context pending pending
        (do
          let field := if oneToOne then site.field scope (.reverseOneToOne entity reverse)
            else { site.field scope (.reverseOneToMany entity reverse) with
              maxOccurs := .unbounded }
          addField context scope.rules scope.typePath
            (← finishField context scope none none field)) reached ensures) :
    Runs context pending pending (addReverse context onward scope site oneToOne target) state
      ensures := by
  refine Runs.bind .reads fun value reached _ ⟨same, final⟩ => ?_
  subst same final
  extract_lets reverseField back
  have isBack : ∀ field ∈ [back], IsBackReference reached field := by
    intro field member
    obtain rfl := List.mem_singleton.mp member
    exact ⟨scope.typePath, scope.entity, site.name, reverseField, oneToOne, fits.named, rfl⟩
  refine (onwardRuns.build _ _ _ _ _ isBack).bind fun entity built steps ⟨named, given⟩ => ?_
  exact adds entity reverseField built steps named
    (given scope.entity site.name reverseField oneToOne List.mem_cons_self)

theorem addReverse_runs (onwardRuns : OnwardRuns context onward)
    (fits : scope.Fits context ⟨pending, state⟩) (site : Site) (oneToOne : Bool) (target : Target) :
    Runs context pending pending (addReverse context onward scope site oneToOne target) state
      fun _ final => oneToOne = false → SparesName scope.rules site.name →
        final.HoldsMany scope.typePath site.name site.dottedPath := by
  refine addReverse_builds onwardRuns fits site oneToOne target
    fun entity reverse reached steps _ other => ?_
  cases oneToOne with
  | true =>
    exact (addFinished_runs (steps.fits fits) (.reverseOneToOne other)).weaken
      fun _ _ _ _ single => by cases single
  | false =>
    exact (addMany_runs (steps.fits fits) rfl (.reverseOneToMany other)).weaken
      fun _ _ _ held _ => held

theorem addManyToMany_runs (onwardRuns : OnwardRuns context onward)
    (fits : scope.Fits context ⟨pending, state⟩) (site : Site) (target : Target) :
    Runs context pending pending (addManyToMany context onward scope site target) state
      fun _ final => SparesName scope.rules site.name →
        final.HoldsMany scope.typePath site.name site.dottedPath := by
  refine (onwardRuns.build _ _ _ _ _ (by simp)).bind fun entity built steps ⟨named, _⟩ => ?_
  exact addMany_runs (steps.fits fits) rfl (.manyToMany named)

theorem addRelation_runs (onwardRuns : OnwardRuns context onward)
    (fits : scope.Fits context ⟨pending, state⟩) (site : Site) (declaration : Schema.Element)
    (inferred : Option Target) (relation : Relation) :
    Runs context pending pending
      (addRelation context onward scope site declaration inferred relation) state
      fun _ final => relation ≠ .oneToOne → SparesName scope.rules site.name →
        final.HoldsMany scope.typePath site.name site.dottedPath := by
  cases relation with
  | oneToOne =>
    refine (singleTarget_runs site declaration).bind fun target reached steps _ => ?_
    exact (addReverse_runs onwardRuns (steps.fits fits) site true target).weaken
      fun _ _ _ _ many => absurd rfl many
  | oneToMany =>
    refine (manyTarget_runs site declaration _ inferred).bind fun target reached steps _ => ?_
    exact (addReverse_runs onwardRuns (steps.fits fits) site false target).weaken
      fun _ _ _ held _ => held rfl
  | manyToMany =>
    refine (manyTarget_runs site declaration _ inferred).bind fun target reached steps _ => ?_
    exact (addManyToMany_runs onwardRuns (steps.fits fits) site target).weaken
      fun _ _ _ held _ => held

/-! ## Values -/

theorem namedScalar_runs (name : String) :
    Runs context pending pending (namedScalar context name) state fun _ _ => True :=
  deriveScalar_runs (Scalar.named_continues _ name _)

/-- The kind is a single scalar, or a reference to an entity that has been opened. -/
def IsSingleValue (resolved : ResolvedKind) (state : State) : Prop :=
  state.IsValue resolved.kind ∧ resolved.kind.isCollection = false

theorem scalar_isSingleValue (repr : ScalarRepr) (primitive : Option String) :
    IsSingleValue ⟨.scalar repr, primitive⟩ state := ⟨trivial, rfl⟩

/-- Building an entity and referring to it. -/
theorem reference_runs (onwardRuns : OnwardRuns context onward) (path : String)
    (type : Option Schema.ComplexType) {oneToOne : Bool} {onDelete : OnDelete}
    (owns : oneToOne = true → onDelete = .cascade) :
    Runs context pending pending
      (do return .reference (← onward.build path type []) oneToOne onDelete) state
      IsSingleValue := by
  refine (onwardRuns.build _ _ _ _ _ (by simp)).bind fun entity built _ ⟨named, _⟩ => ?_
  exact .returns ⟨⟨⟨path, named⟩, owns⟩, rfl⟩

theorem resolveNamed_runs (onwardRuns : OnwardRuns context onward) (name : String) :
    Runs context pending pending (resolveNamed context onward name) state IsSingleValue := by
  unfold resolveNamed
  split
  · exact (namedScalar_runs name).bind fun repr _ _ _ => .returns (scalar_isSingleValue repr _)
  · exact (Runs.lifts _).bind fun type _ _ _ => reference_runs onwardRuns name (some type) nofun

theorem resolveValue_runs (onwardRuns : OnwardRuns context onward) (name : String)
    (hint : Option String) (member : Schema.Member) :
    Runs context pending pending (resolveValue context onward scope name hint member) state
      IsSingleValue := by
  unfold resolveValue
  extract_lets types
  split
  · exact resolveNamed_runs onwardRuns _
  · exact (deriveScalar_runs (Scalar.inline_continues _ _ _)).bind fun repr _ _ _ =>
      .returns (scalar_isSingleValue repr _)
  · exact reference_runs onwardRuns _ _ fun _ => rfl
  · exact (namedScalar_runs _).bind fun repr _ _ _ => .returns (scalar_isSingleValue repr _)

theorem resolveForeignKey_runs (onwardRuns : OnwardRuns context onward) (name target : String)
    (type : Option Schema.ComplexType) :
    Runs context pending pending (resolveForeignKey onward scope name target type) state
      IsSingleValue := by
  unfold resolveForeignKey
  split
  · split
    · exact reference_runs onwardRuns _ _ fun owns => by cases owns
    · exact .fails
  · exact reference_runs onwardRuns _ _ fun owns => by cases owns

theorem listKind_isValue {resolved list : ResolvedKind} {path : String}
    (listed : listKind resolved path = .ok list) : state.IsValue list.kind := by
  unfold listKind at listed
  split at listed
  · cases listed
    trivial
  · cases listed

/-- The kind of an element is that of a value, and its number of occurrences stays unless it is
one. Its name and path stay. -/
structure IsElementValue (declaration : Schema.Element) (site : Site)
    (result : ResolvedKind × Schema.MaxOccurs × Site) (state : State) : Prop where
  value : state.IsValue result.1.kind
  most : declaration.occurs.most ≠ .one → result.2.1 ≠ .one
  name : result.2.2.name = site.name
  path : result.2.2.dottedPath = site.dottedPath

/-- Resolving a value and taking a list of it. -/
theorem resolveList_runs (onwardRuns : OnwardRuns context onward) {declaration : Schema.Element}
    (site documented : Site) {most : Schema.MaxOccurs}
    (repeated : declaration.occurs.most ≠ .one → most ≠ .one)
    (name_eq : documented.name = site.name) (path_eq : documented.dottedPath = site.dottedPath)
    (name path : String) (member : Schema.Member) :
    Runs context pending pending
      (do
        let resolved ← resolveValue context onward scope name none member
        return (← listKind resolved path, most, documented)) state
      (IsElementValue declaration site) := by
  refine (resolveValue_runs onwardRuns name none member).bind fun resolved _ _ _ => ?_
  refine (Runs.lifts _).bind fun list final _ ⟨listed, _⟩ => ?_
  exact .returns ⟨listKind_isValue listed, repeated, name_eq, path_eq⟩

theorem resolveArray_runs (onwardRuns : OnwardRuns context onward) (site : Site)
    (declaration : Schema.Element) (type : Option Schema.ComplexType) :
    Runs context pending pending (resolveArray context onward scope site declaration type) state
      (IsElementValue declaration site) := by
  unfold resolveArray
  extract_lets path
  split
  · exact resolveList_runs onwardRuns site site id rfl rfl _ _ _
  · split
    · exact .fails
    · extract_lets most inner documented
      -- Only where the element occurs once, the first element inside of it counts.
      have stays (repeated : declaration.occurs.most ≠ .one) : most ≠ .one := by
        have several := fun one => repeated (Schema.MaxOccurs.isOne_iff.mp one)
        simp only [most, if_neg several]
        exact repeated
      exact resolveList_runs onwardRuns site documented stays rfl rfl _ _ _

theorem resolveElement_runs (onwardRuns : OnwardRuns context onward) (site : Site)
    (declaration : Schema.Element) (type : Option Schema.ComplexType) (hint : Option String)
    (extension : Option Schema.Extension) :
    Runs context pending pending
      (resolveElement context onward scope site declaration type hint extension) state
      (IsElementValue declaration site) := by
  unfold resolveElement
  split
  · exact resolveArray_runs onwardRuns site declaration type
  · split
    · refine (resolveForeignKey_runs onwardRuns _ _ _).bind fun resolved _ _ value => ?_
      exact Runs.returns ⟨value.1, id, rfl, rfl⟩
    next extension _ =>
      refine (onwardRuns.build _ _ _ _ _ (by simp)).bind fun entity _ _ ⟨named, _⟩ => ?_
      rw [pure_bind]
      exact Runs.returns ⟨⟨⟨extension.base, named⟩, nofun⟩, id, rfl, rfl⟩
    · refine (resolveValue_runs onwardRuns _ _ _).bind fun resolved _ _ value => ?_
      exact Runs.returns ⟨value.1, id, rfl, rfl⟩

/-! ## The decision -/

/-- An element whose kind does not fit its number of occurrences is refused, so what is added
agrees with it. An attribute is not checked: it is never a list, and occurs once. -/
theorem addMember_agrees {ensures : Unit → State → Prop} {site : Site} {member : Schema.Member}
    {resolved : ResolvedKind} {most : Schema.MaxOccurs}
    (consistent : (∃ declaration, member = .element declaration) ∨
      resolved.kind.isCollection = !most.isOne)
    (adds : resolved.kind.isCollection = !most.isOne →
      Runs context pending pending
        (do addField context scope.rules scope.typePath
              (← finishField context scope member.valueText resolved.primitive
                { site.field scope resolved.kind with maxOccurs := most })) state ensures) :
    Runs context pending pending (addMember context scope site member resolved most) state
      ensures := by
  unfold addMember
  extract_lets plain draft proceed
  split
  next declaration =>
    split
    · exact .fails_bind
    next differ =>
      have kind : draft.kind = resolved.kind := rfl
      rw [kind] at differ
      refine adds ?_
      revert differ
      cases resolved.kind.isCollection <;> cases most.isOne <;> simp
  next other =>
    rcases consistent with ⟨declaration, element⟩ | agrees
    · exact absurd element (other declaration)
    · exact adds agrees

theorem addMember_runs (fits : scope.Fits context ⟨pending, state⟩) (site : Site)
    (member : Schema.Member) (resolved : ResolvedKind) (most : Schema.MaxOccurs)
    (value : state.IsValue resolved.kind)
    (consistent : (∃ declaration, member = .element declaration) ∨
      resolved.kind.isCollection = !most.isOne) :
    Runs context pending pending (addMember context scope site member resolved most) state
      fun _ final => most ≠ .one → scope.rules.dropAfterProcessing.contains site.name = false →
        final.HoldsMany scope.typePath site.name site.dottedPath := by
  refine addMember_agrees consistent fun agrees => ?_
  refine (addFinished_runs fits (.value value agrees)).weaken fun _ _ _ held repeated wanted => ?_
  have many : resolved.kind.isCollection = true := by
    rw [agrees, Bool.not_eq_true', Bool.eq_false_iff]
    exact fun one => repeated (Schema.MaxOccurs.isOne_iff.mp one)
  exact held ⟨wanted, .inr (value.repr?_isSome many)⟩ many

theorem recordBag_runs (key : String) (doc : Option String) (type : Option Schema.ComplexType) :
    Runs context pending pending (recordBag context scope key doc type) state fun _ _ => True :=
  addToBag_runs _ _

theorem classifyAttribute_runs (onwardRuns : OnwardRuns context onward)
    (fits : scope.Fits context ⟨pending, state⟩) (site : Site) (bagKey : String)
    (declaration : Schema.Attribute) :
    Runs context pending pending
      (classifyAttribute context onward scope site bagKey declaration) state fun _ _ => True := by
  unfold classifyAttribute
  split
  · split
    · exact recordBag_runs _ _ _
    · exact .returns trivial
  · refine (resolveValue_runs onwardRuns _ _ _).bind fun resolved reached steps value => ?_
    have single : resolved.kind.isCollection = !Schema.MaxOccurs.one.isOne := value.2
    exact (addMember_runs (steps.fits fits) _ _ _ _ value.1 (.inr single)).weaken
      fun _ _ _ _ => trivial

theorem referencedExtension?_runs (site : Site) (type : Option Schema.ComplexType) :
    Runs context pending pending (referencedExtension? scope site type) state fun _ _ => True := by
  unfold referencedExtension?
  split
  · exact .returns trivial
  · extract_lets path
    split
    · exact .fails
    · extract_lets proceed
      split
      · exact (notify_runs (by nofun)).bind fun _ _ _ _ => Runs.returns trivial
      · exact .returns trivial

theorem classifyPlain_runs (onwardRuns : OnwardRuns context onward)
    (fits : scope.Fits context ⟨pending, state⟩) (site : Site) (declaration : Schema.Element)
    (type : Option Schema.ComplexType) (hint : Option String) :
    Runs context pending pending
      (classifyPlain context onward scope site declaration type hint) state
      fun _ final => declaration.occurs.most ≠ .one →
        KeepsNamed context scope.rules site.name declaration →
          final.HoldsMany scope.typePath site.name site.dottedPath := by
  refine (referencedExtension?_runs site type).bind fun extension first toFirst _ => ?_
  refine (resolveElement_runs onwardRuns site declaration type hint extension).bind
    fun (resolved, most, documented) second toSecond given => ?_
  have fitsSecond := toSecond.fits (toFirst.fits fits)
  refine (addMember_runs fitsSecond documented (.element declaration) resolved most given.value
    (.inl ⟨declaration, rfl⟩)).bind fun _ third toThird held => ?_
  have heldThird (repeated : declaration.occurs.most ≠ .one)
      (keeps : KeepsNamed context scope.rules site.name declaration) :
      third.HoldsMany scope.typePath site.name site.dottedPath := by
    rw [← given.name, ← given.path]
    exact held (given.most repeated) (given.name ▸ keeps.wanted)
  split
  · exact (onwardRuns.extension _ _ _ _ (toThird.fits fitsSecond).moved).weaken
      fun _ _ more _ repeated keeps => more.holdsMany (heldThird repeated keeps)
  · exact .returns heldThird

theorem flatten_runs (onwardRuns : OnwardRuns context onward)
    (fits : scope.Fits context ⟨pending, state⟩) (site : Site) (type : Schema.ComplexType) :
    Runs context pending pending (flatten onward scope site type) state fun _ _ => True := by
  refine (produced_runs _).bind fun before first toFirst _ => ?_
  refine (onwardRuns.members _ _ _ _ (toFirst.fits fits).moved).bind fun _ second _ _ => ?_
  refine (produced_runs _).bind fun after third _ _ => ?_
  split
  · exact .fails
  · exact .returns trivial

theorem flatteningHint_runs (site : Site) (type : Option Schema.ComplexType) :
    Runs context pending pending (flatteningHint scope site type) state fun _ _ => True := by
  unfold flatteningHint
  extract_lets path
  split
  · exact (notify_runs (by nofun)).bind fun _ _ _ _ => .returns trivial
  · split
    · exact (notify_runs (by nofun)).bind fun _ _ _ _ => .returns trivial
    · exact .returns trivial

theorem unflattenedHint_runs (site : Site) (type : Option Schema.ComplexType) :
    Runs context pending pending (unflattenedHint scope site type) state fun _ _ => True := by
  unfold unflattenedHint
  split
  · exact flatteningHint_runs site type
  · exact .returns trivial

theorem classifyElement_runs (onwardRuns : OnwardRuns context onward)
    (fits : scope.Fits context ⟨pending, state⟩) (site : Site) (bagKey : String)
    (declaration : Schema.Element) :
    Runs context pending pending
      (classifyElement context onward scope site bagKey declaration) state
      fun _ final => declaration.occurs.most ≠ .one →
        KeepsNamed context scope.rules site.name declaration →
          final.HoldsMany scope.typePath site.name site.dottedPath := by
  rw [classifyElement_eq]
  refine (Runs.lifts _).bind fun type first toFirst ⟨typed, _⟩ => ?_
  refine (inferTarget?_runs site declaration _).bind fun inferred second toSecond implicit => ?_
  have fitsSecond := toSecond.fits (toFirst.fits fits)
  -- Where the settings keep the element, they put it in no bag and do not flatten its type.
  split
  next relation asked =>
    exact (addRelation_runs onwardRuns fitsSecond site declaration inferred relation).weaken
      fun _ _ _ held _ keeps => held (keeps.relation_ne asked) (keeps.sparesName asked implicit)
  next none_ =>
    obtain rfl := inferred_eq_none_of_relation? none_
    unfold classifyUnrelated
    split
    next bagged =>
      have never (keeps : KeepsNamed context scope.rules site.name declaration) : False :=
        absurd bagged (Bool.eq_false_iff.mp (keeps.unbagged none_))
      split
      · exact (recordBag_runs _ _ _).weaken fun _ _ _ _ _ keeps => (never keeps).elim
      · exact .returns fun _ keeps => (never keeps).elim
    · split
      next members flat =>
        obtain ⟨asked, rfl, plain⟩ := flattened?_eq_some.mp flat
        refine (flatten_runs onwardRuns fitsSecond site _).weaken fun _ _ _ _ _ keeps => ?_
        have whole := keeps.whole none_ members typed (Option.isNone_iff_eq_none.mp plain)
        exact absurd asked (Bool.eq_false_iff.mp whole)
      next =>
        exact (unflattenedHint_runs site type).bind fun hint _ steps _ =>
          classifyPlain_runs onwardRuns (steps.fits fitsSecond) site declaration type hint

theorem classify_runs (onwardRuns : OnwardRuns context onward)
    (fits : scope.Fits context ⟨pending, state⟩) (nullable : Bool) (member : Schema.Member) :
    Runs context pending pending (classify context onward scope nullable member) state
      fun _ final => ∀ declaration, member = .element declaration →
        declaration.occurs.most ≠ .one → KeepsCount context scope declaration →
          final.HoldsMany scope.typePath (scope.settledName declaration)
            (scope.elementPath declaration) := by
  unfold classify
  extract_lets rules localName dottedPath name coalesced settled bagKey site
  split
  next drops =>
    refine (addField_runs fits .dropped).weaken fun _ _ _ _ declaration element _ keeps => ?_
    subst element
    exact absurd drops (Bool.eq_false_iff.mp keeps.kept)
  next =>
    split
    next parent =>
      refine (addField_runs fits .parentAlias).weaken
        fun _ _ _ _ declaration element _ keeps => ?_
      subst element
      exact absurd (beq_iff_eq.mp parent) keeps.noParent
    next =>
      split
      · exact (classifyAttribute_runs onwardRuns fits _ _ _).weaken
          fun _ _ _ _ _ element => by cases element
      · refine (classifyElement_runs onwardRuns fits _ _ _).weaken
          fun _ _ _ held declaration element repeated keeps => ?_
        cases element
        exact held repeated keeps.named

/-! ## Walking -/

theorem walkAttributes_runs (onwardRuns : OnwardRuns context onward)
    (fits : scope.Fits context ⟨pending, state⟩) (items : List Schema.AttributeItem) :
    Runs context pending pending (walkAttributes context onward scope items) state
      fun _ _ => True := by
  refine Runs.repeats (fun _ => True) trivial fun item _ reached steps _ => ?_
  split
  · split
    · exact (classify_runs onwardRuns (steps.fits fits) _ _).weaken fun _ _ _ _ => trivial
    · exact .returns trivial
  · exact .fails

mutual

theorem walkParticle_runs (onwardRuns : OnwardRuns context onward) {state : State} {scope : Scope}
    (fits : scope.Fits context ⟨pending, state⟩) (particle : Schema.Particle) :
    Runs context pending pending (walkParticle context onward scope particle) state
      fun _ final => final.HoldsRepeated context scope particle := by
  match particle with
  | .element declaration =>
    rw [walkParticle]
    refine (classify_runs onwardRuns fits _ _).weaken fun _ _ _ held other part repeated keeps => ?_
    cases part
    exact held declaration rfl repeated keeps
  | .compositor .sequence occurs parts =>
    rw [walkParticle]
    exact (walkParts_runs onwardRuns fits.moved parts).weaken fun _ _ _ held =>
      State.holdsRepeated_of_parts held
  | .compositor .choice occurs parts =>
    rw [walkParticle]
    refine nextChoice_runs.bind fun choice reached steps _ => ?_
    exact (walkParts_runs onwardRuns (steps.fits fits).moved parts).weaken fun _ _ _ held =>
      State.holdsRepeated_of_parts held
  | .any wildcard =>
    rw [walkParticle]
    exact (addToBag_runs _ _).weaken fun _ _ _ _ _ inside => by cases inside
  | .group reference occurs =>
    rw [walkParticle]
    exact .fails

theorem walkParts_runs (onwardRuns : OnwardRuns context onward) {state : State} {scope : Scope}
    (fits : scope.Fits context ⟨pending, state⟩) (parts : List Schema.Particle) :
    Runs context pending pending (walkParts context onward scope parts) state
      fun _ final => ∀ part ∈ parts, final.HoldsRepeated context scope part := by
  match parts with
  | [] =>
    rw [walkParts]
    exact .returns (by simp)
  | part :: rest =>
    rw [walkParts]
    refine (walkParticle_runs onwardRuns fits part).bind fun _ reached steps held => ?_
    refine (walkParts_runs onwardRuns (steps.fits fits) rest).weaken fun _ _ more others => ?_
    exact List.forall_mem_cons.mpr ⟨more.holdsRepeated held, others⟩

end

theorem walkContent_runs (onwardRuns : OnwardRuns context onward)
    (fits : scope.Fits context ⟨pending, state⟩) (content : Option Schema.Particle) :
    Runs context pending pending (walkContent context onward scope content) state
      fun _ _ => True := by
  cases content with
  | none => exact .returns trivial
  | some particle =>
    exact (walkParticle_runs onwardRuns fits particle).weaken fun _ _ _ _ => trivial

theorem walkExtension_runs (onwardRuns : OnwardRuns context onward)
    (fits : scope.Fits context ⟨pending, state⟩) (extension : Schema.Extension) :
    Runs context pending pending (walkExtension context onward scope extension) state
      fun _ _ => True :=
  (walkAttributes_runs onwardRuns fits _).bind fun _ _ steps _ =>
    walkContent_runs onwardRuns (steps.fits fits) _

theorem walkOwnMembers_runs (onwardRuns : OnwardRuns context onward)
    (fits : scope.Fits context ⟨pending, state⟩) (type : Schema.ComplexType) :
    Runs context pending pending (walkOwnMembers context onward scope type) state
      fun _ _ => True := by
  refine (walkAttributes_runs onwardRuns fits _).bind fun _ first toFirst _ => ?_
  have fitsFirst := toFirst.fits fits
  refine (walkAttributes_runs onwardRuns fitsFirst _).bind fun _ second toSecond _ => ?_
  have fitsSecond := toSecond.fits fitsFirst
  refine (walkAttributes_runs onwardRuns fitsSecond _).bind fun _ third toThird _ => ?_
  have fitsThird := toThird.fits fitsSecond
  exact (walkContent_runs onwardRuns fitsThird _).bind fun _ _ toFourth _ =>
    walkContent_runs onwardRuns (toFourth.fits fitsThird) _

theorem walkMembers_runs (onwardRuns : OnwardRuns context onward)
    (fits : scope.Fits context ⟨pending, state⟩) (type : Schema.ComplexType) :
    Runs context pending pending (walkMembers context onward scope type) state fun _ _ => True :=
  Runs.repeats (fun _ => True) trivial fun item _ _ steps _ =>
    walkOwnMembers_runs onwardRuns (steps.fits fits) item

end EntityGraph.Compile
