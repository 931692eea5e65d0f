import EntityGraph.Proofs.Build.Histories
import EntityGraph.Proofs.Options
import EntityGraph.Proofs.Scalar.Recall

/-!
# Members of simple type

Where the rules only flatten, a member of simple type becomes a scalar field. The member alone
decides the scalar; its name, its path, and whether it may be null are those of the place. The field
comes last in the entity of the place, unless its name is taken, and then nothing is added.
-/
namespace EntityGraph

open Schema (ComplexType Element Index Member)

/-! ## Rules that only flatten -/

/-- Options that ask for nothing, unless for elements to be flattened. -/
def EntityOptions.OnlyFlattens (options : EntityOptions) : Prop :=
  { options with flattenFields := [], flattenPrefixes := [] } = EntityOptions.none

instance : DecidablePred EntityOptions.OnlyFlattens :=
  fun _ => inferInstanceAs (Decidable (_ = _))

theorem EntityOptions.onlyFlattens_iff {options : EntityOptions} :
    options.OnlyFlattens ↔ ∃ fields prefixes, options =
      { EntityOptions.none with flattenFields := fields, flattenPrefixes := prefixes } := by
  constructor
  · intro only
    refine ⟨options.flattenFields, options.flattenPrefixes, ?_⟩
    rw [← only]
  · rintro ⟨fields, prefixes, rfl⟩
    rfl

theorem onlyFlattens_layers : Layers EntityOptions.OnlyFlattens where
  none := rfl
  layered first second := by
    obtain ⟨fields, prefixes, rfl⟩ := EntityOptions.onlyFlattens_iff.mp first
    obtain ⟨others, more, rfl⟩ := EntityOptions.onlyFlattens_iff.mp second
    rfl

namespace Compile

/-- Rules that ask for nothing, unless for elements to be flattened. -/
def FieldRules.OnlyFlattens (rules : FieldRules) : Prop :=
  ∃ flatten fields prefixes, rules = { FieldRules.plain with
    flatten
    options := { EntityOptions.none with flattenFields := fields, flattenPrefixes := prefixes } }

theorem ofOptions_onlyFlattens {options : EntityOptions} {rules : FieldRules}
    (only : options.OnlyFlattens) (read : FieldRules.ofOptions options = .ok rules) :
    rules.OnlyFlattens := by
  obtain ⟨fields, prefixes, rfl⟩ := EntityOptions.onlyFlattens_iff.mp only
  cases patterns : PatternSet.ofTexts fields with
  | error failure =>
    simp only [FieldRules.ofOptions, EntityOptions.none, patterns] at read
    cases read
  | ok flatten =>
    simp only [FieldRules.ofOptions, EntityOptions.none, patterns] at read
    cases read
    exact ⟨flatten, fields, prefixes, rfl⟩

theorem forType_onlyFlattens {settings : Settings} {book : RuleBook} {entity typePath : String}
    {rules : FieldRules} (read : RuleBook.ofSettings settings = .ok book)
    (every : settings.EveryOptions EntityOptions.OnlyFlattens)
    (given : book.forType entity typePath = .ok rules) : rules.OnlyFlattens := by
  refine ofOptions_onlyFlattens ?_ given
  rw [← ofOptions_options given]
  exact rules_of_layers onlyFlattens_layers read every given

/-! ## Members of simple type -/

/-- The type of a member is simple. -/
def IsSimple (index : Index) : Member → Prop
  | .element declaration => index.elementComplexType declaration = .ok none
  | .attrib declaration => ∀ name, declaration.typeName = some name → index.complexType? name = none

/-- What is asked for to have the scalar of a simple member. -/
def scalarRequest (member : Member) : Scalar.Request :=
  match (declaredTypes member).name, (declaredTypes member).simple with
  | some name, _ => .byName name
  | none, some simple => .inPlace simple
  | none, none => .byName (declaredTypes member).fallback

/-- The primitive type as whose value the default of a simple member is read. -/
def memberPrimitive (index : Index) (member : Member) : Option String :=
  match (declaredTypes member).name, (declaredTypes member).simple with
  | some name, _ => primitiveOf? index name
  | none, some simple => (index.primitiveBase simple.base).toOption
  | none, none => none

/-- A scalar in its final form, with the default value of the member. -/
def withDefault? (threshold : Nat) (primitive text : Option String) (repr : ScalarRepr) :
    Option ScalarRepr :=
  let sized := Scalar.finalize threshold repr
  match text with
  | none => some sized
  | some raw => (Scalar.literal? (primitive.getD "xs:string") raw).map fun literal =>
      { sized with defaultValue := some literal }

/-- The scalar that a simple member becomes. Only the member decides it. -/
def MemberValue (index : Index) (settings : Settings) (member : Member) (value : ScalarRepr) :
    Prop :=
  ∃ repr, (scalarRequest member).Gives ⟨index, settings⟩ repr ∧
    withDefault? settings.compiler.textThreshold (memberPrimitive index member) member.valueText
      repr = some value

theorem MemberValue.unique {index : Index} {settings : Settings} {member : Member}
    {value other : ScalarRepr} (first : MemberValue index settings member value)
    (second : MemberValue index settings member other) : value = other := by
  obtain ⟨repr, gives, given⟩ := first
  obtain ⟨otherRepr, otherGives, otherGiven⟩ := second
  obtain rfl := gives.unique otherGives
  exact Option.some.inj (given.symm.trans otherGiven)

theorem MemberValue.withRoots {index : Index} {settings : Settings} {member : Member}
    {value : ScalarRepr} (first : MemberValue index settings member value) (roots : List String) :
    MemberValue index (settings.withRoots roots) member value := by
  obtain ⟨repr, gives, given⟩ := first
  exact ⟨repr, gives.withRoots roots, given⟩

section Members

variable {context : Context} {onward : Onward} {scope : Scope} {state final : State}
  {member : Member}

/-- A type name of a simple member stands for a scalar, if it stands for anything. -/
theorem complexType?_of_isSimple {name : String} (simple : IsSimple context.index member)
    (named : (declaredTypes member).name = some name)
    (notScalar : isScalarName context name = false) :
    context.index.complexType? name = none := by
  simp only [isScalarName, Bool.or_eq_false_iff] at notScalar
  obtain ⟨⟨notBuiltin, _⟩, _⟩ := notScalar
  cases member with
  | attrib declaration => exact simple name named
  | element declaration =>
    have typed : context.index.elementComplexType declaration = .ok none := simple
    have effective : Index.effectiveTypeName declaration = some name := named
    simp only [Index.elementComplexType, effective, notBuiltin, Bool.false_eq_true, if_false]
      at typed
    cases found : context.index.complexType? name with
    | none => rfl
    | some type =>
      rw [found] at typed
      cases typed

theorem complex_of_isSimple (simple : IsSimple context.index member)
    (unnamed : (declaredTypes member).name = none) : (declaredTypes member).complex = none := by
  cases member with
  | attrib declaration => rfl
  | element declaration =>
    have typed : context.index.elementComplexType declaration = .ok none := simple
    have effective : Index.effectiveTypeName declaration = none := unnamed
    rw [Index.elementComplexType, effective] at typed
    exact Except.ok.inj typed

theorem scalarKind_eq_ok {derive : Scalar.State → Scalar.Derivation} {primitive : Option String}
    {resolved : ResolvedKind}
    (ran : (do return (⟨.scalar (← deriveScalar derive), primitive⟩ : ResolvedKind)).run state =
      .ok (resolved, final)) :
    ∃ repr scalars, derive state.scalars = (.ok repr, scalars) ∧
      final = { state with scalars } ∧ resolved = ⟨.scalar repr, primitive⟩ := by
  obtain ⟨repr, derived, ranScalar, ran⟩ := run_bind_eq_ok.mp ran
  obtain ⟨scalars, answered, rfl⟩ := deriveScalar_eq_ok ranScalar
  cases ran
  exact ⟨repr, scalars, answered, rfl, rfl⟩

theorem resolveValue_of_isSimple {name : String} {resolved : ResolvedKind}
    (simple : IsSimple context.index member)
    (ran : (resolveValue context onward scope name none member).run state = .ok (resolved, final)) :
    ∃ repr scalars, (scalarRequest member).answer ⟨context.index, context.settings⟩ state.scalars =
        (.ok repr, scalars) ∧ final = { state with scalars } ∧
      resolved = ⟨.scalar repr, memberPrimitive context.index member⟩ := by
  have unhinted (types : Option String) : (none <|> types) = types := rfl
  unfold resolveValue at ran
  simp only [unhinted] at ran
  unfold scalarRequest memberPrimitive
  cases named : (declaredTypes member).name with
  | some typeName =>
    simp only [named, resolveNamed] at ran
    split at ran
    next =>
      exact scalarKind_eq_ok ran
    next notScalar =>
      obtain ⟨type, _, ranType, _⟩ := run_bind_eq_ok.mp ran
      obtain ⟨found, _⟩ := run_lift_eq_ok ranType
      have known := complexType?_of_complexType found
      rw [complexType?_of_isSimple simple named (Bool.eq_false_iff.mpr notScalar)] at known
      cases known
  | none =>
    cases inline : (declaredTypes member).simple with
    | some type =>
      simp only [named, inline] at ran
      exact scalarKind_eq_ok ran
    | none =>
      simp only [named, inline, complex_of_isSimple simple named] at ran
      exact scalarKind_eq_ok ran

/-! ## What becomes of them -/

/-- The field of a simple member. -/
def simpleField (scope : Scope) (nullable : Bool) (member : Member) (value : ScalarRepr)
    (documentation : List String) : Field :=
  { Field.ofKind (scope.fieldName member.localName)
      (member.dottedPath scope.ancestors member.localName) (.scalar value) with
    nullable
    documentation
    choiceGroup := scope.choiceGroup }

theorem documentChoices_eq (field : Field) :
    ∃ documentation, documentChoices field = { field with documentation } := by
  simp only [documentChoices]
  split
  · exact ⟨field.documentation, rfl⟩
  · exact ⟨_, rfl⟩

theorem setDefault_of_scalar {threshold : Nat} {primitive text : Option String} {path : String}
    {field defaulted : Field} {repr : ScalarRepr}
    (scalar : field.kind = .scalar (Scalar.finalize threshold repr))
    (settled : setDefault (primitive.getD "xs:string") path text field = .ok defaulted) :
    ∃ value, withDefault? threshold primitive text repr = some value ∧
      defaulted = { field with kind := .scalar value } := by
  cases text with
  | none =>
    cases settled
    exact ⟨_, rfl, by rw [← scalar]⟩
  | some raw =>
    simp only [setDefault, scalar, FieldKind.repr?, FieldKind.mapRepr] at settled
    obtain ⟨literal, parsed, settled⟩ := Result.bind_eq_ok.mp settled
    cases settled
    unfold Scalar.parseDefault at parsed
    split at parsed
    next read =>
      cases parsed
      exact ⟨_, by rw [withDefault?, read]; rfl, rfl⟩
    next => cases parsed

/-- Where the rules only flatten, finishing a scalar field settles its value and nothing else. -/
theorem finishField_of_onlyFlattens (only : scope.rules.OnlyFlattens)
    {text primitive : Option String} {field finished : Field} {repr : ScalarRepr}
    (scalar : field.kind = .scalar repr)
    (ran : finishField context scope text primitive field = .ok finished) :
    ∃ value documentation,
      withDefault? context.settings.compiler.textThreshold primitive text repr = some value ∧
        finished = { field with kind := .scalar value, documentation } := by
  obtain ⟨flatten, fields, prefixes, rules⟩ := only
  obtain ⟨documentation, documented⟩ := documentChoices_eq { field with
    kind := .scalar (Scalar.finalize context.settings.compiler.textThreshold repr) }
  have kept : overrideKind scope.rules (documentChoices { field with
      kind := field.kind.mapRepr (Scalar.finalize context.settings.compiler.textThreshold) }) =
      { field with
        kind := .scalar (Scalar.finalize context.settings.compiler.textThreshold repr)
        documentation } := by
    rw [scalar, FieldKind.mapRepr, documented, rules]
    rfl
  simp only [finishField, kept] at ran
  obtain ⟨defaulted, settled, ran⟩ := Result.bind_eq_ok.mp ran
  obtain ⟨value, given, rfl⟩ := setDefault_of_scalar rfl settled
  -- No rule makes the field a key, changes one of its properties, or makes it nullable.
  rw [rules] at ran
  obtain ⟨rfl, _⟩ := eq_of_checked ran
  refine ⟨value, documentation, given, ?_⟩
  simp [setKeys, FieldRules.isPrimaryKey, FieldRules.plain, EntityOptions.none,
    PatternSet.contains]

/-- A type path has been given a field, which adds nothing if its name is taken, and else comes
last. -/
structure Gains (path : String) (field : Field) (before after : State) : Prop where
  choices : after.choices = before.choices
  bags : after.bags = before.bags
  fields : (field.name ∈ materializedNames (before.fieldsAt path) ∧
      after.fieldsAt path = before.fieldsAt path) ∨
    (field.name ∉ materializedNames (before.fieldsAt path) ∧
      after.fieldsAt path = before.fieldsAt path ++ [field])

theorem addField_gains (only : scope.rules.OnlyFlattens) {field : Field} {value : ScalarRepr}
    (scalar : field.kind = .scalar value) (own : field.coalescedFrom = none)
    (ran : (addField context scope.rules scope.typePath field).run state = .ok ((), final)) :
    Gains scope.typePath field state final ∧ final.scalars = state.scalars := by
  rcases addField_eq_ok ran with ⟨leftOut, _⟩ | ⟨entity, after, found, inserted, rfl⟩
  · obtain ⟨_, _, _, rules⟩ := only
    rw [rules] at leftOut
    cases leftOut
  · have unrelated (relatedName : Option String) :
        setRelatedName relatedName field.kind = field.kind := by
      rw [scalar]
      cases relatedName <;> rfl
    rw [unrelated] at inserted
    have materialized : field.isMaterialized = true := by rw [Field.isMaterialized, scalar]; rfl
    refine ⟨⟨rfl, rfl, ?_⟩, rfl⟩
    rw [State.fieldsAt_of_get? found, State.fieldsAt_of_get? (Table.get?_set_self ..)]
    exact insertField_uncoalesced materialized own inserted

/-- A simple member has become a scalar field, from an honest memory. -/
def BecomesScalar (context : Context) (scope : Scope) (nullable : Bool) (member : Member)
    (before after : State) : Prop :=
  after.scalars.IsHonest ⟨context.index, context.settings⟩ ∧
    ∃ value documentation, MemberValue context.index context.settings member value ∧
      Gains scope.typePath (simpleField scope nullable member value documentation) before after

/-- Where a simple member is put. -/
def simpleSite (scope : Scope) (nullable : Bool) (member : Member) (doc : Option String) :
    Site where
  name := scope.fieldName member.localName
  dottedPath := member.dottedPath scope.ancestors member.localName
  doc
  nullable
  coalescedFrom := none

/-- Deriving the scalar of a simple member, and adding its field. -/
theorem addMember_becomesScalar (only : scope.rules.OnlyFlattens)
    (simple : IsSimple context.index member)
    (honest : state.scalars.IsHonest ⟨context.index, context.settings⟩) {nullable : Bool}
    {doc : Option String} {name : String} {most : Schema.MaxOccurs}
    (once : member.element? = none → most = .one)
    (ran : (do
      let resolved ← resolveValue context onward scope name none member
      addMember context scope (simpleSite scope nullable member doc) member resolved most).run
        state = .ok ((), final)) : BecomesScalar context scope nullable member state final := by
  obtain ⟨resolved, derived, ranValue, ran⟩ := run_bind_eq_ok.mp ran
  obtain ⟨repr, scalars, answered, rfl, rfl⟩ := resolveValue_of_isSimple simple ranValue
  obtain ⟨gives, honestLater⟩ := Scalar.Request.answer_honest honest answered
  -- More than one occurrence would ask for a list.
  have single : most = .one ∧ (do
      let finished ← finishField context scope member.valueText
        (memberPrimitive context.index member)
        { (simpleSite scope nullable member doc).field scope (.scalar repr) with maxOccurs := most }
      addField context scope.rules scope.typePath finished : Walk Unit).run
        { state with scalars } = .ok ((), final) := by
    unfold addMember at ran
    cases member with
    | attrib declaration => exact ⟨once rfl, ran⟩
    | element declaration =>
      dsimp only at ran
      split at ran
      next => cases ran
      next one =>
        refine ⟨Schema.MaxOccurs.isOne_iff.mp ?_, ran⟩
        simpa [Site.field, Field.ofKind, FieldKind.isCollection] using one
  obtain ⟨rfl, ran⟩ := single
  obtain ⟨finished, reached, ranFinish, ran⟩ := run_bind_eq_ok.mp ran
  obtain ⟨finishes, rfl⟩ := run_lift_eq_ok ranFinish
  obtain ⟨value, documentation, given, rfl⟩ := finishField_of_onlyFlattens only rfl finishes
  obtain ⟨gains, sameScalars⟩ := addField_gains only rfl rfl ran
  refine ⟨sameScalars ▸ honestLater, value, documentation, ⟨repr, gives, given⟩, ?_⟩
  exact ⟨gains.choices, gains.bags, gains.fields⟩

/-- Where the rules only flatten, the name of a member is its own. -/
theorem classify_of_onlyFlattens (only : scope.rules.OnlyFlattens) (nullable : Bool)
    (member : Member) :
    ∃ bagKey doc, classify context onward scope nullable member =
      match member with
      | .attrib declaration => classifyAttribute context onward scope
          (simpleSite scope nullable member doc) bagKey declaration
      | .element declaration => classifyElement context onward scope
          (simpleSite scope nullable member doc) bagKey declaration := by
  obtain ⟨flatten, fields, prefixes, rules⟩ := only
  have kept (name : String) : scope.rules.rename.renamed? name = none := by
    rw [rules]
    exact renamed?_nil name
  have uncoalesced (name : String) : scope.rules.coalesce.renamed? name = none := by
    rw [rules]
    exact renamed?_nil name
  have wanted (name : String) : scope.rules.drop.contains name = false := by
    rw [rules]
    rfl
  have unselected (name : String) : (scope.rules.options.parentField == some name) = false := by
    rw [rules]
    rfl
  simp only [classify, kept, uncoalesced, wanted, unselected, Option.getD_none, Bool.false_eq_true,
    if_false, Option.map_none]
  cases member <;> exact ⟨_, _, rfl⟩

/-- Where the rules only flatten, a plain element is what its type makes of it. -/
theorem classifyPlain_of_onlyFlattens (only : scope.rules.OnlyFlattens) (site : Site)
    (declaration : Element) (type : Option ComplexType) :
    classifyPlain context onward scope site declaration type none = (do
      let resolved ← resolveValue context onward scope site.name none (.element declaration)
      addMember context scope site (.element declaration) resolved declaration.occurs.most) := by
  obtain ⟨flatten, fields, prefixes, rules⟩ := only
  have noExtension (name : String) : scope.rules.referenceExtension.contains name = false := by
    rw [rules]
    rfl
  have noArray (name : String) : scope.rules.array.contains name = false := by
    rw [rules]
    rfl
  have noTarget (name : String) : scope.rules.foreignKeyTarget? name = none := by
    rw [rules]
    rfl
  simp [classifyPlain, referencedExtension?, resolveElement, noExtension, noArray, noTarget]

/-- Where the rules only flatten, and nothing is inferred from the number of occurrences, an element
is flattened, or else plain. -/
theorem classifyElement_of_onlyFlattens (only : scope.rules.OnlyFlattens) {site : Site}
    {bagKey : String} {declaration : Element} {type : Option ComplexType}
    (typed : context.index.elementComplexType declaration = .ok type)
    (uninferred : inferTarget? context scope site declaration type.isSome = pure none) :
    classifyElement context onward scope site bagKey declaration =
      if asksForFlattening scope.rules site.name type.isSome then
        match type with
        | some members =>
          if members.simpleContent.isNone then flatten onward scope site members
          else do
            let hint ← flatteningHint scope site type
            classifyPlain context onward scope site declaration type hint
        | none => do
          let hint ← flatteningHint scope site type
          classifyPlain context onward scope site declaration type hint
      else classifyPlain context onward scope site declaration type none := by
  have unrelated : relation? context scope.rules site.name none = none := by
    obtain ⟨flatten, fields, prefixes, rules⟩ := only
    rw [rules]
    rfl
  have unbagged : scope.rules.json.contains site.name = false := by
    obtain ⟨flatten, fields, prefixes, rules⟩ := only
    rw [rules]
    rfl
  have read : (liftM (context.index.elementComplexType declaration) : Walk (Option ComplexType)) =
      pure type := by
    rw [typed]
    rfl
  simp only [classifyElement, read, pure_bind, uninferred, unrelated, unbagged,
    Bool.false_eq_true, if_false]
  cases type <;> rfl

theorem inferTarget?_of_isSimple {declaration : Element} (site : Site)
    (simple : IsSimple context.index (.element declaration)) :
    inferTarget? context scope site declaration false = pure none := by
  have typed : context.index.elementComplexType declaration = .ok none := simple
  have single : isRepeated context.index declaration = .ok false := by
    rw [isRepeated, typed]
    rfl
  unfold inferTarget?
  rw [single]
  split <;> rfl

theorem classify_becomesScalar (only : scope.rules.OnlyFlattens)
    (simple : IsSimple context.index member)
    (honest : state.scalars.IsHonest ⟨context.index, context.settings⟩) {nullable : Bool}
    (ran : (classify context onward scope nullable member).run state = .ok ((), final)) :
    BecomesScalar context scope nullable member state final := by
  obtain ⟨bagKey, doc, classifies⟩ :=
    @classify_of_onlyFlattens context onward scope only nullable member
  rw [classifies] at ran
  cases member with
  | attrib declaration =>
    have unbagged (name : String) : scope.rules.json.contains name = false := by
      obtain ⟨flatten, fields, prefixes, rules⟩ := only
      rw [rules]
      rfl
    simp only [classifyAttribute, unbagged, Bool.false_eq_true, if_false] at ran
    exact addMember_becomesScalar only simple honest (fun _ => rfl) ran
  | element declaration =>
    dsimp only at ran
    rw [classifyElement_of_onlyFlattens only simple (inferTarget?_of_isSimple _ simple)] at ran
    split at ran
    next =>
      -- A request to flatten the element comes to no more than a notice.
      obtain ⟨hint, noticed, ranHint, ran⟩ := run_bind_eq_ok.mp ran
      have honestNoticed : noticed.scalars.IsHonest ⟨context.index, context.settings⟩ := by
        cases ranHint
        exact honest.of_known rfl
      cases ranHint
      rw [classifyPlain_of_onlyFlattens only] at ran
      obtain ⟨honestFinal, value, documentation, given, gains⟩ :=
        addMember_becomesScalar only simple honestNoticed nofun ran
      exact ⟨honestFinal, value, documentation, given, gains.choices, gains.bags, gains.fields⟩
    next =>
      rw [classifyPlain_of_onlyFlattens only] at ran
      exact addMember_becomesScalar only simple honest nofun ran

end Members

end Compile

end EntityGraph
