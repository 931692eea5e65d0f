import EntityGraph.Proofs.Build.Laws
import Mathlib.Data.Option.Basic

/-!
# Walks under a law

Every walk keeps to a law of a build, as long as the walks that leave the type at hand do. Two walks
that differ only in these do the same.
-/
namespace EntityGraph

namespace Schema

/-! ## Elements of a type -/

theorem Particle.mem_elementsOf {part : Particle} {parts : List Particle} (member : part ∈ parts)
    {declaration : Element} (inside : declaration ∈ part.elements) :
    declaration ∈ Particle.elementsOf parts := by
  induction parts with
  | nil => cases member
  | cons first rest ih =>
    rw [Particle.elementsOf, List.mem_append]
    rcases List.mem_cons.mp member with rfl | later
    · exact .inl inside
    · exact .inr (ih later)

namespace ComplexType

variable {type : ComplexType} {declaration : Element}

theorem mem_contents_of_content {content : Particle} (has : type.content = some content) :
    content ∈ type.contents := by
  simp [contents, has]

theorem mem_contents_of_extension {content : Particle} {extension : Extension}
    (has : type.extension = some extension) (adds : extension.content = some content) :
    content ∈ type.contents := by
  simp [contents, has, adds]

theorem attributes_subset : type.attributes ⊆ type.attributeItems := by
  intro item member
  simp [attributeItems, member]

theorem simpleAttributes_subset :
    (type.simpleContent.map (·.attributes)).getD [] ⊆ type.attributeItems := by
  intro item member
  simp [attributeItems, member]

theorem extensionAttributes_subset :
    (type.extension.map (·.attributes)).getD [] ⊆ type.attributeItems := by
  intro item member
  simp [attributeItems, member]

theorem unboundedPart?_eq_some {part : Particle} (found : unboundedPart? part = some declaration) :
    part = .element declaration := by
  unfold unboundedPart? at found
  split at found
  · split at found
    · rw [Option.some.inj found]
    · cases found
  · cases found

/-- The element that repeats without bound is an element of the content. -/
theorem mem_elements_of_unboundedChild? (found : type.unboundedChild? = some declaration) :
    ∃ content ∈ type.contents, declaration ∈ content.elements := by
  unfold unboundedChild? at found
  split at found
  next occurs parts has =>
    obtain ⟨part, member, part_eq⟩ := List.exists_of_findSome?_eq_some found
    refine ⟨_, mem_contents_of_content has, ?_⟩
    rw [Particle.elements]
    obtain rfl := unboundedPart?_eq_some part_eq
    exact Particle.mem_elementsOf member (List.mem_singleton_self declaration)
  next part has =>
    refine ⟨_, mem_contents_of_content has, ?_⟩
    rw [unboundedPart?_eq_some found]
    exact List.mem_singleton_self declaration
  next => cases found

theorem mem_elements_of_firstElement? (found : type.firstElement? = some declaration) :
    ∃ content ∈ type.contents, declaration ∈ content.elements := by
  obtain ⟨content, has, first⟩ := Option.bind_eq_some_iff.mp found
  exact ⟨content, mem_contents_of_content has, List.mem_of_head? first⟩

end ComplexType

end Schema

namespace Compile

open Schema (Attribute AttributeItem ComplexType Element Extension Index Member Particle)

variable {context : Context} {law : WalkLaw context} {onward other : Onward} {scope : Scope}

/-! ## Relations -/

theorem elementType_keeps {declaration : Element} (met : law.words.member (.element declaration)) :
    law.Keeps (liftM (context.index.elementComplexType declaration))
      (liftM (context.index.elementComplexType declaration)) fun found =>
        context.index.elementComplexType declaration = .ok found ∧
          ∀ type, found = some type → law.words.type type :=
  (Follows.lifts _).weaken fun _ typed => ⟨typed, fun _ same =>
    law.words.elementType met (same ▸ typed)⟩

theorem repeatedElement_keeps (site : Site) {declaration : Element}
    (met : law.words.member (.element declaration)) :
    law.Keeps (repeatedElement context scope site declaration)
      (repeatedElement context scope site declaration)
      fun (inner, _) => law.words.member (.element inner) := by
  unfold repeatedElement
  split
  · exact .returns met
  · refine (elementType_keeps met).bind fun type ⟨_, known⟩ => ?_
    split
    next child found =>
      -- The element wraps a list, so the member that is met is the one that repeats inside.
      obtain ⟨parent, same, inside⟩ := Option.bind_eq_some_iff.mp found
      obtain ⟨content, has, member⟩ := Schema.ComplexType.mem_elements_of_unboundedChild? inside
      exact .returns (law.words.element (known parent same) has member)
    next => exact (notify_keeps law _).bind fun _ _ => .returns met

/-- The type of an element is asked for by its own name, or by one that the place gives to it. -/
theorem request_of_type {words : Vocabulary context.index} {declaration : Element}
    {type : ComplexType} (met : words.member (.element declaration))
    (typed : context.index.elementComplexType declaration = .ok (some type)) (name : String) :
    Request words scope (type.name.getD (scope.memberPath name)) (some type) := by
  cases own : type.name with
  | none => exact .placed name met typed
  | some declared => exact .declared met typed own

theorem repeatedTarget_keeps (site : Site) {declaration : Element}
    (met : law.words.member (.element declaration)) :
    law.Keeps (repeatedTarget context scope site declaration)
      (repeatedTarget context scope site declaration)
      fun target => Request law.words scope target.path target.type := by
  refine (repeatedElement_keeps site met).bind fun (inner, name) metInner => ?_
  refine (elementType_keeps metInner).bind fun type ⟨typed, _⟩ => ?_
  split
  · exact .returns (request_of_type metInner typed name)
  · exact .fails

theorem inferTarget?_keeps (site : Site) {declaration : Element} (isComplex : Bool)
    (met : law.words.member (.element declaration)) :
    law.Keeps (inferTarget? context scope site declaration isComplex)
      (inferTarget? context scope site declaration isComplex)
      fun inferred => ∀ target, inferred = some target →
        Request law.words scope target.path target.type := by
  unfold inferTarget?
  split
  · exact .returns nofun
  · refine (Follows.lifts _).bind fun repeats _ => ?_
    split
    · refine (repeatedTarget_keeps site met).bind fun target requested => .returns ?_
      rintro _ ⟨⟩
      exact requested
    · exact .returns nofun

theorem singleTarget_keeps (site : Site) {declaration : Element}
    (met : law.words.member (.element declaration)) :
    law.Keeps (singleTarget context scope site declaration)
      (singleTarget context scope site declaration)
      fun target => Request law.words scope target.path target.type := by
  refine (elementType_keeps met).bind fun type ⟨typed, _⟩ => ?_
  split
  · exact .returns (request_of_type met typed site.name)
  · exact .fails

theorem manyTarget_keeps (site : Site) {declaration : Element} {configured : Option String}
    {inferred : Option Target} (met : law.words.member (.element declaration))
    (named : ∀ path, configured = some path → path ∈ scope.rules.options.targets)
    (requested : ∀ target, inferred = some target →
      Request law.words scope target.path target.type) :
    law.Keeps (manyTarget context scope site declaration configured inferred)
      (manyTarget context scope site declaration configured inferred)
      fun target => Request law.words scope target.path target.type := by
  unfold manyTarget
  split
  · exact .returns (.configured (named _ rfl))
  · exact .returns (requested _ rfl)
  · exact repeatedTarget_keeps site met

/-! ## Adding fields -/

/-- The kind is that of a scalar or of a list of scalars that has been found, or a relation. -/
def WalkLaw.Allows (law : WalkLaw context) (resolved : ResolvedKind) : Prop :=
  (∃ repr, (resolved.kind = .scalar repr ∨ resolved.kind = .collection repr) ∧
    law.Found resolved.primitive repr) ∨
  (resolved.kind.isMaterialized = true ∧ resolved.kind.repr? = none)

theorem addFinished_keeps {draft : Field} {text primitive : Option String} (place : law.At scope)
    (allowed : law.Allows ⟨draft.kind, primitive⟩) :
    law.Keeps
      (do addField context scope.rules scope.typePath
            (← finishField context scope text primitive draft))
      (do addField context scope.rules scope.typePath
            (← finishField context scope text primitive draft)) fun _ => True := by
  refine (Follows.lifts _).bind fun field finished => addField_keeps law place ?_
  rcases allowed with ⟨repr, kind, found⟩ | ⟨materialized, bare⟩
  · exact .value kind found finished
  · exact .relation materialized bare finished

theorem addReverse_keeps (keeps : OnwardKeeps law onward other) (place : law.At scope)
    (site : Site) (oneToOne : Bool) {target : Target}
    (requested : Request law.words scope target.path target.type) :
    law.Keeps (addReverse context onward scope site oneToOne target)
      (addReverse context other scope site oneToOne target) fun _ => True := by
  refine .reads fun state _ => ?_
  extract_lets reverseField back
  have isBack : AllBack [back] := by
    intro field member
    obtain rfl := List.mem_singleton.mp member
    exact ⟨scope.entity, site.name, reverseField, oneToOne, rfl⟩
  -- The target takes the field that refers back, and the place gets the other end of it.
  refine (keeps.build _ _ _ (law.asks place requested) isBack).bind fun entity _ => ?_
  cases oneToOne with
  | true => exact addFinished_keeps place (.inr ⟨rfl, rfl⟩)
  | false => exact addFinished_keeps place (.inr ⟨rfl, rfl⟩)

theorem addManyToMany_keeps (keeps : OnwardKeeps law onward other) (place : law.At scope)
    (site : Site) {target : Target} (requested : Request law.words scope target.path target.type) :
    law.Keeps (addManyToMany context onward scope site target)
      (addManyToMany context other scope site target) fun _ => True := by
  refine (keeps.build _ _ _ (law.asks place requested) allBack_nil).bind fun entity _ => ?_
  exact addFinished_keeps place (.inr ⟨rfl, rfl⟩)

theorem mem_of_targetOf? {overrides : List TargetOverride} {name path : String}
    (found : targetOf? overrides name = some path) : path ∈ overrides.map (·.target) := by
  obtain ⟨chosen, member, rfl⟩ := Option.map_eq_some_iff.mp found
  exact List.mem_map_of_mem (List.mem_of_find?_eq_some member)

theorem addRelation_keeps (keeps : OnwardKeeps law onward other) (place : law.At scope)
    (site : Site) {declaration : Element} {inferred : Option Target}
    (met : law.words.member (.element declaration))
    (requested : ∀ target, inferred = some target →
      Request law.words scope target.path target.type) (relation : Relation) :
    law.Keeps (addRelation context onward scope site declaration inferred relation)
      (addRelation context other scope site declaration inferred relation) fun _ => True := by
  cases relation with
  | oneToOne =>
    exact (singleTarget_keeps site met).bind fun _ => addReverse_keeps keeps place site true
  | oneToMany =>
    refine (manyTarget_keeps site met (fun path found => ?_) requested).bind
      fun _ => addReverse_keeps keeps place site false
    simp [EntityOptions.targets, mem_of_targetOf? found]
  | manyToMany =>
    refine (manyTarget_keeps site met (fun path found => ?_) requested).bind
      fun _ => addManyToMany_keeps keeps place site
    simp [EntityOptions.targets, mem_of_targetOf? found]

/-! ## Values -/

theorem namedScalar_keeps (name : String) :
    law.Keeps (namedScalar context name) (namedScalar context name)
      fun repr => law.Found (primitiveOf? context.index name) repr :=
  deriveScalar_keeps law (.named name)

/-- Building an entity and referring to it. -/
theorem reference_keeps (keeps : OnwardKeeps law onward other) {path : String}
    {type : Option ComplexType} (asked : law.Asks path type) (oneToOne : Bool)
    (onDelete : OnDelete) :
    law.Keeps (do return .reference (← onward.build path type []) oneToOne onDelete)
      (do return .reference (← other.build path type []) oneToOne onDelete) law.Allows :=
  (keeps.build _ _ _ asked allBack_nil).bind fun _ _ => .returns (.inr ⟨rfl, rfl⟩)

theorem complexType?_of_complexType {index : Index} {name : String} {type : ComplexType}
    (found : index.complexType name = .ok type) : index.complexType? name = some type := by
  unfold Index.complexType at found
  split at found
  next known has => rw [has, Except.ok.inj found]
  next => cases found

theorem resolveNamed_keeps (keeps : OnwardKeeps law onward other) {name : String}
    (asked : ∀ type, context.index.complexType? name = some type → law.Asks name (some type)) :
    law.Keeps (resolveNamed context onward name) (resolveNamed context other name)
      law.Allows := by
  unfold resolveNamed
  split
  · exact (namedScalar_keeps name).bind fun repr found => .returns (.inl ⟨repr, .inl rfl, found⟩)
  · refine (Follows.lifts _).bind fun type found => ?_
    exact reference_keeps keeps (asked type (complexType?_of_complexType found)) false .protect

/-- A hint may be given for a type that may be asked for. -/
def Hinted (law : WalkLaw context) (hint : Option String) : Prop :=
  ∀ name, hint = some name → ∀ type, context.index.complexType? name = some type →
    law.Asks name (some type)

theorem hinted_none : Hinted law none := nofun

theorem resolveValue_keeps (keeps : OnwardKeeps law onward other) (place : law.At scope)
    (name : String) {hint : Option String} {member : Member} (hinted : Hinted law hint)
    (met : law.words.member member) :
    law.Keeps (resolveValue context onward scope name hint member)
      (resolveValue context other scope name hint member) law.Allows := by
  unfold resolveValue
  extract_lets types
  split
  next typeName _ _ given =>
    refine resolveNamed_keeps keeps fun type found => ?_
    rcases (Option.orElse_eq_some _ _ _).mp given with hint | ⟨_, named⟩
    · exact hinted _ hint type found
    · exact law.asks place (.named met named found)
  next simple _ _ =>
    exact (deriveScalar_keeps law (.inline simple)).bind fun repr found =>
      .returns (.inl ⟨repr, .inl rfl, found⟩)
  next complex bare _ inside =>
    -- Only an element has a complex type inside, and then it names none.
    refine reference_keeps keeps (law.asks place ?_) true .cascade
    cases member with
    | attrib declaration => cases inside
    | element declaration =>
      refine .placed name met ?_
      have unnamed : Index.effectiveTypeName declaration = none :=
        ((Option.orElse_eq_none _ _).mp bare).2
      rw [Index.elementComplexType, unnamed]
      exact congrArg Except.ok inside
  next => exact (deriveScalar_keeps law (.untyped member)).bind fun repr found =>
    .returns (.inl ⟨repr, .inl rfl, found⟩)

theorem resolveForeignKey_keeps (keeps : OnwardKeeps law onward other) (place : law.At scope)
    {declaration : Element} {type : Option ComplexType} {target : String} (name : String)
    (met : law.words.member (.element declaration))
    (typed : context.index.elementComplexType declaration = .ok type)
    (configured : target ∈ scope.rules.options.targets) :
    law.Keeps (resolveForeignKey onward scope name target type)
      (resolveForeignKey other scope name target type) law.Allows := by
  unfold resolveForeignKey
  split
  next inside =>
    split
    · exact reference_keeps keeps (law.asks place (inside ▸ .placed name met typed)) false .protect
    · exact .fails
  next => exact reference_keeps keeps (law.asks place (.configured configured)) false .protect

theorem listKind_allowed {resolved list : ResolvedKind} {path : String}
    (allowed : law.Allows resolved) (listed : listKind resolved path = .ok list) :
    law.Allows list := by
  unfold listKind at listed
  split at listed
  next repr kind =>
    cases listed
    rcases allowed with ⟨known, same, found⟩ | ⟨_, bare⟩
    · rw [kind] at same
      rcases same with same | same
      · cases same
        exact .inl ⟨_, .inr rfl, found⟩
      · cases same
    · rw [kind] at bare
      cases bare
  next => cases listed

/-- Resolving a value and taking a list of it. -/
theorem resolveList_keeps (keeps : OnwardKeeps law onward other) (place : law.At scope)
    {member : Member} (met : law.words.member member) (name path : String)
    (most : Schema.MaxOccurs) (site : Site) :
    law.Keeps
      (do
        let resolved ← resolveValue context onward scope name none member
        return (← listKind resolved path, most, site))
      (do
        let resolved ← resolveValue context other scope name none member
        return (← listKind resolved path, most, site))
      fun result => law.Allows result.1 := by
  refine (resolveValue_keeps keeps place name hinted_none met).bind fun resolved allowed => ?_
  exact (Follows.lifts _).bind fun list listed => .returns (listKind_allowed allowed listed)

theorem resolveArray_keeps (keeps : OnwardKeeps law onward other) (place : law.At scope)
    (site : Site) {declaration : Element} {type : Option ComplexType}
    (met : law.words.member (.element declaration))
    (known : ∀ inner, type = some inner → law.words.type inner) :
    law.Keeps (resolveArray context onward scope site declaration type)
      (resolveArray context other scope site declaration type)
      fun result => law.Allows result.1 := by
  unfold resolveArray
  extract_lets path
  split
  · exact resolveList_keeps keeps place met _ _ _ _
  next inner =>
    split
    · exact .fails
    next first found =>
      extract_lets most doc documented
      obtain ⟨content, has, member⟩ := Schema.ComplexType.mem_elements_of_firstElement? found
      exact resolveList_keeps keeps place (law.words.element (known inner rfl) has member) _ _ _ _

/-- An extension of a type that may be met. -/
def Extends? (law : WalkLaw context) (extension : Extension) : Prop :=
  ∃ type, law.words.type type ∧ type.extension = some extension

theorem resolveElement_keeps (keeps : OnwardKeeps law onward other) (place : law.At scope)
    (site : Site) {declaration : Element} {type : Option ComplexType} {hint : Option String}
    {extension : Option Extension} (met : law.words.member (.element declaration))
    (typed : context.index.elementComplexType declaration = .ok type) (hinted : Hinted law hint)
    (extends_ : ∀ given, extension = some given → Extends? law given) :
    law.Keeps (resolveElement context onward scope site declaration type hint extension)
      (resolveElement context other scope site declaration type hint extension)
      fun result => law.Allows result.1 := by
  unfold resolveElement
  split
  · exact resolveArray_keeps keeps place site met fun inner same =>
      law.words.elementType met (same ▸ typed)
  · split
    next target found =>
      refine (resolveForeignKey_keeps keeps place site.name met typed ?_).bind
        fun resolved allowed => Follows.returns allowed
      simp [EntityOptions.targets, mem_of_targetOf? found]
    next given _ =>
      -- The extension is walked later; what refers to its base is the field.
      obtain ⟨extended, known, has⟩ := extends_ given rfl
      refine (keeps.build _ _ _ (law.asks place (.base known has)) allBack_nil).bind fun _ _ => ?_
      exact Follows.returns (.inr ⟨rfl, rfl⟩)
    · exact (resolveValue_keeps keeps place site.name hinted met).bind
        fun resolved allowed => Follows.returns allowed

/-! ## The decision -/

theorem addMember_keeps (place : law.At scope) (site : Site) (member : Member)
    {resolved : ResolvedKind} (most : Schema.MaxOccurs) (allowed : law.Allows resolved) :
    law.Keeps (addMember context scope site member resolved most)
      (addMember context scope site member resolved most) fun _ => True := by
  unfold addMember
  extract_lets plain draft proceed
  have goesOn : law.Keeps (proceed ()) (proceed ()) fun _ => True :=
    addFinished_keeps place allowed
  split
  · split
    · exact Follows.fails.bind fun _ (impossible : False) => impossible.elim
    · exact goesOn
  · exact goesOn

theorem recordBag_keeps (place : law.At scope) (key : String) (doc : Option String)
    (type : Option ComplexType) :
    law.Keeps (recordBag context scope key doc type) (recordBag context scope key doc type)
      fun _ => True :=
  addToBag_keeps law place _

theorem classifyAttribute_keeps (keeps : OnwardKeeps law onward other) (place : law.At scope)
    (site : Site) (bagKey : String) {declaration : Attribute}
    (met : law.words.member (.attrib declaration)) :
    law.Keeps (classifyAttribute context onward scope site bagKey declaration)
      (classifyAttribute context other scope site bagKey declaration) fun _ => True := by
  unfold classifyAttribute
  split
  · split
    · exact recordBag_keeps place _ _ _
    · exact .returns trivial
  · exact (resolveValue_keeps keeps place site.name hinted_none met).bind fun resolved allowed =>
      addMember_keeps place _ _ _ allowed

theorem referencedExtension?_keeps (site : Site) {type : Option ComplexType}
    (known : ∀ inner, type = some inner → law.words.type inner) :
    law.Keeps (referencedExtension? scope site type) (referencedExtension? scope site type)
      fun extension => ∀ given, extension = some given → Extends? law given := by
  unfold referencedExtension?
  split
  · exact .returns nofun
  · extract_lets path
    split
    · exact .fails
    next inner =>
      extract_lets proceed
      have goesOn : law.Keeps (proceed ()) (proceed ())
          fun extension => ∀ given, extension = some given → Extends? law given :=
        .returns fun given has => ⟨inner, known inner rfl, has⟩
      split
      · exact (notify_keeps law _).bind fun _ _ => goesOn
      · exact goesOn

theorem classifyPlain_keeps (keeps : OnwardKeeps law onward other) (place : law.At scope)
    (site : Site) {declaration : Element} {type : Option ComplexType} {hint : Option String}
    (met : law.words.member (.element declaration))
    (typed : context.index.elementComplexType declaration = .ok type)
    (hinted : Hinted law hint) :
    law.Keeps (classifyPlain context onward scope site declaration type hint)
      (classifyPlain context other scope site declaration type hint) fun _ => True := by
  have known : ∀ inner, type = some inner → law.words.type inner := fun inner same =>
    law.words.elementType met (same ▸ typed)
  refine (referencedExtension?_keeps site known).bind fun extension extends_ => ?_
  refine (resolveElement_keeps keeps place site met typed hinted extends_).bind
    fun (resolved, most, documented) allowed => ?_
  refine (addMember_keeps place documented _ most allowed).bind fun _ _ => ?_
  split
  next given =>
    obtain ⟨extended, knownExtended, has⟩ := extends_ given rfl
    exact keeps.extension _ extended given (law.atMoved place) knownExtended has
  next => exact .returns trivial

theorem flatten_keeps (keeps : OnwardKeeps law onward other) (place : law.At scope) (site : Site)
    {type : ComplexType} (known : law.words.type type) :
    law.Keeps (flatten onward scope site type) (flatten other scope site type) fun _ => True := by
  refine (produced_keeps law _).bind fun before _ => ?_
  refine (keeps.members _ type (law.atMoved place) known).bind fun _ _ => ?_
  refine (produced_keeps law _).bind fun after _ => ?_
  split
  · exact .fails
  · exact .returns trivial

theorem flatteningHint_keeps (place : law.At scope) (site : Site) {type : Option ComplexType}
    (known : ∀ inner, type = some inner → law.words.type inner) :
    law.Keeps (flatteningHint scope site type) (flatteningHint scope site type) (Hinted law) := by
  unfold flatteningHint
  extract_lets path
  split
  · exact (notify_keeps law _).bind fun _ _ => .returns hinted_none
  next given =>
    split
    next inner has =>
      refine (notify_keeps law _).bind fun _ _ => .returns ?_
      rintro _ ⟨⟩ found isType
      exact law.asks place (.content (known given rfl) has isType)
    next => exact .returns hinted_none

theorem unflattenedHint_keeps (place : law.At scope) (site : Site) {type : Option ComplexType}
    (known : ∀ inner, type = some inner → law.words.type inner) :
    law.Keeps (unflattenedHint scope site type) (unflattenedHint scope site type) (Hinted law) := by
  unfold unflattenedHint
  split
  · exact flatteningHint_keeps place site known
  · exact .returns hinted_none

theorem classifyElement_keeps (keeps : OnwardKeeps law onward other) (place : law.At scope)
    (site : Site) (bagKey : String) {declaration : Element}
    (met : law.words.member (.element declaration)) :
    law.Keeps (classifyElement context onward scope site bagKey declaration)
      (classifyElement context other scope site bagKey declaration) fun _ => True := by
  rw [classifyElement_eq, classifyElement_eq]
  refine (elementType_keeps met).bind fun type ⟨typed, known⟩ => ?_
  refine (inferTarget?_keeps site _ met).bind fun inferred requested => ?_
  split
  next relation _ => exact addRelation_keeps keeps place site met requested relation
  next =>
    -- The bag comes before flattening; a failed attempt to flatten is a value.
    unfold classifyUnrelated
    split
    · split
      · exact recordBag_keeps place _ _ _
      · exact .returns trivial
    · cases flat : flattened? scope.rules site.name type with
      | some members =>
        obtain ⟨_, rfl, _⟩ := flattened?_eq_some.mp flat
        exact flatten_keeps keeps place site (known members rfl)
      | none =>
        exact (unflattenedHint_keeps place site known).bind fun _ =>
          classifyPlain_keeps keeps place site met typed

theorem classify_keeps (keeps : OnwardKeeps law onward other) (place : law.At scope)
    (nullable : Bool) {member : Member} (met : law.words.member member) :
    law.Keeps (classify context onward scope nullable member)
      (classify context other scope nullable member) fun _ => True := by
  unfold classify
  extract_lets rules localName dottedPath name coalesced settled bagKey site
  split
  · exact addField_keeps law place .dropped
  · split
    next selected => exact addField_keeps law place (.parentAlias met (beq_iff_eq.mp selected))
    next =>
      split
      · exact classifyAttribute_keeps keeps place site bagKey met
      · exact classifyElement_keeps keeps place site bagKey met

/-! ## Walking -/

theorem walkAttributes_keeps (keeps : OnwardKeeps law onward other) (place : law.At scope)
    {items : List AttributeItem}
    (met : ∀ declaration, .single declaration ∈ items → law.words.member (.attrib declaration)) :
    law.Keeps (walkAttributes context onward scope items)
      (walkAttributes context other scope items) fun _ => True := by
  refine .repeats fun item member => ?_
  split
  · split
    · exact classify_keeps keeps place _ (met _ member)
    · exact .returns trivial
  · exact .fails

mutual

theorem walkParticle_keeps (keeps : OnwardKeeps law onward other) {scope : Scope}
    (place : law.At scope) (particle : Particle)
    (met : ∀ declaration ∈ particle.elements, law.words.member (.element declaration)) :
    law.Keeps (walkParticle context onward scope particle)
      (walkParticle context other scope particle) fun _ => True := by
  match particle with
  | .element declaration =>
    rw [walkParticle, walkParticle]
    exact classify_keeps keeps place _ (met declaration (List.mem_singleton_self declaration))
  | .compositor .sequence occurs parts =>
    rw [walkParticle, walkParticle]
    rw [Particle.elements] at met
    exact walkParts_keeps keeps (law.atMoved place) parts met
  | .compositor .choice occurs parts =>
    rw [walkParticle, walkParticle]
    rw [Particle.elements] at met
    exact (nextChoice_keeps law).bind fun _ _ =>
      walkParts_keeps keeps (law.atMoved place) parts met
  | .any wildcard =>
    rw [walkParticle, walkParticle]
    exact addToBag_keeps law place _
  | .group reference occurs =>
    rw [walkParticle, walkParticle]
    exact .fails

theorem walkParts_keeps (keeps : OnwardKeeps law onward other) {scope : Scope}
    (place : law.At scope) (parts : List Particle)
    (met : ∀ declaration ∈ Particle.elementsOf parts, law.words.member (.element declaration)) :
    law.Keeps (walkParts context onward scope parts) (walkParts context other scope parts)
      fun _ => True := by
  match parts with
  | [] =>
    rw [walkParts, walkParts]
    exact .returns trivial
  | part :: rest =>
    rw [walkParts, walkParts]
    rw [Particle.elementsOf] at met
    exact (walkParticle_keeps keeps place part fun declaration member =>
        met declaration (List.mem_append_left _ member)).bind fun _ _ =>
      walkParts_keeps keeps place rest fun declaration member =>
        met declaration (List.mem_append_right _ member)

end

theorem walkContent_keeps (keeps : OnwardKeeps law onward other) (place : law.At scope)
    {content : Option Particle}
    (met : ∀ particle, content = some particle →
      ∀ declaration ∈ particle.elements, law.words.member (.element declaration)) :
    law.Keeps (walkContent context onward scope content) (walkContent context other scope content)
      fun _ => True := by
  cases content with
  | none => exact .returns trivial
  | some particle => exact walkParticle_keeps keeps place particle (met particle rfl)

section Members

variable {type : ComplexType}

theorem walkExtension_keeps (keeps : OnwardKeeps law onward other) (place : law.At scope)
    (known : law.words.type type) {extension : Extension}
    (has : type.extension = some extension) :
    law.Keeps (walkExtension context onward scope extension)
      (walkExtension context other scope extension) fun _ => True := by
  refine (walkAttributes_keeps keeps place fun declaration member => ?_).bind fun _ _ =>
    walkContent_keeps keeps place fun particle adds declaration => ?_
  · exact law.words.attrib known (by simp [ComplexType.attributeItems, has, member])
  · exact law.words.element known (Schema.ComplexType.mem_contents_of_extension has adds)

theorem walkOwnMembers_keeps (keeps : OnwardKeeps law onward other) (place : law.At scope)
    (known : law.words.type type) :
    law.Keeps (walkOwnMembers context onward scope type)
      (walkOwnMembers context other scope type) fun _ => True := by
  have items : ∀ part, part ⊆ type.attributeItems →
      law.Keeps (walkAttributes context onward scope part)
        (walkAttributes context other scope part) fun _ => True := fun part inside =>
    walkAttributes_keeps keeps place fun _ member => law.words.attrib known (inside member)
  -- The attributes come from three places of the type, and the content from two.
  refine (items _ ComplexType.attributes_subset).bind fun _ _ =>
    (items _ ComplexType.simpleAttributes_subset).bind fun _ _ =>
    (items _ ComplexType.extensionAttributes_subset).bind fun _ _ =>
    (walkContent_keeps keeps place fun particle has declaration =>
      law.words.element known (Schema.ComplexType.mem_contents_of_content has)).bind fun _ _ =>
    walkContent_keeps keeps place fun particle has declaration => ?_
  obtain ⟨extension, extends_, adds⟩ := Option.bind_eq_some_iff.mp has
  exact law.words.element known (Schema.ComplexType.mem_contents_of_extension extends_ adds)

theorem walkMembers_keeps (keeps : OnwardKeeps law onward other) (place : law.At scope)
    (known : law.words.type type) :
    law.Keeps (walkMembers context onward scope type) (walkMembers context other scope type)
      fun _ => True :=
  .repeats fun _ member => walkOwnMembers_keeps keeps place (law.words.lineage known member)

end Members

end Compile

end EntityGraph
