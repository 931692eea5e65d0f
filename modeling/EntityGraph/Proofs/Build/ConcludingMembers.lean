import EntityGraph.Proofs.Build.Concluding

/-!
# Members of a type, walked to an end

The walk through the members of a type concludes, as long as the walks that leave the place do. What
they may be asked for is a named type path, or the entity of an anonymous type that the type
encloses; and an extension that is walked in the place makes the names longer, within the limit.
-/
namespace EntityGraph.Compile

open Schema (Attribute AttributeItem ComplexType Element Extension Index Member Particle)

/-! ## Leaving a place -/

/-- The ways in which the place of a type asks for an entity. -/
inductive Asked (context : Context) (outer : Option ComplexType) :
    String → Option ComplexType → Prop
  | named {path : String} {type : Option ComplexType}
      (member : path ∈ namedPaths context.index context.settings)
      (known : ∀ given, type = some given → given ∈ context.index.types) :
      Asked context outer path type
  | enclosed {inner : ComplexType} (path : String)
      (encloses : Encloses context.index context.settings outer inner) :
      Asked context outer path (some inner)

/-- The walks that leave the place of a type conclude. The path of the flattened ancestors has the
length, or is longer; an extension lengthens it. -/
structure Leaves (context : Context) (count : Nat) (outer : Option ComplexType) (length : Nat)
    (onward : Onward) : Prop where
  asked : ∀ path type fields, Asked context outer path type →
    Concludes (Remains context count) (onward.build path type fields) fun _ => True
  built : ∀ path, ConcludesIn
    (fun state => Remains context count state ∧ state.isBuilt path = true)
    (onward.build path none []) fun _ state => Remains context count state ∧ True
  extension : ∀ scope type extension, scope.IsGiven context.settings →
    length < scope.ancestors.length →
    scope.ancestors.length ≤ context.settings.compiler.identifierLimit + 1 →
    type ∈ context.index.types → type.extension = some extension →
    (∀ content, extension.content = some content → ∀ declaration ∈ content.elements,
      Met context.index context.settings outer declaration) →
    Concludes (Remains context count) (onward.extension scope extension) fun _ => True

/-- What is known of the schema and the settings. -/
structure Terminating (context : Context) : Prop where
  read : RuleBook.ofSettings context.settings = .ok context.book
  names : context.index.NamesTypes
  flattensNothing : context.settings.EveryOptions EntityOptions.FlattensNothing
  grounded : Grounded context.index context.settings

/-- A place whose flattened ancestors are at least so long. -/
structure Scope.IsPlace (context : Context) (length : Nat) (scope : Scope) : Prop where
  given : scope.IsGiven context.settings
  long : length ≤ scope.ancestors.length

/-- Another place of the same entity, with the same ancestors. -/
theorem Scope.IsPlace.moved {context : Context} {length : Nat} {scope other : Scope}
    (place : scope.IsPlace context length)
    (same : (other.typePath, other.entity, other.rules, other.ancestors) =
      (scope.typePath, scope.entity, scope.rules, scope.ancestors) := by rfl) :
    other.IsPlace context length := by
  obtain ⟨path, entity, rules, ancestors⟩ : other.typePath = scope.typePath ∧
      other.entity = scope.entity ∧ other.rules = scope.rules ∧
        other.ancestors = scope.ancestors := by simpa using same
  obtain ⟨book, read, given⟩ := place.given
  exact ⟨⟨book, read, path ▸ entity ▸ rules ▸ given⟩, ancestors ▸ place.long⟩

/-- An element is met at a place which neither drops it nor selects the parent by it. -/
structure Candidate (context : Context) (outer : Option ComplexType) (scope : Scope)
    (declaration : Element) (site : Site) : Prop where
  met : Met context.index context.settings outer declaration
  given : scope.IsGiven context.settings
  kept : scope.rules.drop.contains (scope.plainName declaration) = false
  noParent : scope.rules.options.parentField ≠ some (scope.plainName declaration)
  name : site.name = scope.settledName declaration
  path : site.dottedPath = scope.elementPath declaration

variable {context : Context} {count : Nat} {outer : Option ComplexType} {length : Nat}
  {onward : Onward} {scope : Scope} {site : Site} {declaration : Element}

theorem Candidate.takes (candidate : Candidate context outer scope declaration site)
    (unbagged : scope.rules.json.contains site.name = true →
      scope.rules.asksForRelation site.name = true) :
    scope.Takes context.settings declaration where
  given := candidate.given
  kept := candidate.kept
  noParent := candidate.noParent
  unbagged := candidate.name ▸ unbagged

/-! ## Relations -/

/-- The type of an element that counts for one that is taken. -/
theorem Candidate.asked_of_type (terminating : Terminating context)
    (candidate : Candidate context outer scope declaration site)
    (takes : scope.Takes context.settings declaration) {standing : Element}
    (counts : CountsFor context.index scope declaration standing) {type : ComplexType}
    (typed : context.index.elementComplexType standing = .ok (some type)) (name : String) :
    Asked context outer (type.name.getD (scope.memberPath name)) (some type) := by
  have has := counts.hasElement candidate.met.hasElement
  cases own : type.name with
  | some declared =>
    refine .named (mem_namedPaths_of_typeName
      (Index.mem_typeNames_of_own (has.mem_types typed) own)) ?_
    rintro _ ⟨⟩
    exact has.mem_types typed
  | none =>
    obtain ⟨anonymous, inside⟩ := anonymous_of_nameless terminating.names typed own
    exact .enclosed _ ⟨candidate.met, takes, counts, anonymous, inside⟩

theorem repeatedElement_concludes (scope : Scope) (site : Site) (declaration : Element) :
    Concludes (Remains context count) (repeatedElement context scope site declaration)
      fun (inner, _) => inner = declaration ∨ ∃ type,
        context.index.elementComplexType declaration = .ok (some type) ∧
          type.unboundedChild? = some inner := by
  unfold repeatedElement
  split
  · exact .returns (.inl rfl)
  · refine (Concludes.lifts (context.index.elementComplexType_avoids _)).bind fun type typed => ?_
    split
    next child found =>
      obtain ⟨parent, rfl, inside⟩ := Option.bind_eq_some_iff.mp found
      exact .returns (.inr ⟨parent, typed, inside⟩)
    next => exact (notify_concludes _).bind fun _ _ => .returns (.inl rfl)

theorem repeatedTarget_concludes (terminating : Terminating context)
    (candidate : Candidate context outer scope declaration site)
    (takes : scope.Takes context.settings declaration)
    (wraps : ∀ type inner, context.index.elementComplexType declaration = .ok (some type) →
      type.unboundedChild? = some inner → CountsFor context.index scope declaration inner) :
    Concludes (Remains context count) (repeatedTarget context scope site declaration)
      fun target => Asked context outer target.path target.type := by
  refine (repeatedElement_concludes scope site declaration).bind fun (inner, name) wrapped => ?_
  have counts : CountsFor context.index scope declaration inner := by
    rcases wrapped with rfl | ⟨type, typed, child⟩
    · exact .itself
    · exact wraps type inner typed child
  refine (Concludes.lifts (context.index.elementComplexType_avoids inner)).bind fun type typed => ?_
  split
  · exact .returns (candidate.asked_of_type terminating takes counts typed name)
  · exact .fails rfl

/-- An element that repeats has a complex type. -/
theorem exists_type_of_isRepeated {index : Index}
    (repeats : isRepeated index declaration = .ok true) :
    ∃ type, index.elementComplexType declaration = .ok (some type) := by
  obtain ⟨type, typed, repeats⟩ := Result.bind_eq_ok.mp repeats
  cases type with
  | none => cases repeats
  | some type => exact ⟨type, typed⟩

/-- Where a rule for the name decides, nothing is inferred. -/
theorem json_eq_false {rules : FieldRules} {name : String} {isComplex : Bool}
    (implicit : hasExplicitRule rules name isComplex = false) :
    rules.json.contains name = false := by
  simp only [hasExplicitRule, Bool.or_eq_false_iff] at implicit
  exact implicit.1.1.1.1.1.2

theorem inferTarget?_concludes (terminating : Terminating context)
    (candidate : Candidate context outer scope declaration site) {type : Option ComplexType}
    (typed : context.index.elementComplexType declaration = .ok type) :
    Concludes (Remains context count) (inferTarget? context scope site declaration type.isSome)
      fun inferred => ∀ target, inferred = some target →
        Asked context outer target.path target.type ∧
          scope.rules.json.contains site.name = false := by
  unfold inferTarget?
  split
  · exact .returns fun _ has => by cases has
  next implicit =>
    have implicit := Bool.eq_false_iff.mpr implicit
    refine (Concludes.lifts (isRepeated_avoids context.index declaration)).bind
      fun repeats given => ?_
    split
    next isTrue =>
      subst isTrue
      have unbagged := json_eq_false implicit
      obtain ⟨found, foundType⟩ := exists_type_of_isRepeated given
      obtain rfl : type = some found := Except.ok.inj (typed.symm.trans foundType)
      have takes := candidate.takes fun bagged => by simp [unbagged] at bagged
      refine (repeatedTarget_concludes terminating candidate takes fun _ _ typed child =>
        .repeated (candidate.name ▸ implicit) given typed child).bind fun target asked =>
          .returns ?_
      rintro _ ⟨⟩
      exact ⟨asked, unbagged⟩
    next => exact .returns fun _ has => by cases has

theorem singleTarget_concludes (terminating : Terminating context)
    (candidate : Candidate context outer scope declaration site)
    (takes : scope.Takes context.settings declaration) :
    Concludes (Remains context count) (singleTarget context scope site declaration)
      fun target => Asked context outer target.path target.type := by
  refine (Concludes.lifts (context.index.elementComplexType_avoids _)).bind fun type typed => ?_
  split
  · exact .returns (candidate.asked_of_type terminating takes .itself typed site.name)
  · exact .fails rfl

/-- A target that the rules of a place name. -/
theorem asked_of_target (given : scope.IsGiven context.settings) {path : String}
    (target : path ∈ scope.rules.options.targets) : Asked context outer path none :=
  .named (given.mem_namedPaths context.index target) fun _ has => by cases has

theorem manyTarget_concludes (terminating : Terminating context)
    (candidate : Candidate context outer scope declaration site)
    (takes : scope.Takes context.settings declaration) {configured : Option String}
    {inferred : Option Target}
    (named : ∀ path, configured = some path → path ∈ scope.rules.options.targets)
    (requested : ∀ target, inferred = some target → Asked context outer target.path target.type)
    (many : configured = none → inferred = none →
      scope.rules.oneToMany.contains site.name = true ∨
        scope.rules.manyToMany.contains site.name = true) :
    Concludes (Remains context count)
      (manyTarget context scope site declaration configured inferred)
      fun target => Asked context outer target.path target.type := by
  unfold manyTarget
  split
  · exact .returns (asked_of_target candidate.given (named _ rfl))
  · exact .returns (requested _ rfl)
  · exact repeatedTarget_concludes terminating candidate takes fun _ _ typed child =>
      .asked (candidate.name ▸ many rfl rfl) typed child

/-! ## Adding fields -/

/-- Finishing a field and adding it keeps its name within the limit. -/
theorem addFinished_concludes (scope : Scope) (draft : Field) (text primitive : Option String)
    (materialized : draft.kind.isMaterialized = true) :
    Concludes (Remains context count)
      (do addField context scope.rules scope.typePath
            (← finishField context scope text primitive draft))
      fun _ => scope.rules.dropAfterProcessing.contains draft.name = false →
        draft.name.length ≤ context.settings.compiler.identifierLimit := by
  refine (Concludes.lifts (finishField_avoids _ _ _ _ _)).bind fun field finished => ?_
  obtain ⟨declared, shape, _⟩ := finishField_form finished
  have name : field.name = draft.name := (Field.declaration_eq_iff.mp declared).1
  have stays : field.isMaterialized = true := by
    rcases shape with same | ⟨_, _, _, scalar⟩
    · exact (FieldKind.isMaterialized_of_shape same).trans materialized
    · have same : field.kind.shape = (FieldKind.scalar default).shape := scalar
      exact FieldKind.isMaterialized_of_shape same
  exact (addField_concludes _ _ field).weaken fun _ limited => name ▸ limited stays

theorem addReverse_concludes (leaves : Leaves context count outer length onward) (scope : Scope)
    (site : Site) (oneToOne : Bool) {target : Target}
    (asked : Asked context outer target.path target.type) :
    Concludes (Remains context count) (addReverse context onward scope site oneToOne target)
      fun _ => True := by
  refine .reads fun state => ?_
  extract_lets reverseField back
  refine (leaves.asked _ _ _ asked).bind fun entity _ => ?_
  cases oneToOne with
  | true => exact (addFinished_concludes _ _ _ _ rfl).done
  | false => exact (addFinished_concludes _ _ _ _ rfl).done

theorem addManyToMany_concludes (leaves : Leaves context count outer length onward) (scope : Scope)
    (site : Site) {target : Target} (asked : Asked context outer target.path target.type) :
    Concludes (Remains context count) (addManyToMany context onward scope site target)
      fun _ => True := by
  refine (leaves.asked _ _ _ asked).bind fun entity _ => ?_
  exact (addFinished_concludes _ _ _ _ rfl).done

/-- A relation is asked for by a rule, or inferred. -/
theorem asksForRelation_of_relation? {rules : FieldRules} {name : String}
    {inferred : Option Target} {relation : Relation}
    (asked : relation? context rules name inferred = some relation)
    (notInferred : inferred = none) :
    rules.asksForRelation name = true := by
  subst notInferred
  by_contra plain
  simp only [FieldRules.asksForRelation, Bool.or_eq_true, not_or, Bool.not_eq_true] at plain
  simp [relation?, plain] at asked

theorem oneToMany_of_relation? {rules : FieldRules} {name : String}
    (asked : relation? context rules name none = some .oneToMany)
    (bare : rules.oneToManyTarget? name = none) : rules.oneToMany.contains name = true := by
  simp only [relation?, bare] at asked
  split at asked
  · cases asked
  · split at asked
    next many => simpa using many
    next =>
      split at asked
      · cases asked
      · cases asked

theorem manyToMany_of_relation? {rules : FieldRules} {name : String}
    (asked : relation? context rules name none = some .manyToMany)
    (bare : rules.manyToManyTarget? name = none) : rules.manyToMany.contains name = true := by
  simp only [relation?, bare] at asked
  split at asked
  · cases asked
  · split at asked
    · cases asked
    · split at asked
      next many => simpa using many
      next => cases asked

theorem addRelation_concludes (terminating : Terminating context)
    (leaves : Leaves context count outer length onward)
    (candidate : Candidate context outer scope declaration site) {inferred : Option Target}
    (requested : ∀ target, inferred = some target →
      Asked context outer target.path target.type ∧ scope.rules.json.contains site.name = false)
    {relation : Relation}
    (asked : relation? context scope.rules site.name inferred = some relation) :
    Concludes (Remains context count)
      (addRelation context onward scope site declaration inferred relation) fun _ => True := by
  have takes : scope.Takes context.settings declaration := by
    refine candidate.takes fun bagged => asksForRelation_of_relation? asked ?_
    refine Option.eq_none_iff_forall_ne_some.mpr fun target same => ?_
    simp [(requested target same).2] at bagged
  have reached : ∀ target, inferred = some target → Asked context outer target.path target.type :=
    fun target same => (requested target same).1
  cases relation with
  | oneToOne =>
    exact (singleTarget_concludes terminating candidate takes).bind fun _ asked =>
      addReverse_concludes leaves scope site true asked
  | oneToMany =>
    refine (manyTarget_concludes terminating candidate takes (fun path found => ?_) reached
      fun bare plain => ?_).bind fun _ asked => addReverse_concludes leaves scope site false asked
    · simp [EntityOptions.targets, mem_of_targetOf? found]
    · subst plain
      exact .inl (oneToMany_of_relation? asked bare)
  | manyToMany =>
    refine (manyTarget_concludes terminating candidate takes (fun path found => ?_) reached
      fun bare plain => ?_).bind fun _ asked => addManyToMany_concludes leaves scope site asked
    · simp [EntityOptions.targets, mem_of_targetOf? found]
    · subst plain
      exact .inr (manyToMany_of_relation? asked bare)

/-! ## Values -/

/-- Building an entity and referring to it. -/
theorem reference_concludes (leaves : Leaves context count outer length onward) {path : String}
    {type : Option ComplexType} (asked : Asked context outer path type) (oneToOne : Bool)
    (onDelete : OnDelete) :
    Concludes (Remains context count)
      (do return ResolvedKind.reference (← onward.build path type []) oneToOne onDelete)
      fun resolved => resolved.kind.isMaterialized = true :=
  (leaves.asked _ _ _ asked).bind fun _ _ => .returns rfl

theorem resolveNamed_concludes (leaves : Leaves context count outer length onward) {name : String}
    (named : name ∈ namedPaths context.index context.settings) :
    Concludes (Remains context count) (resolveNamed context onward name)
      fun resolved => resolved.kind.isMaterialized = true := by
  unfold resolveNamed
  split
  · exact (namedScalar_concludes name).bind fun _ _ => .returns rfl
  · refine (Concludes.lifts (context.index.complexType_avoids name)).bind fun type found => ?_
    refine reference_concludes leaves (.named named ?_) false .protect
    rintro _ ⟨⟩
    exact Index.mem_types_of_complexType? (complexType?_of_complexType found)

/-- A member whose type may be asked for at a place. -/
structure Valued (context : Context) (outer : Option ComplexType) (member : Member) : Prop where
  named : ∀ name, (declaredTypes member).name = some name →
    name ∈ namedPaths context.index context.settings
  inline : ∀ inner, (declaredTypes member).name = none →
    (declaredTypes member).complex = some inner →
      Encloses context.index context.settings outer inner

theorem Candidate.valued (candidate : Candidate context outer scope declaration site)
    (takes : scope.Takes context.settings declaration) {standing : Element}
    (counts : CountsFor context.index scope declaration standing) :
    Valued context outer (.element standing) where
  named _ names := mem_namedPaths_of_typeName
    ((counts.hasElement candidate.met.hasElement).mem_typeNames names)
  inline _ bare inside := ⟨candidate.met, takes, counts, bare, inside⟩

theorem resolveValue_concludes (leaves : Leaves context count outer length onward) (scope : Scope)
    (name : String) {member : Member} (valued : Valued context outer member) :
    Concludes (Remains context count) (resolveValue context onward scope name none member)
      fun resolved => resolved.kind.isMaterialized = true := by
  unfold resolveValue
  extract_lets types
  split
  next given => exact resolveNamed_concludes leaves (valued.named _ given)
  next simple _ _ =>
    exact (deriveScalar_concludes fun scalars => Scalar.inline_avoids _ simple scalars).bind
      fun _ _ => .returns rfl
  next complex bare _ inside =>
    exact reference_concludes leaves (.enclosed _ (valued.inline complex bare inside)) true .cascade
  next => exact (namedScalar_concludes _).bind fun _ _ => .returns rfl

theorem resolveForeignKey_concludes (leaves : Leaves context count outer length onward)
    (given : scope.IsGiven context.settings) (name : String) {target : String}
    {type : Option ComplexType} (known : ∀ inner, type = some inner → inner ∈ context.index.types)
    (configured : target ∈ scope.rules.options.targets) :
    Concludes (Remains context count) (resolveForeignKey onward scope name target type)
      fun resolved => resolved.kind.isMaterialized = true := by
  unfold resolveForeignKey
  split
  · split
    · exact reference_concludes leaves
        (.named (given.mem_namedPaths context.index configured) known)
        false .protect
    · exact .fails rfl
  · exact reference_concludes leaves (asked_of_target given configured) false .protect

/-- The site of an element may get further documentation. -/
def SameSite (site other : Site) : Prop :=
  (other.name, other.dottedPath) = (site.name, site.dottedPath)

/-- The kind of a value, and the site that comes back with it. -/
def Resolves (site : Site) (result : ResolvedKind × Schema.MaxOccurs × Site) : Prop :=
  result.1.kind.isMaterialized = true ∧ SameSite site result.2.2

/-- Resolving a value and taking a list of it. -/
theorem resolveList_concludes (leaves : Leaves context count outer length onward) (scope : Scope)
    {member : Member} (valued : Valued context outer member) (name path : String)
    (most : Schema.MaxOccurs) {documented : Site} (same : SameSite site documented) :
    Concludes (Remains context count)
      (do
        let resolved ← resolveValue context onward scope name none member
        return (← listKind resolved path, most, documented)) (Resolves site) := by
  refine (resolveValue_concludes leaves scope name valued).bind fun resolved _ => ?_
  refine (Concludes.lifts (listKind_avoids resolved path)).bind fun list listed =>
    .returns ⟨?_, same⟩
  unfold listKind at listed
  split at listed
  · obtain rfl := Except.ok.inj listed
    rfl
  · cases listed

theorem resolveArray_concludes (leaves : Leaves context count outer length onward)
    (candidate : Candidate context outer scope declaration site)
    (takes : scope.Takes context.settings declaration) {type : Option ComplexType}
    (typed : context.index.elementComplexType declaration = .ok type)
    (list : scope.rules.array.contains site.name = true) :
    Concludes (Remains context count) (resolveArray context onward scope site declaration type)
      (Resolves site) := by
  unfold resolveArray
  extract_lets path
  split
  · exact resolveList_concludes leaves scope (candidate.valued takes .itself) _ _ _ rfl
  next inner =>
    split
    · exact .fails rfl
    next first found =>
      extract_lets most doc documented
      have counts : CountsFor context.index scope declaration first :=
        .listed (candidate.name ▸ list) typed found
      exact resolveList_concludes leaves scope (candidate.valued takes counts) _ _ _ rfl

theorem resolveElement_concludes (leaves : Leaves context count outer length onward)
    (candidate : Candidate context outer scope declaration site)
    (takes : scope.Takes context.settings declaration) {type : Option ComplexType}
    (typed : context.index.elementComplexType declaration = .ok type)
    {extension : Option Extension}
    (extends_ : ∀ given, extension = some given →
      ∃ inner, type = some inner ∧ inner.extension = some given) :
    Concludes (Remains context count)
      (resolveElement context onward scope site declaration type none extension)
      (Resolves site) := by
  have known : ∀ inner, type = some inner → inner ∈ context.index.types := fun inner same =>
    candidate.met.hasElement.mem_types (same ▸ typed)
  unfold resolveElement
  split
  next list => exact resolveArray_concludes leaves candidate takes typed list
  next =>
    split
    next target found =>
      refine (resolveForeignKey_concludes leaves candidate.given site.name known ?_).bind
        fun resolved materialized => Concludes.returns ⟨materialized, rfl⟩
      simp [EntityOptions.targets, mem_of_targetOf? found]
    next given _ =>
      -- The base of the extension is built; what the extension adds is walked later.
      obtain ⟨inner, same, has⟩ := extends_ given rfl
      have asked : Asked context outer given.base none :=
        .named (mem_namedPaths_of_typeName (Index.mem_typeNames_of_base (known inner same) has))
          fun _ absent => by cases absent
      exact (leaves.asked _ _ _ asked).bind fun _ _ => Concludes.returns ⟨rfl, rfl⟩
    next =>
      exact (resolveValue_concludes leaves scope site.name (candidate.valued takes .itself)).bind
        fun resolved materialized => Concludes.returns ⟨materialized, rfl⟩

/-! ## The decision -/

theorem addMember_concludes (scope : Scope) (site : Site) (member : Member)
    {resolved : ResolvedKind} (most : Schema.MaxOccurs)
    (materialized : resolved.kind.isMaterialized = true) :
    Concludes (Remains context count) (addMember context scope site member resolved most)
      fun _ => scope.rules.dropAfterProcessing.contains site.name = false →
        site.name.length ≤ context.settings.compiler.identifierLimit := by
  unfold addMember
  extract_lets plain draft proceed
  have goesOn : Concludes (Remains context count) (proceed ())
      fun _ => scope.rules.dropAfterProcessing.contains site.name = false →
        site.name.length ≤ context.settings.compiler.identifierLimit :=
    addFinished_concludes scope draft _ _ materialized
  split
  · split
    · exact (Concludes.fails rfl).bind fun _ (impossible : False) => impossible.elim
    · exact goesOn
  · exact goesOn

theorem recordBag_concludes (scope : Scope) (key : String) (doc : Option String)
    (type : Option ComplexType) :
    Concludes (Remains context count) (recordBag context scope key doc type) fun _ => True :=
  addToBag_concludes _ _

theorem classifyAttribute_concludes (leaves : Leaves context count outer length onward)
    (scope : Scope) (site : Site) (bagKey : String) {held : Attribute}
    (valued : Valued context outer (.attrib held)) :
    Concludes (Remains context count)
      (classifyAttribute context onward scope site bagKey held) fun _ => True := by
  unfold classifyAttribute
  split
  · split
    · exact recordBag_concludes _ _ _ _
    · exact .returns trivial
  · exact (resolveValue_concludes leaves scope site.name valued).bind fun resolved materialized =>
      (addMember_concludes _ _ _ _ materialized).done

theorem referencedExtension?_concludes (scope : Scope) (site : Site) (type : Option ComplexType) :
    Concludes (Remains context count) (referencedExtension? scope site type)
      fun extension => ∀ given, extension = some given →
        scope.rules.referenceExtension.contains site.name = true ∧
          ∃ inner, type = some inner ∧ inner.extension = some given := by
  unfold referencedExtension?
  split
  · exact .returns fun _ has => by cases has
  next refers =>
    have refers : scope.rules.referenceExtension.contains site.name = true := by simpa using refers
    extract_lets path
    split
    · exact .fails rfl
    next inner =>
      extract_lets proceed
      have goesOn : Concludes (Remains context count) (proceed ())
          fun extension => ∀ given, extension = some given →
            scope.rules.referenceExtension.contains site.name = true ∧
              ∃ type, some inner = some type ∧ type.extension = some given :=
        .returns fun given has => ⟨refers, inner, rfl, has⟩
      split
      · exact (notify_concludes _).bind fun _ _ => goesOn
      · exact goesOn

/-- A name is as long as the path, which is longer than that of the ancestors. -/
theorem length_plainName (scope : Scope) (declaration : Element) :
    (scope.plainName declaration).length = (scope.elementPath declaration).length := by
  simp only [Scope.plainName, Scope.fieldName, Scope.elementPath, String.length_append,
    String.length_ofList, List.length_map, String.length_toList]

/-- The place of an extension that is walked behind a reference. -/
theorem Candidate.extended (terminating : Terminating context)
    (candidate : Candidate context outer scope declaration site)
    (refers : scope.rules.referenceExtension.contains site.name = true)
    (limited : scope.rules.dropAfterProcessing.contains site.name = false →
      site.name.length ≤ context.settings.compiler.identifierLimit) :
    scope.ancestors.length < (site.dottedPath ++ ".").length ∧
      (site.dottedPath ++ ".").length ≤ context.settings.compiler.identifierLimit + 1 := by
  obtain ⟨wanted, alone⟩ := terminating.grounded.extensions scope candidate.given _ refers
  have short := limited wanted
  -- No other name is made equal to this one, so it is the plain name.
  have plain : site.name = scope.plainName declaration := by
    rw [candidate.name, Scope.settledName]
    cases coalesced : scope.rules.coalesce.renamed? (scope.plainName declaration) with
    | none => rfl
    | some settled =>
      refine absurd coalesced ?_
      have same : site.name = settled := by rw [candidate.name, Scope.settledName, coalesced]; rfl
      exact same ▸ alone _
  rw [plain, length_plainName] at short
  rw [candidate.path, String.length_append]
  have dot : (".").length = 1 := rfl
  have longer : scope.ancestors.length ≤ (scope.elementPath declaration).length := by
    rw [Scope.elementPath, String.length_append]
    exact Nat.le_add_right _ _
  omega

theorem classifyPlain_concludes (terminating : Terminating context)
    (leaves : Leaves context count outer length onward) (long : length ≤ scope.ancestors.length)
    (candidate : Candidate context outer scope declaration site)
    (takes : scope.Takes context.settings declaration) {type : Option ComplexType}
    (typed : context.index.elementComplexType declaration = .ok type) :
    Concludes (Remains context count)
      (classifyPlain context onward scope site declaration type none) fun _ => True := by
  refine (referencedExtension?_concludes scope site type).bind fun extension extends_ => ?_
  refine (resolveElement_concludes leaves candidate takes typed fun given same =>
    (extends_ given same).2).bind fun (resolved, most, documented) ⟨materialized, same⟩ => ?_
  obtain ⟨name, path⟩ := Prod.mk.inj same
  refine (addMember_concludes scope documented _ most materialized).bind fun _ limited => ?_
  split
  next given =>
    obtain ⟨refers, inner, rfl, has⟩ := extends_ given rfl
    obtain ⟨above, within⟩ := candidate.extended terminating refers (name ▸ limited)
    refine leaves.extension _ inner given candidate.given (Nat.lt_of_le_of_lt long above) within
      (candidate.met.hasElement.mem_types typed) has fun content adds added inside => ?_
    exact .added candidate.met takes (candidate.name ▸ refers) typed has adds inside
  next => exact .returns trivial

theorem classifyElement_concludes (terminating : Terminating context)
    (leaves : Leaves context count outer length onward) (long : length ≤ scope.ancestors.length)
    (candidate : Candidate context outer scope declaration site) (bagKey : String) :
    Concludes (Remains context count)
      (classifyElement context onward scope site bagKey declaration) fun _ => True := by
  unfold classifyElement
  extract_lets rules
  refine (Concludes.lifts (context.index.elementComplexType_avoids _)).bind fun type typed => ?_
  refine (inferTarget?_concludes terminating candidate typed).bind fun inferred requested => ?_
  split
  next relation asked => exact addRelation_concludes terminating leaves candidate requested asked
  next =>
    split
    · split
      · exact recordBag_concludes _ _ _ _
      · exact .returns trivial
    next unbagged =>
      have takes := candidate.takes fun bagged => absurd bagged unbagged
      rw [candidate.given.asksForFlattening_eq_false terminating.flattensNothing]
      exact classifyPlain_concludes terminating leaves long candidate takes typed

/-! ## Walking -/

/-- What is walked at the place of a type: elements that are met, and attributes with their
types. -/
inductive Walkable (context : Context) (outer : Option ComplexType) : Member → Prop
  | element {declaration : Element}
      (met : Met context.index context.settings outer declaration) :
      Walkable context outer (.element declaration)
  | attrib {held : Attribute} (valued : Valued context outer (.attrib held)) :
      Walkable context outer (.attrib held)

/-- An attribute of a type of the index. -/
theorem Walkable.of_attribute {type : ComplexType} (known : type ∈ context.index.types)
    {held : Attribute} (has : .single held ∈ type.attributeItems) :
    Walkable context outer (.attrib held) :=
  .attrib ⟨fun _ named => mem_namedPaths_of_typeName
    (Index.mem_typeNames_of_attribute known has named), fun _ _ inside => by cases inside⟩

theorem classify_concludes (terminating : Terminating context)
    (leaves : Leaves context count outer length onward) (place : scope.IsPlace context length)
    (nullable : Bool) {member : Member} (walkable : Walkable context outer member) :
    Concludes (Remains context count) (classify context onward scope nullable member)
      fun _ => True := by
  unfold classify
  extract_lets rules localName dottedPath name coalesced settled bagKey site
  split
  · exact (addField_concludes _ _ _).done
  next kept =>
    split
    · exact (addField_concludes _ _ _).done
    next noParent =>
      cases walkable with
      | attrib valued => exact classifyAttribute_concludes leaves scope site bagKey valued
      | element met =>
        have candidate : Candidate context outer scope _ site :=
          ⟨met, place.given, Bool.eq_false_iff.mpr kept, fun same => noParent (beq_iff_eq.mpr same),
            rfl, rfl⟩
        exact classifyElement_concludes terminating leaves place.long candidate bagKey

theorem walkAttributes_concludes (terminating : Terminating context)
    (leaves : Leaves context count outer length onward) (place : scope.IsPlace context length)
    {items : List AttributeItem}
    (walkable : ∀ held, .single held ∈ items → Walkable context outer (.attrib held)) :
    Concludes (Remains context count) (walkAttributes context onward scope items)
      fun _ => True := by
  refine .repeats fun item member => ?_
  split
  · split
    · exact classify_concludes terminating leaves place _ (walkable _ member)
    · exact .returns trivial
  · exact .fails rfl

mutual

theorem walkParticle_concludes (terminating : Terminating context)
    (leaves : Leaves context count outer length onward) {scope : Scope}
    (place : scope.IsPlace context length) (particle : Particle)
    (met : ∀ declaration ∈ particle.elements,
      Met context.index context.settings outer declaration) :
    Concludes (Remains context count) (walkParticle context onward scope particle)
      fun _ => True := by
  match particle with
  | .element declaration =>
    rw [walkParticle]
    exact classify_concludes terminating leaves place _
      (.element (met declaration (List.mem_singleton_self declaration)))
  | .compositor .sequence occurs parts =>
    rw [walkParticle]
    rw [Particle.elements] at met
    exact walkParts_concludes terminating leaves place.moved parts met
  | .compositor .choice occurs parts =>
    rw [walkParticle]
    rw [Particle.elements] at met
    exact nextChoice_concludes.bind fun _ _ =>
      walkParts_concludes terminating leaves place.moved parts met
  | .any wildcard =>
    rw [walkParticle]
    exact addToBag_concludes _ _
  | .group reference occurs =>
    rw [walkParticle]
    exact .fails rfl

theorem walkParts_concludes (terminating : Terminating context)
    (leaves : Leaves context count outer length onward) {scope : Scope}
    (place : scope.IsPlace context length) (parts : List Particle)
    (met : ∀ declaration ∈ Particle.elementsOf parts,
      Met context.index context.settings outer declaration) :
    Concludes (Remains context count) (walkParts context onward scope parts) fun _ => True := by
  match parts with
  | [] =>
    rw [walkParts]
    exact .returns trivial
  | part :: rest =>
    rw [walkParts]
    rw [Particle.elementsOf] at met
    exact (walkParticle_concludes terminating leaves place part fun declaration member =>
        met declaration (List.mem_append_left _ member)).bind fun _ _ =>
      walkParts_concludes terminating leaves place rest fun declaration member =>
        met declaration (List.mem_append_right _ member)

end

theorem walkContent_concludes (terminating : Terminating context)
    (leaves : Leaves context count outer length onward) (place : scope.IsPlace context length)
    {content : Option Particle}
    (met : ∀ particle, content = some particle → ∀ declaration ∈ particle.elements,
      Met context.index context.settings outer declaration) :
    Concludes (Remains context count) (walkContent context onward scope content)
      fun _ => True := by
  cases content with
  | none => exact .returns trivial
  | some particle =>
    exact walkParticle_concludes terminating leaves place particle (met particle rfl)

section Members

variable {type : ComplexType}

theorem walkExtension_concludes (terminating : Terminating context)
    (leaves : Leaves context count outer length onward) (place : scope.IsPlace context length)
    (known : type ∈ context.index.types) {extension : Extension}
    (has : type.extension = some extension)
    (met : ∀ content, extension.content = some content → ∀ declaration ∈ content.elements,
      Met context.index context.settings outer declaration) :
    Concludes (Remains context count) (walkExtension context onward scope extension)
      fun _ => True := by
  refine (walkAttributes_concludes terminating leaves place fun held member => ?_).bind fun _ _ =>
    walkContent_concludes terminating leaves place met
  exact .of_attribute known (by simp [ComplexType.attributeItems, has, member])

theorem walkOwnMembers_concludes (terminating : Terminating context)
    (leaves : Leaves context count outer length onward) (place : scope.IsPlace context length)
    (gives : Contributes context.index context.settings outer type) :
    Concludes (Remains context count) (walkOwnMembers context onward scope type)
      fun _ => True := by
  have items : ∀ part, part ⊆ type.attributeItems →
      Concludes (Remains context count) (walkAttributes context onward scope part)
        fun _ => True := fun part inside =>
    walkAttributes_concludes terminating leaves place fun _ member =>
      .of_attribute gives.mem_types (inside member)
  -- The attributes come from three places of the type, and the content from two.
  refine (items _ ComplexType.attributes_subset).bind fun _ _ =>
    (items _ ComplexType.simpleAttributes_subset).bind fun _ _ =>
    (items _ ComplexType.extensionAttributes_subset).bind fun _ _ =>
    (walkContent_concludes terminating leaves place fun particle has declaration =>
      .member gives (ComplexType.mem_contents_of_content has)).bind fun _ _ =>
    walkContent_concludes terminating leaves place fun particle has declaration => ?_
  obtain ⟨extension, extends_, adds⟩ := Option.bind_eq_some_iff.mp has
  exact .member gives (ComplexType.mem_contents_of_extension extends_ adds)

theorem walkMembers_concludes (terminating : Terminating context)
    (leaves : Leaves context count outer length onward) (place : scope.IsPlace context length)
    (gives : ∀ base ∈ context.index.lineage type,
      Contributes context.index context.settings outer base) :
    Concludes (Remains context count) (walkMembers context onward scope type) fun _ => True :=
  .repeats fun base above => walkOwnMembers_concludes terminating leaves place (gives base above)

end Members

end EntityGraph.Compile
