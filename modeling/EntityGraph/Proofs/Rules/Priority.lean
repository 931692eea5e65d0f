import EntityGraph.Proofs.Build.Flattening
import EntityGraph.Proofs.Build.Priority
import EntityGraph.Proofs.Graph.Stages

/-!
# The priority of rules

Where several rules name one element, the order in which the families of rules are documented says
which of them counts. It does, with one exception: a rule for arrays or foreign keys takes the place
of a reference to the base of an extension. The number of occurrences counts only where no rule
names the element.

Flattening an element fails if it has added nothing to the entity. That happens to a type that leads
to nothing, and also to one that leads to what the entity has already, as a second occurrence of the
element does in another part of a choice.
-/
namespace EntityGraph

open Schema (ComplexType Element)

namespace Compile

namespace RuleFamily

variable {rules : FieldRules} {name : String} {type : Option ComplexType}

/-- The first family that applies, in the order of the documentation. -/
def first (rules : FieldRules) (name : String) (type : Option ComplexType) : Option RuleFamily :=
  documented.find? (applies rules name type)

/-- A reference to the base of an extension comes first, and a rule for arrays or foreign keys names
the element as well. -/
def IsOverridden (rules : FieldRules) (name : String) (type : Option ComplexType) : Prop :=
  first rules name type = some .referenceExtension ∧
    (rules.array.contains name = true ∨ (rules.foreignKeyTarget? name).isSome = true)

theorem decisive_of_not_overridden (kept : ¬IsOverridden rules name type) :
    decisive rules name type = first rules name type :=
  decisive_eq_documented_iff.mpr kept

theorem decisive_of_overridden (overridden : IsOverridden rules name type) :
    decisive rules name type =
      some (if rules.array.contains name then .array else .foreignKey) := by
  obtain ⟨based, other⟩ := overridden
  simp only [first, documented, List.find?_append] at based
  cases leads : leading.find? (applies rules name type) with
  | some family =>
    rw [leads] at based
    obtain rfl : family = .referenceExtension := Option.some.inj based
    exact absurd (List.mem_of_find?_eq_some leads) (by decide)
  | none =>
    simp only [decisive, effective, valued, List.find?_append, leads, List.find?_cons,
      applies_array, applies_foreignKey]
    cases listed : rules.array.contains name <;>
      cases keyed : (rules.foreignKeyTarget? name).isSome <;> simp_all

end RuleFamily

open RuleFamily

/-- Once a rule names an element, the number of occurrences asks for nothing. The first family that
applies decides what becomes of the element, unless it is a reference to the base of an extension
that a rule for arrays, or else one for foreign keys, overrides. -/
theorem first_family_decides {context : Context} {levels : Nat} {pending : List String}
    {state final : State} {scope : Scope} {site : Site} {bagKey : String} {declaration : Element}
    {type : Option ComplexType} (wellFormed : state.WellFormed)
    (fits : scope.Fits context ⟨pending, state⟩)
    (typed : context.index.elementComplexType declaration = .ok type)
    (named : ∃ family : RuleFamily, family.isAsked scope.rules site.name type.isSome = true)
    (ran : (classifyElement context (onward context levels) scope site bagKey declaration).run
      state = .ok ((), final)) :
    inferTarget? context scope site declaration type.isSome = pure none ∧
      (¬IsOverridden scope.rules site.name type →
        Becomes context (onward context levels) scope site bagKey declaration type state final
          (first scope.rules site.name type)) ∧
      (IsOverridden scope.rules site.name type →
        Becomes context (onward context levels) scope site bagKey declaration type state final
          (some (if scope.rules.array.contains site.name then .array else .foreignKey))) := by
  have explicit := hasExplicitRule_iff.mpr named
  obtain ⟨_, _, becomes⟩ := classifyElement_becomes (onward_runs context levels) fits typed
    explicit bagKey wellFormed () final ran
  refine ⟨by rw [inferTarget?, if_pos explicit], fun kept => ?_, fun overridden => ?_⟩
  · rwa [decisive_of_not_overridden kept] at becomes
  · rwa [decisive_of_overridden overridden] at becomes

end Compile

open Compile

/-! ## A customer who is a party -/

/-- A reference to a party, with the role of the party. -/
def customerRef : ComplexType :=
  let role : Schema.Attribute :=
    ⟨some "role", none, some "xs:string", none, .optional, none, none, none⟩
  ⟨some "CustomerRef", false, none, [], none, some ⟨"Party", [.single role], none⟩, none, none⟩

/-- Owners with a customer. -/
def customers : Schema.Index :=
  { (default : Schema.Index) with
    complexTypes := [("CustomerRef", customerRef),
      ("Other", wrapping "Other" .sequence (typedElement "code" "xs:string" .one)),
      ("Owner", wrapping "Owner" .sequence (typedElement "customer" "CustomerRef" .one)),
      ("Party", wrapping "Party" .sequence (typedElement "name" "xs:string" .one))] }

/-- Owners with these options. -/
def ownersWith (options : EntityOptions) : Settings :=
  { settingsOf ["Owner"] with entities := [⟨"Owner", options, []⟩] }

/-- The customer is said to be owned, to refer to its base, and to refer to something else. -/
def ownedCustomer : Settings :=
  ownersWith { EntityOptions.none with
    oneToOneFields := ["customer"]
    referenceExtensionFields := ["customer"]
    foreignKeyOverrides := [⟨"customer", "Other"⟩] }

/-- A compilation in which an owner has been opened. -/
def customersContext : Context :=
  ⟨customers, ownedCustomer, (RuleBook.ofSettings ownedCustomer).toOption.getD default, ["Owner"]⟩

def ownerOpened : State :=
  { State.start default with entities := [("Owner", .ofTypePath "Owner" "Owner")] }

def ownerScope : Scope :=
  .outermost "Owner" "Owner" ((customersContext.book.forType "Owner" "Owner").toOption.getD .plain)

theorem ownerOpened_wellFormed : ownerOpened.WellFormed := by
  have only {path : String} {entity : Entity}
      (found : ownerOpened.entities.get? path = some entity) :
      path = "Owner" ∧ entity = .ofTypePath "Owner" "Owner" := by
    have member := Table.mem_of_get? found
    simpa [ownerOpened] using member
  have name : (nameOf [] "Owner").entity = "Owner" := by rfl
  refine ⟨by decide, nofun, fun path entity found => ?_, fun path entity found => ?_⟩
  · obtain ⟨rfl, rfl⟩ := only found
    exact name.symm
  · obtain ⟨rfl, rfl⟩ := only found
    rfl

theorem ownerScope_fits : ownerScope.Fits customersContext ⟨["Owner"], ownerOpened⟩ := by
  have read : (customersContext.book.forType "Owner" "Owner").toOption.isSome = true := by
    decide
  refine ⟨List.mem_singleton_self _, ⟨_, rfl, rfl⟩, ?_⟩
  obtain ⟨rules, given⟩ := Result.isSome_toOption.mp read
  simp [ownerScope, Scope.outermost, given, Except.toOption]

def customerSite : Site := ⟨"customer", "customer", none, false, none⟩

def customer : Element := typedElement "customer" "CustomerRef" .one

/-- The walk of the customer of an owner. -/
def classifyCustomer : Walk Unit :=
  classifyElement customersContext (onward customersContext 3) ownerScope customerSite "customer"
    customer

/-- The rules ask for an owned customer first, and the customer is classified. -/
theorem customer_evaluated :
    Schema.isBuiltin "CustomerRef" = false ∧
      RuleFamily.oneToOne.isAsked ownerScope.rules "customer" true = true ∧
      RuleFamily.first ownerScope.rules "customer" (some customerRef) = some .oneToOne ∧
      (classifyCustomer.run ownerOpened).toOption.isSome = true := by
  decide +kernel

theorem elementComplexType_customer :
    customersContext.index.elementComplexType customer = .ok (some customerRef) :=
  elementComplexType_typedElement customer_evaluated.1 rfl

/-- An owned customer is owned, whatever else is said about it. -/
theorem first_family_decides_of_customers :
    (∃ family : RuleFamily, family.isAsked ownerScope.rules "customer" true = true) ∧
      RuleFamily.first ownerScope.rules "customer" (some customerRef) = some .oneToOne ∧
      ∃ final, classifyCustomer.run ownerOpened = .ok ((), final) ∧
        RuleFamily.oneToOne.Decides customersContext (onward customersContext 3) ownerScope
          customerSite "customer" customer (some customerRef) ownerOpened final := by
  obtain ⟨_, asked, first, evaluated⟩ := customer_evaluated
  have named : ∃ family : RuleFamily, family.isAsked ownerScope.rules "customer" true = true :=
    ⟨.oneToOne, asked⟩
  have kept : ¬RuleFamily.IsOverridden ownerScope.rules "customer" (some customerRef) := by
    rintro ⟨based, _⟩
    rw [first] at based
    cases based
  obtain ⟨⟨⟨⟩, final⟩, ran⟩ := Result.isSome_toOption.mp evaluated
  have decided := @first_family_decides customersContext 3 ["Owner"] ownerOpened final ownerScope
    customerSite "customer" customer (some customerRef) ownerOpened_wellFormed ownerScope_fits
    elementComplexType_customer named
  obtain ⟨_, becomes, _⟩ := decided ran
  rw [customerSite, first] at becomes
  exact ⟨named, first, final, ran, becomes kept⟩

/-- The targets of the fields of an owner. -/
def Graph.ownerTargets (graph : Graph) : List (String × String × Option String) :=
  (graph.entity? "Owner").elim [] (·.materializedFields.map fun field =>
    (field.name, field.kind.category, field.kind.target?))

/-- A rule for a foreign key takes the place of the reference to the base, and leaves what the
extension adds. -/
theorem base_overridden_by_foreignKey :
    let based : EntityOptions :=
      { EntityOptions.none with referenceExtensionFields := ["customer"] }
    let keyed : EntityOptions := { based with foreignKeyOverrides := [⟨"customer", "Other"⟩] }
    (compile customers (ownersWith based)).toOption.map (·.ownerTargets) =
        some [("customer", "to_one", some "Party"), ("customer_role", "scalar", none)] ∧
      (compile customers (ownersWith keyed)).toOption.map (·.ownerTargets) =
        some [("customer", "to_one", some "Other"), ("customer_role", "scalar", none)] := by
  decide +kernel

/-! ## Flattening that adds nothing -/

namespace Compile

/-- The walk of the members of a flattened element. -/
def walkFlattened (context : Context) (levels : Nat) (scope : Scope) (site : Site)
    (type : ComplexType) : Walk Unit :=
  (onward context levels).members
    (scope.flattened site.dottedPath (site.doc.getD site.name) site.nullable) type

/-- A type leads to a path below a flattened element, by members of its own or of a base. -/
def YieldsBelow (context : Context) (scope : Scope) (site : Site) (type : ComplexType)
    (path : String) : Prop :=
  ∃ own ∈ context.index.lineage type, Yields context.index scope.rules (site.dottedPath ++ ".")
    own.attributeItems own.contents path

/-- Flattening fails as the walk of the members does, or as empty. It is empty exactly if that walk
leaves all fields of the entity, but for their documentation, and all entries of its bag as they
were. Then everything that the type leads to has been recorded before. -/
theorem flatten_fails_iff {context : Context} {levels : Nat} {pending : List String}
    {state : State} {scope : Scope} (wellFormed : state.WellFormed)
    (fits : scope.Fits context ⟨pending, state⟩) (site : Site) (type : ComplexType)
    (failure : Error) :
    (flatten (onward context levels) scope site type).run state = .error failure ↔
      (walkFlattened context levels scope site type).run state = .error failure ∨
        failure = .emptyFlatten (scope.memberPath site.dottedPath) type.label ∧
          ∃ final, (walkFlattened context levels scope site type).run state = .ok ((), final) ∧
            SameContents scope.typePath state final ∧
              ∀ path, YieldsBelow context scope site type path →
                state.Records scope.typePath path := by
  rw [flatten_eq_error_iff]
  refine or_congr_right (and_congr_right fun _ => exists_congr fun final =>
    and_congr_right fun ran => ?_)
  have place : Scope.Fits context ⟨pending, state⟩
    (scope.flattened site.dottedPath (site.doc.getD site.name) site.nullable) := fits.moved
  obtain ⟨steps, undisturbed, _⟩ :=
    (onward_runs context levels).members _ _ _ type place wellFormed _ _ ran
  have built : state.isBuilt scope.typePath = true :=
    State.isBuilt_iff.mpr (fits.named.imp fun _ => And.left)
  rw [← sameContents_iff_size_eq steps.keepsFields
    (undisturbed.bags scope.typePath List.not_mem_nil built)]
  refine ⟨fun same => ⟨same, fun path yields => ?_⟩, And.left⟩
  obtain ⟨own, above, yields⟩ := yields
  obtain ⟨_, _, recorded⟩ := (onward_records context levels).members place (.of_ancestors rfl)
    above yields wellFormed _ _ ran
  exact same.records_iff.mp recorded

/-- The members of a type itself are among those that it leads to. -/
theorem mem_lineage_self (index : Schema.Index) (type : ComplexType) :
    type ∈ index.lineage type := by
  rw [Schema.Index.lineage, List.mem_reverse, Schema.Index.basesWithin]
  split
  · split <;> simp
  · simp

end Compile

/-! ## A party that comes twice -/

def partySite : Site := ⟨"party", "party", none, false, none⟩

def party : ComplexType := wrapping "Party" .sequence (typedElement "name" "xs:string" .one)

/-- Flattening the party of an owner. -/
def flattenParty : Walk Unit :=
  flatten (onward customersContext 2) ownerScope partySite party

/-- A party leads to its name. -/
theorem yieldsBelow_party :
    YieldsBelow customersContext ownerScope partySite party "party.name" := by
  let name : Schema.Element := typedElement "name" "xs:string" .one
  have evaluated : Schema.isBuiltin "xs:string" = true ∧
      ownerScope.rules.pathAt "party." (.element name) = "party.name" ∧
      ownerScope.rules.dropAfterProcessing.contains
        (ownerScope.rules.settledAt "party." (.element name)) = false ∧
      RuleFamily.decisive ownerScope.rules (ownerScope.rules.settledAt "party." (.element name))
        none ≠ some .flatten := by
    decide +kernel
  obtain ⟨builtin, path, wanted, whole⟩ := evaluated
  have typed : customersContext.index.elementComplexType name = .ok none := by
    have effective : Schema.Index.effectiveTypeName name = some "xs:string" := rfl
    simp [Schema.Index.elementComplexType, effective, builtin]
  have yields : MemberYields customersContext.index ownerScope.rules "party." (.element name)
      "party.name" := path ▸ .element typed wanted whole
  have within : (Schema.Particle.element name).Within
      (.compositor .sequence .once [.element name]) := .inside (List.mem_singleton_self _) .itself
  exact ⟨party, mem_lineage_self _ _, .element (List.mem_singleton_self _) within yields⟩

/-- The second time, the name of the party is there already. -/
theorem flatten_fails_iff_of_party :
    ∃ middle, flattenParty.run ownerOpened = .ok ((), middle) ∧
      flattenParty.run middle = .error (.emptyFlatten "Owner.party" "Party") ∧
        YieldsBelow customersContext ownerScope partySite party "party.name" ∧
          middle.Records "Owner" "party.name" := by
  have evaluated :
      ((flattenParty.run ownerOpened).toOption.bind fun reached =>
        ((walkFlattened customersContext 2 ownerScope partySite party).run reached.2).failure?)
          = none ∧
      ((flattenParty.run ownerOpened).toOption.bind fun reached =>
        (flattenParty.run reached.2).failure?) =
          some (.emptyFlatten "Owner.party" "Party") := by
    decide +kernel
  obtain ⟨walks, fails⟩ := evaluated
  obtain ⟨_, first, _⟩ := Option.bind_eq_some_iff.mp fails
  obtain ⟨⟨⟨⟩, middle⟩, ran⟩ := Result.isSome_toOption.mp (Option.isSome_of_eq_some first)
  rw [ran] at walks fails
  have second : flattenParty.run middle = .error (.emptyFlatten "Owner.party" "Party") :=
    Result.eq_error_of_failure? fails
  -- What the first walk leaves is a state of the same build.
  obtain ⟨steps, _⟩ := flatten_runs (onward_runs customersContext 2) ownerScope_fits partySite party
    ownerOpened_wellFormed _ _ ran
  have given := (@flatten_fails_iff customersContext 2 ["Owner"] middle ownerScope
    (steps.wellFormed ownerOpened_wellFormed) (steps.fits ownerScope_fits) partySite party
    (.emptyFlatten "Owner.party" "Party")).mp second
  rcases given with walkFails | ⟨_, _, _, _, recorded⟩
  · have walks : ((walkFlattened customersContext 2 ownerScope partySite party).run
      middle).failure? = none := walks
    rw [walkFails] at walks
    cases walks
  · exact ⟨middle, ran, second, yieldsBelow_party, recorded _ yieldsBelow_party⟩

/-- Owners with a choice: an address and something else, or these elements. -/
def addressOr (elements : List Schema.Element) : Schema.Index :=
  let branch (elements : List Schema.Element) : Schema.Particle :=
    .compositor .sequence .once (elements.map .element)
  let owner : ComplexType :=
    ⟨some "Owner", false, none, [], some (.compositor .choice .once
      [branch [typedElement "addr" "Addr" .one, typedElement "a" "xs:string" .one],
        branch elements]), none, none, none⟩
  { (default : Schema.Index) with
    complexTypes := [("Addr", wrapping "Addr" .sequence (typedElement "city" "xs:string" .one)),
      ("Owner", owner)] }

/-- Addresses are flattened. -/
def flatAddresses : Settings :=
  ownersWith { EntityOptions.none with flattenFields := ["addr"] }

/-- The address gives the owner a city. In the other branch it would give it the same city, and
flattening fails as if an address led to nothing. -/
theorem address_lost_in_second_branch :
    (compile (addressOr [typedElement "b" "xs:string" .one]) flatAddresses).toOption.map
        (·.ownerTargets) =
      some [("addr_city", "scalar", none), ("a", "scalar", none), ("b", "scalar", none)] ∧
    compile (addressOr [typedElement "addr" "Addr" .one, typedElement "b" "xs:string" .one])
      flatAddresses = .error (.emptyFlatten "Owner.addr" "Addr") :=
  ⟨by decide +kernel, Result.eq_error_of_failure? (by decide +kernel)⟩

end EntityGraph
