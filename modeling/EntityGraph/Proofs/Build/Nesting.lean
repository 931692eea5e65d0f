import EntityGraph.Proofs.Build.Lawful
import EntityGraph.Proofs.Build.Repeats
import EntityGraph.Proofs.Options
import EntityGraph.Proofs.Rank
import EntityGraph.Proofs.Schema.Depth

/-!
# Anonymous types inside of each other

The entity of an anonymous type has a type path that no schema names, so nothing but the types
themselves bounds how deep such entities are inside each other. `Encloses` says in which ways the
entity of a type leads to that of an anonymous one. Where no type leads back to itself in these
ways, every type has a rank, and a step from a type to one that it encloses goes down.
-/
open Relation (TransGen)

namespace EntityGraph

/-- The options ask for nothing to be flattened. -/
def EntityOptions.FlattensNothing (options : EntityOptions) : Prop :=
  options.flattenFields = [] ∧ options.flattenPrefixes = []

instance : DecidablePred EntityOptions.FlattensNothing := fun _ =>
  inferInstanceAs (Decidable (_ ∧ _))

namespace Compile

open Schema (ComplexType Element Extension Index Particle)

/-! ## Places -/

/-- Whether the rules make a relation of the elements of a name. -/
def FieldRules.asksForRelation (rules : FieldRules) (name : String) : Bool :=
  rules.oneToOne.contains name || rules.oneToMany.contains name
    || (rules.oneToManyTarget? name).isSome || rules.manyToMany.contains name
    || (rules.manyToManyTarget? name).isSome

namespace Scope

/-- The rules of a place are those that the settings give for its type path. -/
def IsGiven (settings : Settings) (scope : Scope) : Prop :=
  ∃ book, RuleBook.ofSettings settings = .ok book ∧
    book.forType scope.entity scope.typePath = .ok scope.rules

/-- The rules of a place make a field of an element: it is neither left out nor kept in the bag. -/
structure Takes (settings : Settings) (scope : Scope) (declaration : Element) : Prop where
  given : scope.IsGiven settings
  kept : scope.rules.drop.contains (scope.plainName declaration) = false
  noParent : scope.rules.options.parentField ≠ some (scope.plainName declaration)
  unbagged : scope.rules.json.contains (scope.settledName declaration) = true →
    scope.rules.asksForRelation (scope.settledName declaration) = true

end Scope

/-! ## The ways from a type to another -/

/-- The type path of a parent: one that the rules name, the base of the type, or what the element
names by which the rules select it. -/
inductive ParentPath (rules : FieldRules) (outer : Option ComplexType) : String → Prop
  | configured {path : String} (given : rules.options.parentType = some path) :
      ParentPath rules outer path
  | base {type : ComplexType} {extension : Extension} (own : outer = some type)
      (extends_ : type.extension = some extension) : ParentPath rules outer extension.base
  | selected {type : ComplexType} {field path : String} {content : Particle}
      {declaration : Element} (own : outer = some type)
      (selects : rules.options.parentField = some field) (has : content ∈ type.contents)
      (inside : content.element? field = some declaration)
      (names : Index.effectiveTypeName declaration = some path) : ParentPath rules outer path

/-- The types whose members are walked for the entity of a type: the type itself, and the parent
with its bases where the rules include the fields of the parent. -/
inductive Contributes (index : Index) (settings : Settings) (outer : Option ComplexType) :
    ComplexType → Prop
  | own {type : ComplexType} (same : outer = some type) (known : type ∈ index.types) :
      Contributes index settings outer type
  | inherited {scope : Scope} {path : String} {parent base : ComplexType}
      (place : scope.IsGiven settings) (includes : scope.rules.includesParentFields = true)
      (leads : ParentPath scope.rules outer path) (found : index.complexType? path = some parent)
      (above : base ∈ index.lineage parent) : Contributes index settings outer base

/-- The elements that are met on such a walk. A reference to the base of an extension is followed
by what the extension adds. -/
inductive Met (index : Index) (settings : Settings) (outer : Option ComplexType) : Element → Prop
  | member {type : ComplexType} {content : Particle} {declaration : Element}
      (gives : Contributes index settings outer type) (has : content ∈ type.contents)
      (inside : declaration ∈ content.elements) : Met index settings outer declaration
  | added {scope : Scope} {reference declaration : Element} {type : ComplexType}
      {extension : Extension} {content : Particle} (met : Met index settings outer reference)
      (takes : scope.Takes settings reference)
      (refers : scope.rules.referenceExtension.contains (scope.settledName reference) = true)
      (typed : index.elementComplexType reference = .ok (some type))
      (extends_ : type.extension = some extension) (adds : extension.content = some content)
      (inside : declaration ∈ content.elements) : Met index settings outer declaration

/-- The element whose type counts in the place of another one: the element itself, the one that
repeats inside of it where a relation to many is inferred or asked for, or the first one inside of
it where a list is asked for. -/
inductive CountsFor (index : Index) (scope : Scope) (declaration : Element) : Element → Prop
  | itself : CountsFor index scope declaration declaration
  | repeated {type : ComplexType} {inner : Element}
      (implicit : hasExplicitRule scope.rules (scope.settledName declaration) true = false)
      (repeats : isRepeated index declaration = .ok true)
      (typed : index.elementComplexType declaration = .ok (some type))
      (child : type.unboundedChild? = some inner) : CountsFor index scope declaration inner
  | asked {type : ComplexType} {inner : Element}
      (many : scope.rules.oneToMany.contains (scope.settledName declaration) = true ∨
        scope.rules.manyToMany.contains (scope.settledName declaration) = true)
      (typed : index.elementComplexType declaration = .ok (some type))
      (child : type.unboundedChild? = some inner) : CountsFor index scope declaration inner
  | listed {type : ComplexType} {inner : Element}
      (list : scope.rules.array.contains (scope.settledName declaration) = true)
      (typed : index.elementComplexType declaration = .ok (some type))
      (first : type.firstElement? = some inner) : CountsFor index scope declaration inner

/-- The entity of a type leads to that of an anonymous type: one inside of an element that stands
for an element that becomes a field. -/
inductive Encloses (index : Index) (settings : Settings) (outer : Option ComplexType)
    (inner : ComplexType) : Prop
  | intro {scope : Scope} {declaration standing : Element}
      (met : Met index settings outer declaration) (takes : scope.Takes settings declaration)
      (counts : CountsFor index scope declaration standing)
      (anonymous : Index.effectiveTypeName standing = none)
      (own : standing.complexType = some inner) : Encloses index settings outer inner

/-- The conditions under which entities are not inside each other without end. -/
structure Grounded (index : Index) (settings : Settings) : Prop where
  /-- No anonymous type leads back to itself. -/
  nesting : ∀ type ∈ index.types,
    ¬TransGen (fun outer inner => Encloses index settings (some outer) inner) type type
  /-- The names under which extensions are walked in place are those of fields, so that the limit on
  names holds for them, and no other names are made equal to them. -/
  extensions : ∀ scope : Scope, scope.IsGiven settings → ∀ name,
    scope.rules.referenceExtension.contains name = true →
      scope.rules.dropAfterProcessing.contains name = false ∧
        ∀ former, scope.rules.coalesce.renamed? former ≠ some name

/-! ## Everything is in the index -/

section Membership

variable {index : Index} {settings : Settings} {outer : Option ComplexType}

theorem Contributes.mem_types {type : ComplexType} (gives : Contributes index settings outer type) :
    type ∈ index.types := by
  cases gives with
  | own _ known => exact known
  | inherited _ _ _ found above =>
    exact Index.mem_types_of_lineage (Index.mem_types_of_complexType? found) above

theorem Met.hasElement {declaration : Element} (met : Met index settings outer declaration) :
    index.HasElement declaration := by
  induction met with
  | member gives has inside => exact ⟨_, gives.mem_types, _, has, inside⟩
  | added _ _ _ typed extends_ adds inside ih =>
    exact ⟨_, ih.mem_types typed, _,
      ComplexType.mem_contents_of_extension extends_ adds, inside⟩

theorem CountsFor.hasElement {scope : Scope} {declaration standing : Element}
    (counts : CountsFor index scope declaration standing) (has : index.HasElement declaration) :
    index.HasElement standing := by
  cases counts with
  | itself => exact has
  | repeated _ _ typed child | asked _ typed child =>
    obtain ⟨content, member, inside⟩ := ComplexType.mem_elements_of_unboundedChild? child
    exact ⟨_, has.mem_types typed, content, member, inside⟩
  | listed _ typed first =>
    obtain ⟨content, member, inside⟩ := ComplexType.mem_elements_of_firstElement? first
    exact ⟨_, has.mem_types typed, content, member, inside⟩

theorem Encloses.mem_types {inner : ComplexType} (encloses : Encloses index settings outer inner) :
    inner ∈ index.types := by
  obtain ⟨met, _, counts, _, own⟩ := encloses
  exact (counts.hasElement met.hasElement).mem_types_of_inline own

/-- The type of an element has a name, or stands inside of the element. -/
theorem anonymous_of_nameless (names : index.NamesTypes) {declaration : Element}
    {type : ComplexType} (typed : index.elementComplexType declaration = .ok (some type))
    (nameless : type.name = none) :
    Index.effectiveTypeName declaration = none ∧ declaration.complexType = some type := by
  rcases Index.elementComplexType_eq_some typed with ⟨_, _, found⟩ | own
  · obtain ⟨key, _, _, named⟩ := names.exists_key found
    rw [nameless] at named
    cases named
  · exact own

/-! ## Ranks -/

/-- The number of types that a type leads to. What has no type at all comes before every type. -/
theorem Grounded.exists_rank (grounded : Grounded index settings) :
    ∃ rank : Option ComplexType → Nat,
      (∀ outer inner, Encloses index settings outer inner → rank (some inner) < rank outer) ∧
        (∀ outer, rank outer ≤ index.types.length) ∧
          ∀ type ∈ index.types, rank (some type) < index.types.length := by
  obtain ⟨rank, down, bound, least⟩ := EntityGraph.exists_rank
    (fun _ _ encloses => Encloses.mem_types encloses) grounded.nesting
  refine ⟨fun outer => (outer.map rank).getD index.types.length, fun outer inner encloses => ?_,
    fun outer => ?_, least⟩
  · cases outer with
    | none => exact least inner encloses.mem_types
    | some type => exact down type inner encloses
  · cases outer with
    | none => exact Nat.le_refl _
    | some type => exact bound type

/-! ## Named paths -/

theorem mem_namedPaths_of_typeName {path : String}
    (used : path ∈ index.types.flatMap (·.typeNames)) : path ∈ namedPaths index settings :=
  List.mem_append_left _ (List.mem_append_left _ used)

theorem mem_namedPaths_of_literal {rule : NamingRule} (member : rule ∈ settings.typeMap)
    {path : String} (literal : literalText? rule.pattern = some path) :
    path ∈ namedPaths index settings :=
  List.mem_append_right _ (List.mem_filterMap.mpr ⟨rule, member, literal⟩)

/-- The options use no other targets than those that the settings name. -/
def TargetsNamed (index : Index) (settings : Settings) (options : EntityOptions) : Prop :=
  ∀ path ∈ options.targets, path ∈ namedPaths index settings

theorem targetsNamed_layers (index : Index) (settings : Settings) :
    Layers (TargetsNamed index settings) where
  none := fun _ member => by cases member
  layered upper lower path member :=
    (EntityOptions.mem_targets_layered member).elim (upper path) (lower path)

theorem everyOptions_targetsNamed (index : Index) (settings : Settings) :
    settings.EveryOptions (TargetsNamed index settings) := by
  have named {options : EntityOptions} (member : options ∈ settings.allOptions) :
      TargetsNamed index settings options := fun path target =>
    List.mem_append_left _ (List.mem_append_right _
      (List.mem_flatMap.mpr ⟨options, member, target⟩))
  have ofEntity {options : EntityOptions} {rules : EntityRules} (member : rules ∈ settings.entities)
      (own : options ∈ rules.options :: rules.overlays.map (·.options)) :
      TargetsNamed index settings options :=
    named (List.mem_cons_of_mem _ (List.mem_flatMap.mpr ⟨rules, member, own⟩))
  refine ⟨named List.mem_cons_self, fun rules member => ⟨?_, fun overlay has => ?_⟩⟩
  · exact ofEntity member List.mem_cons_self
  · exact ofEntity member (List.mem_cons_of_mem _ (List.mem_map_of_mem has))

theorem Scope.IsGiven.mem_namedPaths (index : Index) {scope : Scope}
    (place : scope.IsGiven settings) {path : String}
    (target : path ∈ scope.rules.options.targets) : path ∈ namedPaths index settings := by
  obtain ⟨book, read, given⟩ := place
  exact rules_of_layers (targetsNamed_layers index settings) read
    (everyOptions_targetsNamed index settings) given path target

end Membership

/-! ## Nothing is flattened -/

theorem flattensNothing_layers : Layers EntityOptions.FlattensNothing where
  none := ⟨rfl, rfl⟩
  layered := by
    rintro primary fallback ⟨upperFields, upperPrefixes⟩ ⟨lowerFields, lowerPrefixes⟩
    simp [EntityOptions.FlattensNothing, EntityOptions.layered, EntityOptions.union, upperFields,
      upperPrefixes, lowerFields, lowerPrefixes]

theorem FieldRules.flatten_of_ofOptions {options : EntityOptions} {rules : FieldRules}
    (read : FieldRules.ofOptions options = .ok rules) :
    PatternSet.ofTexts options.flattenFields = .ok rules.flatten := by
  -- The list of what is flattened is the third that is read.
  obtain ⟨_, _, read⟩ := Result.bind_eq_ok.mp read
  obtain ⟨_, _, read⟩ := Result.bind_eq_ok.mp read
  obtain ⟨_, flattens, read⟩ := Result.bind_eq_ok.mp read
  iterate 12 obtain ⟨_, _, read⟩ := Result.bind_eq_ok.mp read
  obtain rfl := Result.pure_eq_ok.mp read
  exact flattens

theorem Scope.IsGiven.asksForFlattening_eq_false {settings : Settings} {scope : Scope}
    (place : scope.IsGiven settings)
    (flattensNothing : settings.EveryOptions EntityOptions.FlattensNothing) (name : String)
    (isComplex : Bool) : asksForFlattening scope.rules name isComplex = false := by
  obtain ⟨book, read, given⟩ := place
  obtain ⟨fields, prefixes⟩ :=
    rules_of_layers flattensNothing_layers read flattensNothing given
  have flattens := FieldRules.flatten_of_ofOptions given
  rw [← ofOptions_options given, fields] at flattens
  have empty : (⟨[]⟩ : PatternSet) = scope.rules.flatten := Except.ok.inj flattens
  rw [asksForFlattening, ← empty, FieldRules.hasFlattenPrefix, prefixes]
  simp [PatternSet.contains]

end Compile

end EntityGraph
