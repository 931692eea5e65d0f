import EntityGraph.Compile.Classify
import EntityGraph.Proofs.Build.Runs

/-!
# Repeated elements

The field of an element leads to many values if the element may occur more or less than once. A few
rules take that away, some of them because the element does not become a field at all: `KeepsCount`
says that none of them applies. What surrounds the element makes no difference, neither a compositor
nor the flattened elements it stands in.
-/
namespace EntityGraph

open Schema (Element)

/-- The element is part of a content model, inside of compositors that may occur in any number. -/
inductive Schema.Particle.Holds (declaration : Element) : Schema.Particle → Prop
  | element : Holds declaration (.element declaration)
  | inside {kind : Schema.Compositor} {occurs : Schema.Occurs} {parts : List Schema.Particle}
      {part : Schema.Particle} (member : part ∈ parts) (holds : Holds declaration part) :
      Holds declaration (.compositor kind occurs parts)

namespace Compile

/-! ## Names -/

namespace Scope

/-- The name of an element after the rules have renamed it. -/
def localName (scope : Scope) (declaration : Element) : String :=
  (scope.rules.rename.renamed? declaration.localName).getD declaration.localName

/-- The name of the field before it is made equal to that of other fields. -/
def plainName (scope : Scope) (declaration : Element) : String :=
  scope.fieldName (scope.localName declaration)

/-- The name of the field. -/
def settledName (scope : Scope) (declaration : Element) : String :=
  (scope.rules.coalesce.renamed? (scope.plainName declaration)).getD (scope.plainName declaration)

/-- The path of the field. -/
def elementPath (scope : Scope) (declaration : Element) : String :=
  scope.ancestors ++ scope.localName declaration

end Scope

/-- No rule for the name keeps an element in the bag, flattens it, has it occur once, leaves its
field out, or replaces the kind of the relation it becomes. -/
structure KeepsNamed (context : Context) (rules : FieldRules) (name : String)
    (declaration : Element) : Prop where
  wanted : rules.dropAfterProcessing.contains name = false
  notOnce : rules.oneToOne.contains name = false
  unbagged : relation? context rules name none = none → rules.json.contains name = false
  whole : relation? context rules name none = none →
    ∀ type, context.index.elementComplexType declaration = .ok (some type) →
      type.simpleContent = none → asksForFlattening rules name true = false
  ownKind : rules.kind? name = none ∨
    relation? context rules name none = none ∧ rules.array.contains name = true

/-- No rule takes the number of occurrences away from the field of an element. -/
structure KeepsCount (context : Context) (scope : Scope) (declaration : Element) : Prop where
  kept : scope.rules.drop.contains (scope.plainName declaration) = false
  noParent : scope.rules.options.parentField ≠ some (scope.plainName declaration)
  named : KeepsNamed context scope.rules (scope.settledName declaration) declaration

/-- The rest of a place does not matter. -/
theorem KeepsCount.moved {context : Context} {scope : Scope} {declaration : Element}
    (keeps : KeepsCount context scope declaration) (nullable : Bool) (choiceGroup : Option Nat) :
    KeepsCount context { scope with nullable, choiceGroup } declaration :=
  ⟨keeps.kept, keeps.noParent, keeps.named⟩

/-- The rules keep the field and its kind. -/
def Spares (rules : FieldRules) (field : Field) : Prop :=
  rules.dropAfterProcessing.contains field.name = false ∧
    (rules.kind? field.name = none ∨ field.kind.repr?.isSome = true)

/-- The rules keep every field of the name, and its kind. -/
def SparesName (rules : FieldRules) (name : String) : Prop :=
  rules.dropAfterProcessing.contains name = false ∧ rules.kind? name = none

/-! ## Without rules -/

/-- The rules of a type path for which the settings say nothing. -/
def FieldRules.plain : FieldRules where
  drop := ⟨[]⟩
  dropAfterProcessing := ⟨[]⟩
  flatten := ⟨[]⟩
  array := ⟨[]⟩
  manyToMany := ⟨[]⟩
  oneToMany := ⟨[]⟩
  oneToOne := ⟨[]⟩
  json := ⟨[]⟩
  referenceExtension := ⟨[]⟩
  null := ⟨[]⟩
  unique := ⟨[]⟩
  index := ⟨[]⟩
  ignoreMergeMismatch := ⟨[]⟩
  rename := ⟨[]⟩
  coalesce := ⟨[]⟩
  options := .none

theorem FieldRules.ofOptions_none : FieldRules.ofOptions .none = .ok .plain := rfl

theorem renamed?_nil (name : String) : (⟨[]⟩ : SubstitutionList).renamed? name = none := by
  simp [SubstitutionList.renamed?, SubstitutionList.settle, SubstitutionList.step?]

/-- Without rules, an element keeps its name. -/
theorem names_of_plain {scope : Scope} (plain : scope.rules = .plain) (declaration : Element) :
    scope.settledName declaration = scope.fieldName declaration.localName ∧
      scope.elementPath declaration = scope.ancestors ++ declaration.localName := by
  have renamed (name : String) : scope.rules.rename.renamed? name = none := by
    rw [plain]
    exact renamed?_nil name
  have coalesced (name : String) : scope.rules.coalesce.renamed? name = none := by
    rw [plain]
    exact renamed?_nil name
  simp [Scope.settledName, Scope.plainName, Scope.elementPath, Scope.localName, renamed, coalesced]

/-- Without rules, an element keeps its number of occurrences. -/
theorem keepsCount_of_plain (context : Context) {scope : Scope} (plain : scope.rules = .plain)
    (declaration : Element) : KeepsCount context scope declaration := by
  refine ⟨?_, ?_, ?_, ?_, fun _ => ?_, fun _ _ _ _ => ?_, .inl ?_⟩
  all_goals rw [plain]
  all_goals first | rfl | nofun

/-! ## Relations -/

section Relations

variable {context : Context} {rules : FieldRules} {name : String} {inferred : Option Target}

/-- What the number of occurrences asks for is always done. -/
theorem inferred_eq_none_of_relation? (plain : relation? context rules name inferred = none) :
    inferred = none := by
  cases inferred with
  | none => rfl
  | some target =>
    -- The target is a root or it is not, and there is a relation for either.
    by_cases isRoot : target.path ∈ context.roots
    · simp [relation?, isRoot, apply_ite (· = none)] at plain
    · simp [relation?, isRoot, apply_ite (· = none)] at plain

theorem contains_of_relation?_oneToOne
    (relation : relation? context rules name inferred = some .oneToOne) :
    rules.oneToOne.contains name = true := by
  simp only [relation?] at relation
  split at relation
  next once => exact once
  next =>
    split at relation
    · cases relation
    · split at relation
      · cases relation
      · cases relation

/-- A rule for arrays leaves nothing to the number of occurrences. -/
theorem array_eq_false {isComplex : Bool}
    (implicit : hasExplicitRule rules name isComplex = false) :
    rules.array.contains name = false := by
  simp only [hasExplicitRule, Bool.or_eq_false_iff] at implicit
  exact implicit.1.1.2

variable {declaration : Element} {relation : Relation} {isComplex : Bool}

theorem KeepsNamed.relation_ne (keeps : KeepsNamed context rules name declaration)
    (asked : relation? context rules name inferred = some relation) : relation ≠ .oneToOne := by
  rintro rfl
  have once := contains_of_relation?_oneToOne asked
  rw [keeps.notOnce] at once
  cases once

/-- A relation keeps its kind. A rule that gives another kind is there for arrays only, and rules
out that the number of occurrences asks for a relation. -/
theorem KeepsNamed.sparesName (keeps : KeepsNamed context rules name declaration)
    (asked : relation? context rules name inferred = some relation)
    (implicit : inferred.isSome = true → hasExplicitRule rules name isComplex = false) :
    SparesName rules name := by
  refine ⟨keeps.wanted, ?_⟩
  rcases keeps.ownKind with none | ⟨plain, array⟩
  · exact none
  · exfalso
    cases inferred with
    | none =>
      rw [plain] at asked
      cases asked
    | some target =>
      rw [array_eq_false (implicit rfl)] at array
      cases array

end Relations

/-! ## Fields that lead to many values -/

/-- The entity of the type path has a field of the name and path that leads to many values, or the
mark that is left where the name was taken by another field. -/
def State.HoldsMany (state : State) (path name dottedPath : String) : Prop :=
  ∃ entity, state.entities.get? path = some entity ∧
    ∃ field ∈ entity.fields, field.dottedPath = dottedPath ∧
      (field.kind = .coalescedAlias name ∨ field.name = name ∧ field.kind.isCollection = true)

theorem Steps.holdsMany {context : Context} {before after : Progress}
    (steps : Steps context before after) {path name dottedPath : String}
    (holds : before.state.HoldsMany path name dottedPath) :
    after.state.HoldsMany path name dottedPath := by
  obtain ⟨entity, found, field, member, fieldPath, which⟩ := holds
  obtain ⟨later, foundLater, extends_⟩ := steps.keeps found
  obtain ⟨kept, keptMember, bare⟩ := extends_.fields field member
  obtain ⟨keptName, keptPath, keptKind, _⟩ := Field.bare_eq_iff.mp bare
  refine ⟨later, foundLater, kept, keptMember, keptPath.trans fieldPath, ?_⟩
  rw [keptName, keptKind]
  exact which

/-- The repeated elements of a content model have been put into the entity of the place. -/
def State.HoldsRepeated (context : Context) (state : State) (scope : Scope)
    (content : Schema.Particle) : Prop :=
  ∀ declaration, content.Holds declaration → declaration.occurs.most ≠ .one →
    KeepsCount context scope declaration →
      state.HoldsMany scope.typePath (scope.settledName declaration)
        (scope.elementPath declaration)

theorem Steps.holdsRepeated {context : Context} {before after : Progress}
    (steps : Steps context before after) {scope : Scope} {content : Schema.Particle}
    (holds : before.state.HoldsRepeated context scope content) :
    after.state.HoldsRepeated context scope content :=
  fun declaration part repeated keeps => steps.holdsMany (holds declaration part repeated keeps)

/-- A compositor has the repeated elements of its parts, however often it occurs. -/
theorem State.holdsRepeated_of_parts {context : Context} {state : State} {scope : Scope}
    {kind : Schema.Compositor} {occurs : Schema.Occurs} {parts : List Schema.Particle}
    {nullable : Bool} {choiceGroup : Option Nat}
    (holds : ∀ part ∈ parts,
      state.HoldsRepeated context { scope with nullable, choiceGroup } part) :
    state.HoldsRepeated context scope (.compositor kind occurs parts) := by
  intro declaration inside repeated keeps
  cases inside with
  | inside member part =>
    exact holds _ member declaration part repeated (keeps.moved nullable choiceGroup)

/-- Among the values, only lists of scalars are collections. -/
theorem State.IsValue.repr?_isSome {state : State} {kind : FieldKind} (value : state.IsValue kind)
    (many : kind.isCollection = true) : kind.repr?.isSome = true := by
  cases kind with
  | scalar | collection => rfl
  | reverseOneToMany | manyToMany => exact value.elim
  | _ => cases many

theorem finishField_isCollection {context : Context} {scope : Scope}
    {text primitive : Option String} {draft field : Field}
    (finished : finishField context scope text primitive draft = .ok field)
    (spared : Spares scope.rules draft) (many : draft.kind.isCollection = true) :
    field.kind.isCollection = true := by
  obtain ⟨_, same | ⟨noScalar, kind, given, _⟩, _⟩ := finishField_form finished
  · exact (FieldKind.isCollection_of_shape same).trans many
  · rcases spared.2 with none | scalar
    · simp [none] at given
    · simp [noScalar] at scalar

theorem Received.holdsMany {state final : State} {scope : Scope} {field : Field}
    (received : Received state final scope field)
    (wanted : scope.rules.dropAfterProcessing.contains field.name = false)
    (many : field.kind.isCollection = true) :
    final.HoldsMany scope.typePath field.name field.dottedPath := by
  rcases received with ⟨_, leftOut⟩ | ⟨entity, after, insertion, found⟩
  · rw [wanted] at leftOut
    cases leftOut
  · have shape :=
      FieldKind.shape_setRelatedName (reverseName? state scope.typePath field) field.kind
    have collection := (FieldKind.isCollection_of_shape shape).trans many
    rcases insertion.present with ⟨known, member, name, path, kind⟩ | ⟨former, _, marked⟩
    · refine ⟨after, found, known, member, path, .inr ⟨name, ?_⟩⟩
      rcases kind with compared | same
      · exact (FieldKind.isCollection_of_beq compared).trans collection
      · exact same ▸ collection
    · exact ⟨after, found, _, marked, rfl, .inl rfl⟩

end Compile

end EntityGraph
