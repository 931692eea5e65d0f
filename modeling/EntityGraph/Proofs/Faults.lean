import EntityGraph.Compile.Graph
import EntityGraph.Proofs.Lists
import EntityGraph.Proofs.Result

/-!
# Errors that are avoided

Four kinds of errors are ruled out one by one: a recursion without end, which is cut off, imports
without end, a text that is no pattern, and a parent that is not merged in time. Whatever does not
build entities is never cut off. Neither the look-ups in an index nor the derivation of scalars and
the finishing of fields have any of the four; texts that are no patterns are met only where patterns
are read, and parents are missed only by merging.
-/
namespace EntityGraph

/-- What an error may say. -/
inductive Fault where
  /-- A recursion was cut off. -/
  | cutOff
  /-- The following of imports was cut off. -/
  | imports
  /-- A text is no pattern. -/
  | pattern
  /-- The parent of an entity is not merged before it. -/
  | orphan
  deriving DecidableEq

/-- The kind of an error, unless it is another one. -/
def Error.fault? : Error → Option Fault
  | .endlessNesting _ => some .cutOff
  | .endlessImports _ => some .imports
  | .invalidPattern _ => some .pattern
  | .missingParent .. => some .orphan
  | _ => none

def Error.isOf (failure : Error) (fault : Fault) : Bool := failure.fault? == some fault

theorem Error.isOf_of_ne {failure : Error} {own fault : Fault} (kind : failure.fault? = some own)
    (other : fault ≠ own) : failure.isOf fault = false := by
  rw [isOf, kind]
  exact beq_false_of_ne fun same => other (Option.some.inj same).symm

namespace Result

variable {α β : Type} {fault : Fault}

/-- A computation gives a value, or an error of another kind. -/
def Avoids (fault : Fault) (result : Result α) : Prop :=
  ∀ failure, result = .error failure → failure.isOf fault = false

/-- A computation gives a value, or an error of its own. -/
abbrev Ends (result : Result α) : Prop := result.Avoids .cutOff

theorem avoids_ok (value : α) : Avoids fault (.ok value) := fun _ fails => by cases fails

theorem avoids_error {failure : Error} (own : failure.isOf fault = false) :
    Avoids fault (.error failure : Result α) := by
  rintro _ ⟨⟩
  exact own

theorem Avoids.bind_of_ok {first : Result α} {next : α → Result β} (avoids : first.Avoids fault)
    (later : ∀ value, first = .ok value → (next value).Avoids fault) :
    (first >>= next).Avoids fault := by
  intro failure fails
  rcases bind_eq_error.mp fails with fails | ⟨value, given, fails⟩
  · exact avoids failure fails
  · exact later value given failure fails

theorem Avoids.bind {first : Result α} {next : α → Result β} (avoids : first.Avoids fault)
    (later : ∀ value, (next value).Avoids fault) : (first >>= next).Avoids fault :=
  avoids.bind_of_ok fun value _ => later value

theorem Avoids.map {result : Result α} (avoids : result.Avoids fault) (change : α → β) :
    Avoids fault (Except.map change result) := by
  cases result with
  | ok value => exact avoids_ok _
  | error failure => exact avoids_error (avoids failure rfl)

theorem avoids_mapM {step : α → Result β} {items : List α}
    (each : ∀ item ∈ items, (step item).Avoids fault) : (items.mapM step).Avoids fault := by
  induction items with
  | nil => exact avoids_ok _
  | cons item rest ih =>
    rw [List.mapM_cons]
    exact (each item List.mem_cons_self).bind fun _ =>
      (ih fun other member => each other (List.mem_cons_of_mem _ member)).bind fun _ => avoids_ok _

theorem avoids_foldlM {step : β → α → Result β}
    (each : ∀ state item, (step state item).Avoids fault) (items : List α) (start : β) :
    (items.foldlM step start).Avoids fault := by
  induction items generalizing start with
  | nil => exact avoids_ok _
  | cons item rest ih =>
    rw [List.foldlM_cons]
    exact (each start item).bind ih

end Result

open Result
open Text (sortDistinct)

variable {fault : Fault}

/-! ## Patterns -/

theorem Pattern.whole_avoids (other : fault ≠ .pattern) (text : String) :
    (Pattern.whole text).Avoids fault := by
  unfold Pattern.whole
  split
  · exact avoids_ok _
  · exact avoids_error (Error.isOf_of_ne rfl other)

theorem PatternSet.ofTexts_avoids (other : fault ≠ .pattern) (texts : List String) :
    (PatternSet.ofTexts texts).Avoids fault :=
  (avoids_mapM fun text _ => Pattern.whole_avoids other text).bind fun _ => avoids_ok _

theorem SubstitutionList.ofSubstitutions_avoids (other : fault ≠ .pattern)
    (substitutions : List Substitution) :
    (SubstitutionList.ofSubstitutions substitutions).Avoids fault :=
  (avoids_mapM fun substitution _ =>
    (Pattern.whole_avoids other substitution.pattern).bind fun _ => avoids_ok _).bind fun _ =>
      avoids_ok _

namespace Schema.Index

/-! ## Look-ups -/

variable (index : Index)

theorem complexType_avoids (name : String) : (index.complexType name).Avoids fault := by
  unfold complexType
  split
  · exact avoids_ok _
  · exact avoids_error rfl

theorem element_avoids (name : String) : (index.element name).Avoids fault := by
  unfold element
  split
  · exact avoids_ok _
  · exact avoids_error rfl

theorem elementComplexType_avoids (declaration : Element) :
    (index.elementComplexType declaration).Avoids fault := by
  unfold elementComplexType
  split
  · split
    · exact avoids_ok _
    · split
      · exact avoids_ok _
      · split
        · exact avoids_ok _
        · exact avoids_error rfl
  · exact avoids_ok _

theorem resolveRoot_avoids (selector : String) : (index.resolveRoot selector).Avoids fault := by
  unfold resolveRoot
  split
  · refine (element_avoids index _).bind fun declaration => ?_
    refine (elementComplexType_avoids index declaration).bind fun type => ?_
    split
    · exact avoids_error rfl
    · exact avoids_ok _
  · exact (complexType_avoids index _).bind fun _ => avoids_ok _

end Schema.Index

namespace Scalar

/-! ## Scalars -/

theorem parseDefault_avoids (primitive raw path : String) :
    (parseDefault primitive raw path).Avoids fault := by
  unfold parseDefault
  split
  · exact avoids_ok _
  · exact avoids_error rfl

theorem boundIfAny_avoids (kind : ScalarKind) (raw : Option String) (exclusive : Bool) (side : End)
    (label : String) : (boundIfAny kind raw exclusive side label).Avoids fault := by
  unfold boundIfAny
  split
  · refine Avoids.map ?_ _
    unfold bound
    split
    · exact avoids_error rfl
    · split
      · exact avoids_ok _
      · exact avoids_ok _
  · exact avoids_ok _

theorem scaledLength_avoids (repr : ScalarRepr) (facets : Schema.Facets) (factor : Nat)
    (label : String) : (scaledLength repr facets factor label).Avoids fault := by
  unfold scaledLength
  split
  · exact avoids_ok _
  · split
    · split
      · exact avoids_ok _
      · exact avoids_error rfl
    · exact avoids_ok _

theorem applyFacets_avoids (repr : ScalarRepr) (facets : Schema.Facets) (factor : Nat)
    (label : String) : (applyFacets repr facets factor label).Avoids fault := by
  have ranges : (rangeValidators repr.kind facets label).Avoids fault :=
    (boundIfAny_avoids _ _ _ _ _).bind fun _ => (boundIfAny_avoids _ _ _ _ _).bind fun _ =>
      (boundIfAny_avoids _ _ _ _ _).bind fun _ => (boundIfAny_avoids _ _ _ _ _).bind fun _ =>
        avoids_ok _
  exact ranges.bind fun _ => (scaledLength_avoids _ _ _ _).bind fun _ => avoids_ok _

theorem restrict_avoids (source : Source) (type : Schema.SimpleType) (base : ScalarRepr) :
    (restrict source type base).Avoids fault := applyFacets_avoids _ _ _ _

theorem keep_avoids {name : String} {derivation : Derivation} (avoids : derivation.1.Avoids fault) :
    (keep name derivation).1.Avoids fault := by
  obtain ⟨result, state⟩ := derivation
  cases result with
  | ok repr => exact avoids_ok _
  | error failure => exact avoids

theorem namedWithin_avoids (source : Source) (steps : Nat) (name : String) (state : State) :
    (namedWithin source steps name state).1.Avoids fault := by
  induction steps generalizing name state with
  | zero => exact avoids_error rfl
  | succ steps ih =>
    rw [namedWithin]
    split
    · exact avoids_ok _
    · split
      · exact keep_avoids (avoids_ok _)
      · split
        · split
          · exact keep_avoids (avoids_ok _)
          · exact keep_avoids (avoids_ok _)
        · split
          next type _ =>
            have base := ih type.base state
            split
            next failure later derived => rwa [derived] at base
            next => exact keep_avoids ((restrict_avoids _ _ _).map _)
          next =>
            split
            next inner _ => exact keep_avoids (ih inner.base state)
            next => exact avoids_error rfl

theorem named_avoids (source : Source) (name : String) (state : State) :
    (named source name state).1.Avoids fault := namedWithin_avoids source _ name state

theorem inline_avoids (source : Source) (type : Schema.SimpleType) (state : State) :
    (inline source type state).1.Avoids fault := by
  have base : (named source type.base state).1.Avoids fault := named_avoids source _ _
  unfold inline
  split
  · exact restrict_avoids _ _ _
  · exact base

end Scalar

namespace Compile

/-! ## Rules -/

section Rules

variable (other : fault ≠ .pattern)
include other

theorem FieldRules.ofOptions_avoids (options : EntityOptions) :
    (FieldRules.ofOptions options).Avoids fault := by
  unfold FieldRules.ofOptions
  iterate 13 refine (PatternSet.ofTexts_avoids other _).bind fun _ => ?_
  iterate 2 refine (SubstitutionList.ofSubstitutions_avoids other _).bind fun _ => ?_
  exact avoids_ok _

theorem RuleBook.forType_avoids (book : RuleBook) (entity typePath : String) :
    (book.forType entity typePath).Avoids fault := FieldRules.ofOptions_avoids other _

theorem RuleBook.entityPatterns_avoids (rules : EntityRules) :
    (RuleBook.entityPatterns rules).Avoids fault := by
  refine (FieldRules.ofOptions_avoids other _).bind fun _ => ?_
  refine Avoids.bind (avoids_mapM fun overlay _ => ?_) fun _ => avoids_ok _
  exact (FieldRules.ofOptions_avoids other _).bind fun _ => Pattern.whole_avoids other _

theorem RuleBook.ofSettings_avoids (settings : Settings) :
    (RuleBook.ofSettings settings).Avoids fault :=
  (FieldRules.ofOptions_avoids other _).bind fun _ =>
    (avoids_mapM fun rules _ => RuleBook.entityPatterns_avoids other rules).bind fun _ =>
      avoids_ok _

theorem NameResolver.ofRules_avoids (rules : List NamingRule) :
    (NameResolver.ofRules rules).Avoids fault :=
  (avoids_mapM fun rule _ => (Pattern.whole_avoids other rule.pattern).bind fun _ =>
    avoids_ok _).bind fun _ => avoids_ok _

end Rules

/-! ## Fields -/

theorem setDefault_avoids (primitive path : String) (raw : Option String) (field : Field) :
    (setDefault primitive path raw field).Avoids fault := by
  unfold setDefault
  split
  · exact (Scalar.parseDefault_avoids _ _ _).bind fun _ => avoids_ok _
  · exact avoids_ok _

theorem overrideField_avoids (options : FieldOverride) (primitive path : String) (field : Field) :
    (overrideField options primitive path field).Avoids fault :=
  (setDefault_avoids _ _ _ _).bind fun _ => avoids_ok _

theorem finishField_avoids (context : Context) (scope : Scope) (text primitive : Option String)
    (field : Field) : (finishField context scope text primitive field).Avoids fault := by
  unfold finishField
  refine (setDefault_avoids _ _ _ _).bind fun defaulted => ?_
  extract_lets keyed proceed
  have checked (finished : Field) : (proceed finished).Avoids fault := by
    simp only [proceed]
    split
    · exact avoids_error rfl
    · exact avoids_ok _
  split
  · exact (overrideField_avoids _ _ _ _).bind checked
  · exact checked _

theorem insertField_avoids (entity : Entity) (field : Field) :
    (insertField entity field).Avoids fault := by
  unfold insertField
  extract_lets existing
  split
  · exact avoids_ok _
  · split
    · exact avoids_ok _
    · split
      · exact avoids_ok _
      · exact avoids_error rfl
  · exact avoids_ok _

theorem isRepeated_avoids (index : Schema.Index) (declaration : Schema.Element) :
    (isRepeated index declaration).Avoids fault := by
  refine (index.elementComplexType_avoids declaration).bind fun type => ?_
  split
  · exact avoids_ok _
  · split
    · exact avoids_ok _
    · split
      · exact avoids_ok _
      · split
        · split
          · exact (index.elementComplexType_avoids _).bind fun _ => avoids_ok _
          · exact avoids_ok _
        · exact avoids_ok _

theorem listKind_avoids (resolved : ResolvedKind) (path : String) :
    (listKind resolved path).Avoids fault := by
  unfold listKind
  split
  · exact avoids_ok _
  · exact avoids_error rfl

theorem parentByField_avoids (scope : Scope) (field : String) (content : Option Schema.Particle) :
    (parentByField scope field content).Avoids fault := by
  unfold parentByField
  split
  · exact avoids_ok _
  · exact avoids_error rfl

/-! ## Merging -/

section Merging

variable {book : RuleBook}

theorem ancestry_avoids {missing : String → Error}
    (own : ∀ name, (missing name).isOf fault = false) (merged : List Entity) (steps : Nat)
    (lineage : List Nat) (name : String) :
    (ancestry merged missing steps lineage name).Avoids fault := by
  induction steps generalizing lineage name with
  | zero => exact avoids_ok _
  | succ steps ih =>
    rw [ancestry]
    split
    · exact avoids_error (own name)
    · split
      · exact avoids_ok _
      · split
        · exact ih _ _
        · exact avoids_ok _

/-- Where two fields differ, the rules decide whether that is an error. -/
theorem tolerates_avoids {β : Type} {rules : Result FieldRules} (given : rules.Avoids fault)
    (path : String) {value : β} {failure : Error} (own : failure.isOf fault = false) :
    Avoids fault (rules >>= fun rules =>
      if rules.ignoreMergeMismatch.contains path then pure value else throw failure) := by
  refine given.bind fun _ => ?_
  split
  · exact avoids_ok _
  · exact avoids_error own

theorem emissionOrder_avoids (entities : List Entity) : (emissionOrder entities).Avoids fault := by
  unfold emissionOrder
  extract_lets table
  split
  · exact avoids_error rfl
  · exact avoids_ok _

theorem addMerged_avoids (entity : String) (fields : List Field) (field : Field) :
    (addMerged entity fields field).Avoids fault := by
  unfold addMerged
  extract_lets existing
  split
  · split
    · exact avoids_ok _
    · split
      · exact avoids_error rfl
      · exact avoids_ok _
  · exact avoids_ok _

/-- No look-up of rules has the fault. -/
def RuleBook.Answers (book : RuleBook) (fault : Fault) : Prop :=
  ∀ entity typePath, (book.forType entity typePath).Avoids fault

variable (answers : book.Answers fault)
include answers

theorem adoptField_avoids (name memberType : String) (lineage : List Nat)
    (state : List Field × List Entity) (field : Field) :
    (adoptField book name memberType lineage state field).Avoids fault := by
  obtain ⟨kept, merged⟩ := state
  dsimp only [adoptField]
  split
  · exact avoids_ok _
  · split
    · exact avoids_ok _
    · split
      · exact avoids_ok _
      · exact tolerates_avoids (answers _ _) _ rfl

theorem adopt_avoids (name parent : String) (lineage : List Nat)
    (state : List Entity × List Entity) (member : Entity) :
    (adopt book name parent lineage state member).Avoids fault := by
  obtain ⟨members, merged⟩ := state
  dsimp only [adopt]
  split
  · exact avoids_ok _
  · exact (avoids_foldlM (adoptField_avoids answers _ _ _) _ _).bind fun _ => avoids_ok _

theorem mergeNext_avoids (entity firstType : String) (merged : Field) (next : Entity × Field) :
    (mergeNext book entity firstType merged next).Avoids fault := by
  obtain ⟨member, field⟩ := next
  dsimp only [mergeNext]
  split
  · exact avoids_ok _
  · split
    · exact avoids_ok _
    · exact tolerates_avoids (answers _ _) _ rfl

theorem mergeField_avoids (entity : String) (members : List Entity) (identity : String × String) :
    (mergeField book entity members identity).Avoids fault := by
  unfold mergeField
  extract_lets holding everywhere relaxed fields proceed
  have merges : (proceed ()).Avoids fault := by
    dsimp only [proceed]
    cases fields with
    | nil => exact avoids_error rfl
    | cons first others =>
      refine (avoids_foldlM (mergeNext_avoids answers _ _) _ _).bind fun merged => ?_
      split
      · exact avoids_ok _
      · exact avoids_ok _
  split
  · exact avoids_error rfl
  · exact merges

/-- Looking up the ancestors of the parents of a group does not have the fault. -/
def FindsAncestors (fault : Fault) (merged group : List Entity) : Prop :=
  ∀ parent ∈ parentsOf group, ∀ name types,
    (ancestry merged (.missingParent name · types) (merged.length + 1) [] parent).Avoids fault

theorem mergeParents_avoids {name : String} {members merged : List Entity}
    (finds : FindsAncestors fault merged members) :
    (mergeParents book name members merged).Avoids fault := by
  dsimp only [mergeParents]
  split
  · exact avoids_ok _
  next parent same =>
    split
    · exact avoids_ok _
    · have given : parent ∈ parentsOf members :=
        mem_sortDistinct.mp (same ▸ List.mem_cons_self)
      refine (finds parent given _ _).bind fun lineage => ?_
      exact (avoids_foldlM (adopt_avoids answers _ _ _) _ _).bind fun _ => avoids_ok _
  · exact avoids_error rfl

theorem mergeGroup_avoids {first : Entity} {others merged : List Entity}
    (finds : FindsAncestors fault merged (first :: others)) :
    (mergeGroup book first others merged).Avoids fault := by
  refine (mergeParents_avoids answers finds).bind fun _ => ?_
  refine (avoids_mapM fun identity _ => mergeField_avoids answers _ _ identity).bind fun _ => ?_
  exact (avoids_foldlM (addMerged_avoids _) _ _).bind fun _ => avoids_ok _

/-- Where all ancestors are found, merging a group does not have the fault. -/
theorem mergeInto_avoids {merged group : List Entity} (finds : FindsAncestors fault merged group) :
    (mergeInto book merged group).Avoids fault := by
  unfold mergeInto
  split
  · exact avoids_ok _
  · exact avoids_ok _
  · exact (mergeGroup_avoids answers finds).bind fun _ => avoids_ok _

/-! ## The outcome -/

variable (other : fault ≠ .orphan)
include other

omit answers in
theorem findsAncestors_of_ne (merged group : List Entity) : FindsAncestors fault merged group :=
  fun _ _ _ _ => ancestry_avoids (fun _ => Error.isOf_of_ne rfl other) _ _ _ _

theorem mergeRounds_avoids (names : List String) (rounds : Nat) (pending : List (List Entity))
    (merged : List Entity) : (mergeRounds book names rounds pending merged).Avoids fault := by
  induction rounds generalizing pending merged with
  | zero =>
    cases pending with
    | nil => exact avoids_ok _
    | cons group rest => exact avoids_error (Error.isOf_of_ne rfl other)
  | succ rounds ih =>
    cases pending with
    | nil => exact avoids_ok _
    | cons group rest =>
      rw [mergeRounds]
      split
      · exact avoids_error (Error.isOf_of_ne rfl other)
      · exact (avoids_foldlM (fun _ _ => mergeInto_avoids answers (findsAncestors_of_ne other _ _))
          _ _).bind fun _ => ih _ _

theorem mergeEntities_avoids (entities : List Entity) :
    (mergeEntities book entities).Avoids fault :=
  (avoids_foldlM (fun _ _ => mergeInto_avoids answers (findsAncestors_of_ne other _ _)) _ _).bind
    fun _ => mergeRounds_avoids answers other _ _ _ _

/-- Once everything is built, a parent that is missing is the only one of these faults that look-ups
of rules do not have. -/
theorem finish_avoids (state : State) : (finish book state).Avoids fault :=
  (mergeEntities_avoids answers other _).bind fun _ => (emissionOrder_avoids _).bind fun _ =>
    avoids_ok _

end Merging

/-- Once everything is built, the rest comes to an end. -/
theorem finish_ends (book : RuleBook) (state : State) : (finish book state).Ends :=
  finish_avoids (book.forType_avoids (by decide)) (by decide) state

end Compile

end EntityGraph
