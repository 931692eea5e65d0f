import EntityGraph.Proofs.Faults
import EntityGraph.Proofs.Graph.Stages
import EntityGraph.Proofs.Overlays

/-!
# Errors that a build avoids

A walk fails with what one of its steps fails with. The only steps that read patterns are the look-
ups of rules, and the only ones that are cut off are those for which there is no level left. So a
build has no other fault than those that the look-ups have, whatever the schema.

Each record of options is read on its own before anything is built. The rules of an entity for a
type path are put together from several records, and are read again, but all of their texts come
from records that have been read. So a text that is no pattern is reported at once or never.
-/
namespace EntityGraph.Compile

open Result (avoids_ok avoids_error)
open Schema (Attribute AttributeItem ComplexType Element Extension Member Particle)

variable {α β : Type} {fault : Fault}

/-! ## Walks -/

/-- From every state, a walk gives a result or an error of another kind. -/
def Walk.Avoids (fault : Fault) (walk : Walk α) : Prop := ∀ state, (walk.run state).Avoids fault

namespace Walk.Avoids

theorem returns (value : α) : Avoids fault (pure value : Walk α) := fun _ => avoids_ok _

theorem fails {failure : Error} (own : failure.isOf fault = false) :
    Avoids fault (throw failure : Walk α) :=
  fun _ => avoids_error own

theorem bind {first : Walk α} {next : α → Walk β} (avoids : first.Avoids fault)
    (continues : ∀ value, (next value).Avoids fault) : Avoids fault (first >>= next) := by
  intro state
  rw [StateT.run_bind]
  exact (avoids state).bind fun reached => continues reached.1 reached.2

/-- A computation that does not look at the state. -/
theorem lifts {computation : Result α} (avoids : computation.Avoids fault) :
    Avoids fault (liftM computation : Walk α) :=
  fun _ => avoids.bind fun _ => avoids_ok _

theorem reads {next : State → Walk β} (continues : ∀ state, (next state).Avoids fault) :
    Avoids fault (get >>= next) :=
  fun state => continues state state

theorem changes (change : State → State) : Avoids fault (modify change : Walk Unit) :=
  fun _ => avoids_ok _

/-- Doing the same for each item. -/
theorem repeats {items : List α} {walk : α → Walk Unit} (each : ∀ item, (walk item).Avoids fault) :
    Avoids fault (items.forM walk) := by
  induction items with
  | nil => exact returns ()
  | cons item rest ih => exact (each item).bind fun _ => ih

end Walk.Avoids

open Walk (Avoids)

/-! ## Steps -/

theorem notify_avoids (notice : Diagnostic) : (notify notice).Avoids fault := .changes _

theorem resolveName_avoids (path : String) : (resolveName path).Avoids fault :=
  fun _ => avoids_ok _

theorem nextChoice_avoids : nextChoice.Avoids fault := fun _ => avoids_ok _

theorem deriveScalar_avoids {derive : Scalar.State → Scalar.Derivation}
    (derives : ∀ scalars, (derive scalars).1.Avoids fault) :
    (deriveScalar derive).Avoids fault := by
  refine .reads fun state => ?_
  have derives := derives state.scalars
  split
  · exact fun _ => avoids_ok _
  next failure scalars derived =>
    rw [derived] at derives
    exact .fails (derives failure rfl)

section

variable {context : Context}

theorem namedScalar_avoids (name : String) : (namedScalar context name).Avoids fault :=
  deriveScalar_avoids fun scalars => Scalar.named_avoids _ name scalars

theorem entityAt_avoids (path : String) : (entityAt context path).Avoids fault := by
  refine .reads fun state => ?_
  split
  · exact .returns _
  · exact .fails rfl

theorem modifyEntity_avoids (path : String) (change : Entity → Entity) :
    (modifyEntity context path change).Avoids fault :=
  (entityAt_avoids path).bind fun _ => .changes _

theorem addToBag_avoids (path : String) (entries : Bag) : (addToBag path entries).Avoids fault :=
  .changes _

theorem takeBag_avoids (path : String) : (takeBag path).Avoids fault := fun _ => avoids_ok _

theorem produced_avoids (path : String) : (produced path).Avoids fault := fun _ => avoids_ok _

/-! ## Fields -/

theorem addField_avoids (rules : FieldRules) (path : String) (field : Field) :
    (addField context rules path field).Avoids fault := by
  refine (entityAt_avoids path).bind fun entity => ?_
  split
  · exact .returns _
  · extract_lets limit proceed
    have inserts : (proceed ()).Avoids fault :=
      .reads fun state => (Avoids.lifts (insertField_avoids _ _)).bind fun _ => .changes _
    split
    · exact (Avoids.fails rfl).bind fun _ => inserts
    · exact inserts

theorem addFields_avoids (rules : FieldRules) (path : String) (fields : List Field) :
    (addFields context rules path fields).Avoids fault :=
  .repeats fun field => addField_avoids rules path field

theorem addFinished_avoids (scope : Scope) (text primitive : Option String) (field : Field) :
    Avoids fault (do
      addField context scope.rules scope.typePath
        (← finishField context scope text primitive field)) :=
  (Avoids.lifts (finishField_avoids _ _ _ _ _)).bind fun _ => addField_avoids _ _ _

theorem addMember_avoids (scope : Scope) (site : Site) (member : Member) (resolved : ResolvedKind)
    (most : Schema.MaxOccurs) :
    (addMember context scope site member resolved most).Avoids fault := by
  unfold addMember
  extract_lets plain field proceed
  have adds : (proceed ()).Avoids fault := addFinished_avoids _ _ _ _
  split
  · split
    · exact (Avoids.fails rfl).bind fun _ => adds
    · exact adds
  · exact adds

/-! ## Targets -/

theorem repeatedElement_avoids (scope : Scope) (site : Site) (declaration : Element) :
    (repeatedElement context scope site declaration).Avoids fault := by
  unfold repeatedElement
  split
  · exact .returns _
  · refine (Avoids.lifts (context.index.elementComplexType_avoids _)).bind fun type => ?_
    split
    · exact .returns _
    · exact (notify_avoids _).bind fun _ => .returns _

theorem repeatedTarget_avoids (scope : Scope) (site : Site) (declaration : Element) :
    (repeatedTarget context scope site declaration).Avoids fault := by
  refine (repeatedElement_avoids scope site declaration).bind fun (inner, name) => ?_
  refine (Avoids.lifts (context.index.elementComplexType_avoids _)).bind fun type => ?_
  split
  · exact .returns _
  · exact .fails rfl

theorem inferTarget?_avoids (scope : Scope) (site : Site) (declaration : Element)
    (isComplex : Bool) : (inferTarget? context scope site declaration isComplex).Avoids fault := by
  unfold inferTarget?
  split
  · exact .returns _
  · refine (Avoids.lifts (isRepeated_avoids _ _)).bind fun repeats => ?_
    split
    · exact (repeatedTarget_avoids scope site declaration).bind fun _ => .returns _
    · exact .returns _

theorem singleTarget_avoids (scope : Scope) (site : Site) (declaration : Element) :
    (singleTarget context scope site declaration).Avoids fault := by
  refine (Avoids.lifts (context.index.elementComplexType_avoids _)).bind fun type => ?_
  split
  · exact .returns _
  · exact .fails rfl

theorem manyTarget_avoids (scope : Scope) (site : Site) (declaration : Element)
    (configured : Option String) (inferred : Option Target) :
    (manyTarget context scope site declaration configured inferred).Avoids fault := by
  unfold manyTarget
  split
  · exact .returns _
  · exact .returns _
  · exact repeatedTarget_avoids scope site declaration

end

/-! ## What leads onward -/

/-- Neither building other entities nor walking other types has the fault. -/
structure Onward.Avoids (fault : Fault) (onward : Onward) : Prop where
  build : ∀ path type fields, (onward.build path type fields).Avoids fault
  members : ∀ scope type, (onward.members scope type).Avoids fault
  extension : ∀ scope extension, (onward.extension scope extension).Avoids fault

section

variable {context : Context} {onward : Onward} (avoids : onward.Avoids fault)
include avoids

theorem addReverse_avoids (scope : Scope) (site : Site) (oneToOne : Bool) (target : Target) :
    (addReverse context onward scope site oneToOne target).Avoids fault :=
  .reads fun _ => (avoids.build _ _ _).bind fun _ => addFinished_avoids _ _ _ _

theorem addManyToMany_avoids (scope : Scope) (site : Site) (target : Target) :
    (addManyToMany context onward scope site target).Avoids fault :=
  (avoids.build _ _ _).bind fun _ => addFinished_avoids _ _ _ _

theorem addRelation_avoids (scope : Scope) (site : Site) (declaration : Element)
    (inferred : Option Target) (relation : Relation) :
    (addRelation context onward scope site declaration inferred relation).Avoids fault := by
  cases relation with
  | oneToOne => exact (singleTarget_avoids _ _ _).bind fun _ => addReverse_avoids avoids _ _ _ _
  | oneToMany => exact (manyTarget_avoids _ _ _ _ _).bind fun _ => addReverse_avoids avoids _ _ _ _
  | manyToMany =>
    exact (manyTarget_avoids _ _ _ _ _).bind fun _ => addManyToMany_avoids avoids _ _ _

/-! ## Values -/

theorem resolveNamed_avoids (name : String) : (resolveNamed context onward name).Avoids fault := by
  unfold resolveNamed
  split
  · exact (namedScalar_avoids name).bind fun _ => .returns _
  · refine (Avoids.lifts (context.index.complexType_avoids name)).bind fun type => ?_
    exact (avoids.build _ _ _).bind fun _ => .returns _

theorem resolveValue_avoids (scope : Scope) (name : String) (hint : Option String)
    (member : Member) : (resolveValue context onward scope name hint member).Avoids fault := by
  unfold resolveValue
  extract_lets types
  split
  · exact resolveNamed_avoids avoids _
  · exact (deriveScalar_avoids fun scalars => Scalar.inline_avoids _ _ scalars).bind fun _ =>
      .returns _
  · exact (avoids.build _ _ _).bind fun _ => .returns _
  · exact (namedScalar_avoids _).bind fun _ => .returns _

theorem resolveArray_avoids (scope : Scope) (site : Site) (declaration : Element)
    (type : Option ComplexType) :
    (resolveArray context onward scope site declaration type).Avoids fault := by
  have lists (resolved : ResolvedKind) (path : String) :
      Avoids fault (liftM (listKind resolved path) : Walk ResolvedKind) :=
    .lifts (listKind_avoids resolved path)
  unfold resolveArray
  split
  · exact (resolveValue_avoids avoids _ _ _ _).bind fun _ => (lists _ _).bind fun _ => .returns _
  · split
    · exact .fails rfl
    · exact (resolveValue_avoids avoids _ _ _ _).bind fun _ => (lists _ _).bind fun _ => .returns _

theorem resolveForeignKey_avoids (scope : Scope) (name target : String)
    (type : Option ComplexType) :
    (resolveForeignKey onward scope name target type).Avoids fault := by
  unfold resolveForeignKey
  split
  · split
    · exact (avoids.build _ _ _).bind fun _ => .returns _
    · exact .fails rfl
  · exact (avoids.build _ _ _).bind fun _ => .returns _

omit avoids in
theorem flatteningHint_avoids (scope : Scope) (site : Site) (type : Option ComplexType) :
    (flatteningHint scope site type).Avoids fault := by
  unfold flatteningHint
  split
  · exact (notify_avoids _).bind fun _ => .returns _
  · split
    · exact (notify_avoids _).bind fun _ => .returns _
    · exact .returns _

omit avoids in
theorem referencedExtension?_avoids (scope : Scope) (site : Site) (type : Option ComplexType) :
    (referencedExtension? scope site type).Avoids fault := by
  unfold referencedExtension?
  split
  · exact .returns _
  · split
    · exact .fails rfl
    · split
      · exact (notify_avoids _).bind fun _ => .returns _
      · exact .returns _

theorem resolveElement_avoids (scope : Scope) (site : Site) (declaration : Element)
    (type : Option ComplexType) (hint : Option String) (extension : Option Extension) :
    (resolveElement context onward scope site declaration type hint extension).Avoids fault := by
  unfold resolveElement
  split
  · exact resolveArray_avoids avoids _ _ _ _
  · split
    · exact (resolveForeignKey_avoids avoids _ _ _ _).bind fun _ => .returns _
    · exact (avoids.build _ _ _).bind fun _ => .returns _
    · exact (resolveValue_avoids avoids _ _ _ _).bind fun _ => .returns _

theorem flatten_avoids (scope : Scope) (site : Site) (type : ComplexType) :
    (flatten onward scope site type).Avoids fault := by
  refine (produced_avoids _).bind fun before => (avoids.members _ _).bind fun _ => ?_
  refine (produced_avoids _).bind fun after => ?_
  split
  · exact .fails rfl
  · exact .returns _

/-! ## Members -/

omit avoids in
theorem recordBag_avoids (scope : Scope) (key : String) (doc : Option String)
    (type : Option ComplexType) : (recordBag context scope key doc type).Avoids fault :=
  addToBag_avoids _ _

theorem classifyAttribute_avoids (scope : Scope) (site : Site) (bagKey : String)
    (declaration : Attribute) :
    (classifyAttribute context onward scope site bagKey declaration).Avoids fault := by
  unfold classifyAttribute
  split
  · split
    · exact recordBag_avoids _ _ _ _
    · exact .returns _
  · exact (resolveValue_avoids avoids _ _ _ _).bind fun _ => addMember_avoids _ _ _ _ _

theorem classifyPlain_avoids (scope : Scope) (site : Site) (declaration : Element)
    (type : Option ComplexType) (hint : Option String) :
    (classifyPlain context onward scope site declaration type hint).Avoids fault := by
  refine (referencedExtension?_avoids scope site type).bind fun extension => ?_
  refine (resolveElement_avoids avoids _ _ _ _ _ _).bind fun (resolved, most, documented) => ?_
  refine (addMember_avoids _ _ _ _ _).bind fun _ => ?_
  split
  · exact avoids.extension _ _
  · exact .returns _

theorem classifyElement_avoids (scope : Scope) (site : Site) (bagKey : String)
    (declaration : Element) :
    (classifyElement context onward scope site bagKey declaration).Avoids fault := by
  have plain (type : Option ComplexType) (hint : Option String) :
      (classifyPlain context onward scope site declaration type hint).Avoids fault :=
    classifyPlain_avoids avoids scope site declaration type hint
  refine (Avoids.lifts (context.index.elementComplexType_avoids _)).bind fun type => ?_
  refine (inferTarget?_avoids _ _ _ _).bind fun inferred => ?_
  split
  · exact addRelation_avoids avoids _ _ _ _ _
  · split
    · split
      · exact recordBag_avoids _ _ _ _
      · exact .returns _
    · split
      · split
        · split
          · exact flatten_avoids avoids _ _ _
          · exact (flatteningHint_avoids _ _ _).bind fun hint => plain _ hint
        · exact (flatteningHint_avoids _ _ _).bind fun hint => plain _ hint
      · exact plain _ _

theorem classify_avoids (scope : Scope) (nullable : Bool) (member : Member) :
    (classify context onward scope nullable member).Avoids fault := by
  unfold classify
  extract_lets rules localName dottedPath name coalesced settled bagKey site
  split
  · exact addField_avoids _ _ _
  · split
    · exact addField_avoids _ _ _
    · split
      · exact classifyAttribute_avoids avoids _ _ _ _
      · exact classifyElement_avoids avoids _ _ _ _

/-! ## Types -/

theorem walkAttributes_avoids (scope : Scope) (items : List AttributeItem) :
    (walkAttributes context onward scope items).Avoids fault := by
  refine .repeats fun item => ?_
  split
  · split
    · exact classify_avoids avoids _ _ _
    · exact .returns _
  · exact .fails rfl

omit avoids

mutual

theorem walkParticle_avoids (avoids : onward.Avoids fault) (scope : Scope) :
    ∀ particle, (walkParticle context onward scope particle).Avoids fault
  | .element declaration => by
    rw [walkParticle]
    exact classify_avoids avoids _ _ _
  | .compositor .sequence occurs parts => by
    rw [walkParticle]
    exact walkParts_avoids avoids _ parts
  | .compositor .choice _ parts => by
    rw [walkParticle]
    exact nextChoice_avoids.bind fun _ => walkParts_avoids avoids _ parts
  | .any wildcard => by
    rw [walkParticle]
    exact addToBag_avoids _ _
  | .group reference _ => by
    rw [walkParticle]
    exact .fails rfl

theorem walkParts_avoids (avoids : onward.Avoids fault) (scope : Scope) :
    ∀ parts, (walkParts context onward scope parts).Avoids fault
  | [] => by
    rw [walkParts]
    exact .returns _
  | part :: rest => by
    rw [walkParts]
    exact (walkParticle_avoids avoids scope part).bind fun _ => walkParts_avoids avoids scope rest

end

include avoids

theorem walkContent_avoids (scope : Scope) (content : Option Particle) :
    (walkContent context onward scope content).Avoids fault := by
  cases content with
  | some content => exact walkParticle_avoids avoids scope content
  | none => exact .returns _

theorem walkExtension_avoids (scope : Scope) (extension : Extension) :
    (walkExtension context onward scope extension).Avoids fault :=
  (walkAttributes_avoids avoids _ _).bind fun _ => walkContent_avoids avoids _ _

theorem walkMembers_avoids (scope : Scope) (type : ComplexType) :
    (walkMembers context onward scope type).Avoids fault := by
  refine .repeats fun type => ?_
  iterate 3 refine (walkAttributes_avoids avoids _ _).bind fun _ => ?_
  exact (walkContent_avoids avoids _ _).bind fun _ => walkContent_avoids avoids _ _

/-! ## Entities -/

theorem outline_avoids (scope : Scope) (type : ComplexType) :
    (outline context onward scope type).Avoids fault := by
  have attributes (items : List AttributeItem) :
      (walkAttributes context onward scope items).Avoids fault :=
    walkAttributes_avoids avoids scope items
  unfold outline
  split
  · exact .returns _
  next extension _ _ =>
    have walks : Avoids fault (do
        walkAttributes context onward scope extension.attributes
        return (⟨some extension.base, extension.content⟩ : Outline)) :=
      (attributes _).bind fun _ => .returns _
    split
    · exact (notify_avoids _).bind fun _ => walks
    · exact walks
  · exact (attributes _).bind fun _ => (namedScalar_avoids _).bind fun _ =>
      (addField_avoids _ _ _).bind fun _ => .returns _
  · exact (notify_avoids _).bind fun _ => .returns _

theorem walkOutline_avoids (scope : Scope) (type : ComplexType) :
    (walkOutline context onward scope type).Avoids fault := by
  refine (modifyEntity_avoids _ _).bind fun _ => (walkAttributes_avoids avoids _ _).bind fun _ => ?_
  refine (outline_avoids avoids scope type).bind fun outline => ?_
  split
  · exact (Avoids.lifts (parentByField_avoids _ _ _)).bind fun _ => .returns _
  · exact .returns _

theorem outlineOf_avoids (scope : Scope) (type : Option ComplexType) :
    (outlineOf context onward scope type).Avoids fault := by
  unfold outlineOf
  split
  · exact .returns _
  · split
    · exact walkOutline_avoids avoids _ _
    · exact (Avoids.lifts (context.index.complexType_avoids _)).bind fun _ =>
        walkOutline_avoids avoids _ _

theorem inherit_avoids (scope : Scope) (parent : String) :
    (inherit context onward scope parent).Avoids fault := by
  unfold inherit
  split
  · exact (Avoids.lifts (context.index.complexType_avoids _)).bind fun _ => avoids.members _ _
  · exact (avoids.build _ _ _).bind fun _ => modifyEntity_avoids _ _

omit avoids in
theorem addBag_avoids (scope : Scope) : (addBag context scope).Avoids fault := by
  refine (takeBag_avoids _).bind fun entries => ?_
  split
  · exact .returns _
  · exact addField_avoids _ _ _

theorem addExtra_avoids (scope : Scope) (extra : ExtraField) :
    (addExtra context onward scope extra).Avoids fault := by
  have target (name : String) : (extraTarget context onward name).Avoids fault := by
    refine .reads fun state => ?_
    split
    · split
      · exact avoids.build _ _ _
      · exact .returns _
    · exact .returns _
  have kind : (extraKind context onward extra).Avoids fault := by
    unfold extraKind
    split
    · refine (target _).bind fun entity => ?_
      split
      · exact .returns _
      · exact .returns _
    · exact .returns _
  exact kind.bind fun _ => addField_avoids _ _ _

variable (answers : context.book.Answers fault)
include answers

omit avoids in
theorem extendBuilt_avoids (path : String) (fields : List Field) :
    (extendBuilt context path fields).Avoids fault := by
  unfold extendBuilt
  split
  · exact .returns _
  · refine (entityAt_avoids path).bind fun entity => ?_
    refine (Avoids.lifts (answers _ _)).bind fun rules => ?_
    exact (addFields_avoids _ _ _).bind fun _ => modifyEntity_avoids _ _

theorem buildNew_avoids (path entity : String) (type : Option ComplexType) (fields : List Field) :
    (buildNew context onward path entity type fields).Avoids fault := by
  refine (Avoids.changes _).bind fun _ => (Avoids.lifts (answers _ _)).bind fun rules => ?_
  extract_lets scope
  refine (outlineOf_avoids avoids scope type).bind fun outline => ?_
  have rest : Avoids fault (do
      walkContent context onward scope outline.content
      addBag context scope
      rules.options.addFields.forM (addExtra context onward scope)
      addFields context rules path fields
      let inherited := inheritedNumber? (← get) path
      modifyEntity context path (complete rules inherited)) := by
    refine (walkContent_avoids avoids _ _).bind fun _ => (addBag_avoids _).bind fun _ => ?_
    refine (Avoids.repeats fun extra => addExtra_avoids avoids _ extra).bind fun _ => ?_
    exact (addFields_avoids _ _ _).bind fun _ => .reads fun _ => modifyEntity_avoids _ _
  split
  · exact (inherit_avoids avoids _ _).bind fun _ => rest
  · exact rest

theorem buildEntity_avoids (path : String) (type : Option ComplexType) (fields : List Field) :
    (buildEntity context onward path type fields).Avoids fault := by
  have builds (name : String) : Avoids fault (do
      buildNew context onward path name type fields
      return name) :=
    (buildNew_avoids avoids answers _ _ _ _).bind fun _ => .returns _
  refine (resolveName_avoids path).bind fun name => .reads fun state => ?_
  split
  · exact (extendBuilt_avoids answers _ _).bind fun _ => .returns _
  · split
    · split
      · exact builds _
      · exact (Avoids.fails rfl).bind fun _ => .returns _
    · exact builds _

omit avoids in
/-- However many levels there are, only being cut off adds to the faults of the look-ups. -/
theorem onward_avoids (other : fault ≠ .cutOff) (levels : Nat) :
    (Compile.onward context levels).Avoids fault := by
  induction levels with
  | zero =>
    have cut {α : Type} (path : String) : Avoids fault (throw (.endlessNesting path) : Walk α) :=
      .fails (Error.isOf_of_ne rfl other)
    exact ⟨fun _ _ _ => cut _, fun _ _ => cut _, fun _ _ => cut _⟩
  | succ levels ih =>
    exact ⟨fun _ _ _ => buildEntity_avoids ih answers _ _ _, fun _ _ => walkMembers_avoids ih _ _,
      fun _ _ => walkExtension_avoids ih _ _⟩

end

theorem buildRoots_avoids (context : Context) (answers : context.book.Answers fault)
    (other : fault ≠ .cutOff) (levels : Nat) (roots : List (String × ComplexType)) :
    (buildRoots context levels roots).Avoids fault :=
  .repeats fun _ => ((onward_avoids answers other _).build _ _ _).bind fun _ => .returns _

end EntityGraph.Compile

namespace EntityGraph

open Compile
open Result (avoids_ok)

/-! ## Patterns -/

variable {settings : Settings} {book : RuleBook}

theorem Compile.RuleBook.answers_of_ofSettings (read : RuleBook.ofSettings settings = .ok book)
    (fault : Fault) : book.Answers fault := by
  intro entity typePath
  obtain ⟨rules, given⟩ := exists_forType_eq_ok read entity typePath
  exact given ▸ avoids_ok rules

/-- Where the rules have been read, what is built and merged afterwards has no pattern to refuse. -/
theorem compile_avoids_pattern {resolver : NameResolver}
    (read : RuleBook.ofSettings settings = .ok book)
    (named : NameResolver.ofRules settings.typeMap = .ok resolver) (index : Schema.Index)
    (levels : Nat) : (compile index settings levels).Avoids .pattern := by
  have answers := RuleBook.answers_of_ofSettings read .pattern
  have builds : (build index settings levels).Avoids .pattern := by
    rw [build, named, read, Result.ok_bind, Result.ok_bind]
    have roots : (settings.compiler.roots.mapM index.resolveRoot).Avoids .pattern :=
      Result.avoids_mapM fun selector _ => index.resolveRoot_avoids selector
    refine roots.bind fun roots => ?_
    let context : Context := ⟨index, settings, book, roots.map (·.1)⟩
    exact (buildRoots_avoids context answers (by decide) levels roots _).bind fun _ => avoids_ok _
  refine builds.bind_of_ok fun ⟨other, state⟩ built => ?_
  obtain rfl : other = book := Except.ok.inj ((book_read_of_build built).symm.trans read)
  exact finish_avoids answers (by decide) state

/-- Once a rule book has been read, no look-up in it fails, whatever the entity and the type path
and however many there were before; and a compilation whose naming rules have been read as well is
never refused for a pattern. -/
theorem no_pattern_refused_late (read : RuleBook.ofSettings settings = .ok book) :
    (∀ entity typePath, ∃ rules, book.forType entity typePath = .ok rules) ∧
    (∀ lookups, ∀ answer ∈ (RuleLookups.ofBook book).answers lookups,
      ∃ rules, answer = .ok rules) ∧
    ∀ resolver, NameResolver.ofRules settings.typeMap = .ok resolver →
      ∀ index levels pattern,
        compile index settings levels ≠ .error (.invalidPattern pattern) := by
  refine ⟨exists_forType_eq_ok read, fun lookups answer member => ?_,
    fun resolver named index levels pattern refused => ?_⟩
  · rw [RuleLookups.answers_eq (RuleLookups.ofBook_faithful book)] at member
    obtain ⟨⟨entity, typePath⟩, _, rfl⟩ := List.mem_map.mp member
    exact exists_forType_eq_ok read entity typePath
  · cases compile_avoids_pattern read named index levels _ refused

/-- Shapes of two types, one of which has an overlay. -/
def namedShapes : Settings :=
  { (shapeSettings [shapeRules [("Square.*", "radius")]]).withRoots ["SquareType"] with
    typeMap := [⟨"(Square|Circle)Type", "Shape", true⟩] }

theorem no_pattern_refused_late_of_namedShapes :
    ∃ book resolver, RuleBook.ofSettings namedShapes = .ok book ∧
      NameResolver.ofRules namedShapes.typeMap = .ok resolver ∧
      (∃ rules, book.forType "Shape" "SquareType" = .ok rules) ∧
      ∀ pattern, compile (.ofSequences [("SquareType", [])]) namedShapes ≠
        .error (.invalidPattern pattern) := by
  have readable : (RuleBook.ofSettings namedShapes).toOption.isSome = true := by decide +kernel
  have resolves : (NameResolver.ofRules namedShapes.typeMap).toOption.isSome = true := by
    decide
  obtain ⟨book, read⟩ := Result.isSome_toOption.mp readable
  obtain ⟨resolver, named⟩ := Result.isSome_toOption.mp resolves
  obtain ⟨found, _, compiles⟩ := no_pattern_refused_late read
  exact ⟨book, resolver, read, named, found _ _, compiles resolver named _ _⟩

end EntityGraph
