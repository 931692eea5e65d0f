import EntityGraph.Compile.Graph
import EntityGraph.Proofs.Result

/-!
# What roots are read for

The roots of the settings say where a compilation starts, and nothing that it does afterwards looks
at them again. So a compilation depends on its roots through the types that they select: two lists
of roots with the same types have the same graph.
-/
namespace EntityGraph

open Schema (Index)

namespace Scalar

theorem namedWithin_withRoots (index : Index) (settings : Settings) (roots : List String)
    (steps : Nat) :
    namedWithin ⟨index, settings.withRoots roots⟩ steps = namedWithin ⟨index, settings⟩ steps := by
  induction steps with
  | zero => rfl
  | succ steps ih =>
    funext name state
    simp only [namedWithin, ih]
    rfl

theorem named_withRoots (index : Index) (settings : Settings) (roots : List String) :
    named ⟨index, settings.withRoots roots⟩ = named ⟨index, settings⟩ := by
  funext name state
  simp only [named, namedWithin_withRoots]

theorem inline_withRoots (index : Index) (settings : Settings) (roots : List String) :
    inline ⟨index, settings.withRoots roots⟩ = inline ⟨index, settings⟩ := by
  funext type state
  simp only [inline, named_withRoots]
  rfl

end Scalar

namespace Compile

/-- The same rules, from settings with other roots. -/
def RuleBook.withRoots (book : RuleBook) (roots : List String) : RuleBook :=
  { book with settings := book.settings.withRoots roots }

/-- The same compilation, as other roots give it. The types that are selected stay. -/
def Context.withRoots (context : Context) (roots : List String) : Context :=
  { context with
    settings := context.settings.withRoots roots
    book := context.book.withRoots roots }

section Walks

variable (context : Context) (roots : List String) (onward : Onward)

/-! ## Values

Where a function neither recurs nor derives a scalar, the two sides agree by unfolding alone. -/

theorem namedScalar_withRoots : namedScalar (context.withRoots roots) = namedScalar context := by
  funext name
  simp only [namedScalar, Context.withRoots, Scalar.named_withRoots]

theorem addMember_withRoots : addMember (context.withRoots roots) = addMember context := by
  funext scope site member resolved most
  rfl

theorem resolveNamed_withRoots :
    resolveNamed (context.withRoots roots) onward = resolveNamed context onward := by
  funext name
  simp only [resolveNamed, namedScalar_withRoots]
  rfl

theorem resolveValue_withRoots :
    resolveValue (context.withRoots roots) onward = resolveValue context onward := by
  funext scope name hint member
  simp only [resolveValue, resolveNamed_withRoots, namedScalar_withRoots]
  simp only [Context.withRoots, Scalar.inline_withRoots]

theorem resolveArray_withRoots :
    resolveArray (context.withRoots roots) onward = resolveArray context onward := by
  funext scope site declaration type
  simp only [resolveArray, resolveValue_withRoots]

theorem resolveElement_withRoots :
    resolveElement (context.withRoots roots) onward = resolveElement context onward := by
  funext scope site declaration type hint extension
  simp only [resolveElement, resolveArray_withRoots, resolveValue_withRoots]

/-! ## Members -/

theorem classifyPlain_withRoots :
    classifyPlain (context.withRoots roots) onward = classifyPlain context onward := by
  funext scope site declaration type hint
  simp only [classifyPlain, resolveElement_withRoots, addMember_withRoots]

theorem classifyAttribute_withRoots :
    classifyAttribute (context.withRoots roots) onward = classifyAttribute context onward := by
  funext scope site bagKey declaration
  simp only [classifyAttribute, resolveValue_withRoots, addMember_withRoots]
  rfl

theorem addRelation_withRoots :
    addRelation (context.withRoots roots) onward = addRelation context onward := rfl

theorem classifyElement_withRoots :
    classifyElement (context.withRoots roots) onward = classifyElement context onward := by
  funext scope site bagKey declaration
  simp only [classifyElement, classifyPlain_withRoots, addRelation_withRoots]
  rfl

theorem classify_withRoots :
    classify (context.withRoots roots) onward = classify context onward := by
  funext scope nullable member
  simp only [classify, classifyElement_withRoots, classifyAttribute_withRoots]
  rfl

theorem walkAttributes_withRoots :
    walkAttributes (context.withRoots roots) onward = walkAttributes context onward := by
  funext scope items
  simp only [walkAttributes, classify_withRoots]

mutual

theorem walkParticle_withRoots (scope : Scope) (particle : Schema.Particle) :
    walkParticle (context.withRoots roots) onward scope particle =
      walkParticle context onward scope particle := by
  match particle with
  | .element _ => simp only [walkParticle, classify_withRoots]
  | .compositor .sequence _ parts => simp only [walkParticle, walkParts_withRoots]
  | .compositor .choice _ parts => simp only [walkParticle, walkParts_withRoots]
  | .any _ | .group _ _ => simp only [walkParticle]

theorem walkParts_withRoots (scope : Scope) (parts : List Schema.Particle) :
    walkParts (context.withRoots roots) onward scope parts =
      walkParts context onward scope parts := by
  match parts with
  | [] => simp only [walkParts]
  | part :: rest => simp only [walkParts, walkParticle_withRoots, walkParts_withRoots]

end

theorem walkContent_withRoots :
    walkContent (context.withRoots roots) onward = walkContent context onward := by
  funext scope content
  cases content with
  | none => rfl
  | some particle => simp only [walkContent, walkParticle_withRoots]

theorem walkExtension_withRoots :
    walkExtension (context.withRoots roots) onward = walkExtension context onward := by
  funext scope extension
  simp only [walkExtension, walkAttributes_withRoots, walkContent_withRoots]

theorem walkOwnMembers_withRoots :
    walkOwnMembers (context.withRoots roots) onward = walkOwnMembers context onward := by
  funext scope type
  simp only [walkOwnMembers, walkAttributes_withRoots, walkContent_withRoots]

theorem walkMembers_withRoots :
    walkMembers (context.withRoots roots) onward = walkMembers context onward := by
  funext scope type
  simp only [walkMembers, walkOwnMembers_withRoots]
  rfl

/-! ## Entities -/

theorem outlineOf_withRoots :
    outlineOf (context.withRoots roots) onward = outlineOf context onward := by
  funext scope type
  simp only [outlineOf, walkOutline, outline, walkAttributes_withRoots, namedScalar_withRoots]
  rfl

theorem buildNew_withRoots :
    buildNew (context.withRoots roots) onward = buildNew context onward := by
  funext path entity type fields
  simp only [buildNew, outlineOf_withRoots, walkContent_withRoots]
  rfl

theorem buildEntity_withRoots :
    buildEntity (context.withRoots roots) onward = buildEntity context onward := by
  funext path type fields
  simp only [buildEntity, buildNew_withRoots]
  rfl

theorem onward_withRoots (levels : Nat) :
    Compile.onward (context.withRoots roots) levels = Compile.onward context levels := by
  induction levels with
  | zero => rfl
  | succ levels ih =>
    simp only [Compile.onward, ih, buildEntity_withRoots, walkMembers_withRoots,
      walkExtension_withRoots]

theorem buildRoots_withRoots (levels : Nat) (selected : List (String × Schema.ComplexType)) :
    buildRoots (context.withRoots roots) levels selected = buildRoots context levels selected := by
  simp only [buildRoots, onward_withRoots]

end Walks

/-! ## Compilations -/

variable {index : Index} {settings : Settings} {roots : List String}

theorem ofSettings_withRoots (settings : Settings) (roots : List String) :
    RuleBook.ofSettings (settings.withRoots roots) =
      (RuleBook.ofSettings settings).map (·.withRoots roots) := by
  unfold RuleBook.ofSettings
  change (FieldRules.ofOptions settings.global >>= fun _ =>
    settings.entities.mapM RuleBook.entityPatterns >>= fun _ => _) = _
  cases FieldRules.ofOptions settings.global with
  | error failure => rfl
  | ok rules => cases settings.entities.mapM RuleBook.entityPatterns <;> rfl

theorem build_withRoots
    (same : roots.mapM index.resolveRoot = settings.compiler.roots.mapM index.resolveRoot)
    (levels : Nat) :
    build index (settings.withRoots roots) levels =
      (build index settings levels).map fun (book, state) => (book.withRoots roots, state) := by
  have typeMap : (settings.withRoots roots).typeMap = settings.typeMap := rfl
  have started : (settings.withRoots roots).compiler.roots = roots := rfl
  unfold build
  rw [ofSettings_withRoots, typeMap, started, same]
  cases NameResolver.ofRules settings.typeMap with
  | error failure => rfl
  | ok resolver =>
    cases RuleBook.ofSettings settings with
    | error failure => rfl
    | ok book =>
      cases settings.compiler.roots.mapM index.resolveRoot with
      | error failure => rfl
      | ok selected =>
        let context : Context := ⟨index, settings, book, selected.map (·.1)⟩
        change (buildRoots (context.withRoots roots) levels selected).run (.start resolver) >>= _ =
          Except.map _ ((buildRoots context levels selected).run (.start resolver) >>= _)
        rw [buildRoots_withRoots]
        cases (buildRoots context levels selected).run (.start resolver) <;> rfl

theorem mergeInto_withRoots (book : RuleBook) (roots : List String) :
    mergeInto (book.withRoots roots) = mergeInto book := by
  funext merged group
  match group with
  | [] => rfl
  | [entity] => rfl
  | first :: second :: others => rfl

theorem mergeRounds_withRoots (book : RuleBook) (roots names : List String) (rounds : Nat) :
    mergeRounds (book.withRoots roots) names rounds = mergeRounds book names rounds := by
  induction rounds with
  | zero =>
    funext pending merged
    cases pending <;> rfl
  | succ rounds ih =>
    funext pending merged
    cases pending with
    | nil => rfl
    | cons group rest => simp only [mergeRounds, ih, mergeInto_withRoots]

theorem finish_withRoots (book : RuleBook) (roots : List String) (state : State) :
    finish (book.withRoots roots) state = finish book state := by
  simp only [finish, mergeEntities, mergeRounds_withRoots, mergeInto_withRoots]

end Compile

open Compile

/-- Roots that select the same types have the same graph. -/
theorem compile_withRoots
    (same : roots.mapM index.resolveRoot = settings.compiler.roots.mapM index.resolveRoot)
    (levels : Nat) :
    compile index (settings.withRoots roots) levels = compile index settings levels := by
  unfold compile
  rw [build_withRoots same]
  cases build index settings levels with
  | error failure => rfl
  | ok built => exact finish_withRoots built.1 roots built.2

end EntityGraph
