import EntityGraph.Pattern.Rules
import EntityGraph.Table

/-!
# Rules of fields

The options that hold for an entity while a type is walked: those of the entity, under those of each
overlay whose pattern matches the type path, over those of all entities. Every pattern of the
settings is read once at the start, whether it is ever used or not. Lookups in a book remember what
they have found, which changes none of their answers.
-/
namespace EntityGraph.Compile

/-- Options that are ready for use. -/
structure FieldRules where
  drop : PatternSet
  dropAfterProcessing : PatternSet
  flatten : PatternSet
  array : PatternSet
  manyToMany : PatternSet
  oneToMany : PatternSet
  oneToOne : PatternSet
  json : PatternSet
  referenceExtension : PatternSet
  null : PatternSet
  unique : PatternSet
  index : PatternSet
  ignoreMergeMismatch : PatternSet
  rename : SubstitutionList
  coalesce : SubstitutionList
  options : EntityOptions
  deriving DecidableEq, Repr, Inhabited

/-- The target that is given for a field. -/
def targetOf? (overrides : List TargetOverride) (name : String) : Option String :=
  (overrides.find? (·.field == name)).map (·.target)

namespace FieldRules

/-- Reads the patterns of options, in a fixed order. -/
def ofOptions (options : EntityOptions) : Result FieldRules := do
  return {
    drop := ← PatternSet.ofTexts options.dropFields
    dropAfterProcessing := ← PatternSet.ofTexts options.dropAfterProcessingFields
    flatten := ← PatternSet.ofTexts options.flattenFields
    array := ← PatternSet.ofTexts options.arrayFields
    manyToMany := ← PatternSet.ofTexts options.manyToManyFields
    oneToMany := ← PatternSet.ofTexts options.oneToManyFields
    oneToOne := ← PatternSet.ofTexts options.oneToOneFields
    json := ← PatternSet.ofTexts options.jsonFields
    referenceExtension := ← PatternSet.ofTexts options.referenceExtensionFields
    null := ← PatternSet.ofTexts options.nullFields
    unique := ← PatternSet.ofTexts options.uniqueFields
    index := ← PatternSet.ofTexts options.indexFields
    ignoreMergeMismatch := ← PatternSet.ofTexts options.ignoreMergeMismatchFields
    rename := ← SubstitutionList.ofSubstitutions options.rename
    coalesce := ← SubstitutionList.ofSubstitutions options.coalesceFields
    options }

/-- Whether only the settings declare fields. -/
def isCustom (rules : FieldRules) : Bool := rules.options.custom.getD false

/-- Whether the fields of the parent are walked again. -/
def includesParentFields (rules : FieldRules) : Bool :=
  rules.options.includeParentFields.getD false

/-- Whether elements of the name are flattened for how it begins. -/
def hasFlattenPrefix (rules : FieldRules) (name : String) : Bool :=
  rules.options.flattenPrefixes.any fun start => name.startsWith start

def isPrimaryKey (rules : FieldRules) (name : String) : Bool :=
  rules.options.primaryKey == some name

def manyToManyTarget? (rules : FieldRules) (name : String) : Option String :=
  targetOf? rules.options.manyToManyOverrides name

def oneToManyTarget? (rules : FieldRules) (name : String) : Option String :=
  targetOf? rules.options.oneToManyOverrides name

def foreignKeyTarget? (rules : FieldRules) (name : String) : Option String :=
  targetOf? rules.options.foreignKeyOverrides name

def kind? (rules : FieldRules) (name : String) : Option ScalarKind :=
  (rules.options.kindOverrides.find? (·.field == name)).map (·.kind)

def fieldOverride? (rules : FieldRules) (name : String) : Option FieldOverride :=
  rules.options.fieldOptions.find? (·.field == name)

def fieldDoc? (rules : FieldRules) (name : String) : Option String :=
  (rules.options.fieldDocs.find? (·.field == name)).map (·.doc)

end FieldRules

/-- The settings, and the overlay patterns of each entity. -/
structure RuleBook where
  settings : Settings
  overlays : Table (List Pattern)
  deriving Inhabited

namespace RuleBook

/-- Reads the patterns of an overlay: first those of its options, then its own. -/
def overlayPattern (overlay : TypeOverlay) : Result Pattern := do
  let _ ← FieldRules.ofOptions overlay.options
  Pattern.whole overlay.pattern

/-- Reads the patterns of the rules of one entity. -/
def entityPatterns (rules : EntityRules) : Result (String × List Pattern) := do
  let _ ← FieldRules.ofOptions rules.options
  return (rules.name, ← rules.overlays.mapM overlayPattern)

/-- Reads all patterns of the settings. -/
def ofSettings (settings : Settings) : Result RuleBook := do
  let _ ← FieldRules.ofOptions settings.global
  return ⟨settings, .ofList (← settings.entities.mapM entityPatterns)⟩

/-- The options of an entity while a type is walked, without those of all entities. -/
def entityOptions (book : RuleBook) (entity typePath : String) : EntityOptions :=
  match book.settings.entityRules? entity with
  | none => .none
  | some rules =>
    let patterns := (book.overlays.get? entity).getD []
    (rules.overlays.zip patterns).foldl
      (fun options (overlay, pattern) =>
        if pattern.isMatch typePath then .layered overlay.options options else options)
      rules.options

/-- The rules of an entity while a type is walked. -/
def forType (book : RuleBook) (entity typePath : String) : Result FieldRules :=
  FieldRules.ofOptions (.layered (book.entityOptions entity typePath) book.settings.global)

end RuleBook

/-- Lookups in one rule book. The rules of an entity for a type path are put together once, and
kept for the next time. -/
structure RuleLookups where
  book : RuleBook
  known : List ((String × String) × FieldRules)
  deriving Inhabited

namespace RuleLookups

def ofBook (book : RuleBook) : RuleLookups := ⟨book, []⟩

/-- Looks up the rules of an entity for a type path. A failure is not kept. -/
def forType (lookups : RuleLookups) (entity typePath : String) :
    Result FieldRules × RuleLookups :=
  match lookups.known.lookup (entity, typePath) with
  | some rules => (.ok rules, lookups)
  | none =>
    match lookups.book.forType entity typePath with
    | .ok rules =>
      (.ok rules, { lookups with known := ((entity, typePath), rules) :: lookups.known })
    | .error failure => (.error failure, lookups)

/-- The answers for pairs of an entity and a type path, one after the other. -/
def answers (lookups : RuleLookups) : List (String × String) → List (Result FieldRules)
  | [] => []
  | (entity, typePath) :: rest =>
    let (answer, lookups) := lookups.forType entity typePath
    answer :: lookups.answers rest

end RuleLookups

end EntityGraph.Compile
