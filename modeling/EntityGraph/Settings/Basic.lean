import EntityGraph.Entity.Scalar

/-!
# Settings

What a compilation is told besides the schema: which types to start from, how types are named, and
for each entity how its elements become fields. Options exist at three levels: for all entities, for
one entity, and for one entity while a type of a certain path is walked. Every rule that is keyed by
a name is a list of records, and the first record of a name counts.
-/
namespace EntityGraph

/-- A type path pattern and the template of the entity name. -/
structure NamingRule where
  pattern : String
  /-- May refer to the groups of the pattern; a leading plus sign allows merging. -/
  entity : String
  /-- Whether several types may share the entity. -/
  merge : Bool
  deriving DecidableEq, Repr, Inhabited

/-- A pattern and the template that replaces its match. -/
structure Substitution where
  pattern : String
  replacement : String
  deriving DecidableEq, Repr, Inhabited

/-- The type that a field refers to. -/
structure TargetOverride where
  field : String
  target : String
  deriving DecidableEq, Repr, Inhabited

/-- The scalar kind of a field. -/
structure KindOverride where
  field : String
  kind : ScalarKind
  deriving DecidableEq, Repr, Inhabited

/-- The documentation of a field. -/
structure FieldDoc where
  field : String
  doc : String
  deriving DecidableEq, Repr, Inhabited

/-- Properties of a field that replace the derived ones. -/
structure FieldOverride where
  field : String
  maxLength : Option Nat
  maxDigits : Option Nat
  decimalPlaces : Option Nat
  null : Option Bool
  blank : Option Bool
  unique : Option Bool
  dbIndex : Option Bool
  relatedName : Option String
  defaultText : Option String
  deriving DecidableEq, Repr, Inhabited

/-- A field that the schema does not have. -/
structure ExtraField where
  name : String
  /-- The entity that it refers to. -/
  target : Option String
  manyToMany : Bool
  /-- The scalar kind when there is no target. -/
  kind : Option ScalarKind
  maxLength : Option Nat
  nullable : Bool
  documentation : Option String
  deriving DecidableEq, Repr, Inhabited

/-- How the elements of an entity become fields. -/
structure EntityOptions where
  dropFields : List String
  dropAfterProcessingFields : List String
  parentField : Option String
  parentType : Option String
  includeParentFields : Option Bool
  /-- Only the configuration declares fields. -/
  custom : Option Bool
  isAbstract : Option Bool
  /-- Applied to the names of elements. -/
  rename : List Substitution
  /-- Applied to the full names of fields. -/
  coalesceFields : List Substitution
  flattenFields : List String
  flattenPrefixes : List String
  arrayFields : List String
  manyToManyFields : List String
  manyToManyOverrides : List TargetOverride
  oneToManyFields : List String
  oneToManyOverrides : List TargetOverride
  oneToOneFields : List String
  jsonFields : List String
  foreignKeyOverrides : List TargetOverride
  referenceExtensionFields : List String
  nullFields : List String
  primaryKey : Option String
  uniqueFields : List String
  indexFields : List String
  kindOverrides : List KindOverride
  fieldOptions : List FieldOverride
  fieldDocs : List FieldDoc
  addFields : List ExtraField
  numberField : Option String
  matchFields : List String
  ignoreMergeMismatchFields : List String
  deriving DecidableEq, Repr

namespace EntityOptions

/-- No option set. -/
def none : EntityOptions :=
  { dropFields := [], dropAfterProcessingFields := [], parentField := .none, parentType := .none
    includeParentFields := .none, custom := .none, isAbstract := .none, rename := []
    coalesceFields := [], flattenFields := [], flattenPrefixes := [], arrayFields := []
    manyToManyFields := [], manyToManyOverrides := [], oneToManyFields := []
    oneToManyOverrides := [], oneToOneFields := [], jsonFields := [], foreignKeyOverrides := []
    referenceExtensionFields := [], nullFields := [], primaryKey := .none, uniqueFields := []
    indexFields := [], kindOverrides := [], fieldOptions := [], fieldDocs := [], addFields := []
    numberField := .none, matchFields := [], ignoreMergeMismatchFields := [] }

instance : Inhabited EntityOptions := ⟨none⟩

/-- The first list, followed by those items of the second that are not yet there. -/
def union {α : Type} [BEq α] (primary fallback : List α) : List α :=
  fallback.foldl (fun known item => if known.contains item then known else known ++ [item]) primary

/-- Lays options over others. Lists are joined with the upper items first, and single values come
from above if set there. As keyed records are looked up from the front, the upper ones win there
too. The match fields are one list, which is not joined. -/
def layered (primary fallback : EntityOptions) : EntityOptions :=
  { dropFields := union primary.dropFields fallback.dropFields
    dropAfterProcessingFields :=
      union primary.dropAfterProcessingFields fallback.dropAfterProcessingFields
    parentField := primary.parentField <|> fallback.parentField
    parentType := primary.parentType <|> fallback.parentType
    includeParentFields := primary.includeParentFields <|> fallback.includeParentFields
    custom := primary.custom <|> fallback.custom
    isAbstract := primary.isAbstract <|> fallback.isAbstract
    rename := union primary.rename fallback.rename
    coalesceFields := union primary.coalesceFields fallback.coalesceFields
    flattenFields := union primary.flattenFields fallback.flattenFields
    flattenPrefixes := union primary.flattenPrefixes fallback.flattenPrefixes
    arrayFields := union primary.arrayFields fallback.arrayFields
    manyToManyFields := union primary.manyToManyFields fallback.manyToManyFields
    manyToManyOverrides := union primary.manyToManyOverrides fallback.manyToManyOverrides
    oneToManyFields := union primary.oneToManyFields fallback.oneToManyFields
    oneToManyOverrides := union primary.oneToManyOverrides fallback.oneToManyOverrides
    oneToOneFields := union primary.oneToOneFields fallback.oneToOneFields
    jsonFields := union primary.jsonFields fallback.jsonFields
    foreignKeyOverrides := union primary.foreignKeyOverrides fallback.foreignKeyOverrides
    referenceExtensionFields :=
      union primary.referenceExtensionFields fallback.referenceExtensionFields
    nullFields := union primary.nullFields fallback.nullFields
    primaryKey := primary.primaryKey <|> fallback.primaryKey
    uniqueFields := union primary.uniqueFields fallback.uniqueFields
    indexFields := union primary.indexFields fallback.indexFields
    kindOverrides := union primary.kindOverrides fallback.kindOverrides
    fieldOptions := union primary.fieldOptions fallback.fieldOptions
    fieldDocs := union primary.fieldDocs fallback.fieldDocs
    addFields := union primary.addFields fallback.addFields
    numberField := primary.numberField <|> fallback.numberField
    matchFields :=
      if primary.matchFields.isEmpty then fallback.matchFields else primary.matchFields
    ignoreMergeMismatchFields :=
      union primary.ignoreMergeMismatchFields fallback.ignoreMergeMismatchFields }

end EntityOptions

/-- Options for the types whose path matches a pattern. -/
structure TypeOverlay where
  pattern : String
  options : EntityOptions
  deriving DecidableEq, Repr, Inhabited

/-- The options of one entity. -/
structure EntityRules where
  name : String
  options : EntityOptions
  overlays : List TypeOverlay
  deriving DecidableEq, Repr, Inhabited

/-- The scalar that stands in for a named simple type. -/
structure TypeOverride where
  typeName : String
  kind : ScalarKind
  maxLength : Option Nat
  maxDigits : Option Nat
  decimalPlaces : Option Nat
  deriving DecidableEq, Repr, Inhabited

/-- The limits and names of a compilation. -/
structure CompilerSettings where
  /-- The types to start from; `/name` selects a top-level element. -/
  roots : List String
  /-- By how much lengths are multiplied. -/
  maxLengthFactor : Nat
  /-- The length above which bounded text becomes unbounded. -/
  textThreshold : Nat
  /-- The longest name of a field. -/
  identifierLimit : Nat
  /-- The name of the field that keeps the bag of opaque content. -/
  bagFieldName : String
  deriving DecidableEq, Repr

def CompilerSettings.standard : CompilerSettings := ⟨[], 1, 500, 63, "attrs"⟩

instance : Inhabited CompilerSettings := ⟨.standard⟩

structure Settings where
  compiler : CompilerSettings
  /-- Naming rules; the first that matches counts. -/
  typeMap : List NamingRule
  /-- The options of all entities. -/
  global : EntityOptions
  entities : List EntityRules
  typeOverrides : List TypeOverride
  deriving DecidableEq, Repr

namespace Settings

def standard : Settings := ⟨.standard, [], .none, [], []⟩

instance : Inhabited Settings := ⟨standard⟩

/-- The rules of an entity. -/
def entityRules? (settings : Settings) (entity : String) : Option EntityRules :=
  settings.entities.find? (·.name == entity)

/-- The scalar that stands in for a type. -/
def typeOverride? (settings : Settings) (typeName : String) : Option TypeOverride :=
  settings.typeOverrides.find? (·.typeName == typeName)

/-- The same settings with other roots. -/
def withRoots (settings : Settings) (roots : List String) : Settings :=
  { settings with compiler := { settings.compiler with roots } }

end Settings

end EntityGraph
