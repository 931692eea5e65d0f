import EntityGraph.Text.Closest
import EntityGraph.Schema.Document

/-!
# Errors

What stops a compilation. Each constructor carries the facts; `message` is the only place where
they become text.
-/
namespace EntityGraph

/-- Why a file cannot be read or written. -/
inductive FileFailure where
  | notFound
  | permissionDenied
  | notDirectory
  | isDirectory
  | nameTooLong
  /-- A path with a character of code zero. -/
  | zeroInName
  | invalidUnicode
  | other (message : String)
  deriving DecidableEq, Repr, Inhabited

def FileFailure.message : FileFailure → String
  | notFound => "No such file or directory (os error 2)"
  | permissionDenied => "Permission denied (os error 13)"
  | notDirectory => "Not a directory (os error 20)"
  | isDirectory => "Is a directory (os error 21)"
  | nameTooLong => "File name too long (os error 36)"
  | zeroInName => "file name contained an unexpected NUL byte"
  | invalidUnicode => "stream did not contain valid UTF-8"
  | other message => message

inductive Error where
  /-- A name that no declaration has, and the known name closest to it. -/
  | unresolvedType (name : String) (closest : Option String)
  | cyclicReference (chain : List String)
  | duplicateEntity (entity typePath existing : String)
  | duplicateField (entity field : String)
  /-- An element that repeats, and no rule that says what to make of it. -/
  | cardinality (path : String) (most : Schema.MaxOccurs) (typeName : String)
  | mergeMismatch (entity path firstType secondType diff : String)
  | nullablePrimaryKey (entity field : String)
  | dependencyCycle (entities : List String)
  | identifierTooLong (path name : String) (limit : Nat)
  | emptyFlatten (path typeName : String)
  | notComplexType (path relation : String)
  | notSimpleType (path : String)
  | differentParents (parents types : List String)
  | missingParent (entity parent : String) (types : List String)
  | invalidDefault (path value base : String)
  | invalidPattern (pattern : String)
  | missingParentField (typePath field : String)
  /-- Types that are inside each other without end. -/
  | endlessNesting (typePath : String)
  /-- Documents that import further documents without end. -/
  | endlessImports (location : String)
  | file (failure : FileFailure)
  /-- A text or value that is not JSON of the expected form. -/
  | malformedJson
  /-- A text that is not TOML of the expected form. -/
  | malformedToml
  /-- Layered settings that cannot be read. -/
  | settings (reason : String)
  deriving DecidableEq, Repr, Inhabited

namespace Error

/-- An unknown name, with the closest of the known ones. -/
def unresolved (name : String) (known : List String) : Error :=
  .unresolvedType name (Text.Closest.best? name known)

def message : Error → String
  | unresolvedType name closest =>
    "Unresolved type: " ++ name ++
      match closest with
      | some candidate => " (did you mean " ++ candidate ++ "?)"
      | none => ""
  | cyclicReference chain => "Cyclic group reference: " ++ " -> ".intercalate chain
  | duplicateEntity entity typePath existing =>
    "Entity " ++ entity ++ " already exists (from " ++ existing ++ "); type " ++ typePath
      ++ " maps to it without merge permission"
  | duplicateField entity field => "Field " ++ field ++ " declared twice in entity " ++ entity
  | cardinality path most typeName =>
    "Caught maxOccurs=" ++ most.text ++ " in " ++ path ++ " (@type=" ++ typeName
      ++ "). Consider adding it to many_to_many_fields, one_to_many_fields, array_fields, or "
      ++ "json_fields"
  | mergeMismatch entity path firstType secondType diff =>
    "Unmergeable field " ++ path ++ " in entity " ++ entity ++ ": " ++ firstType ++ " and "
      ++ secondType ++ " differ\n" ++ diff
  | nullablePrimaryKey entity field =>
    entity ++ "." ++ field ++ " is a primary key but would be nullable"
  | dependencyCycle entities =>
    "Required dependency cycle between entities: " ++ ", ".intercalate entities
  | identifierTooLong path name limit =>
    name ++ " (" ++ path ++ ") exceeds the " ++ toString limit ++ " character identifier limit"
  | emptyFlatten path typeName =>
    "Flattening " ++ path ++ " (type " ++ typeName ++ ") produced no fields"
  | notComplexType path relation =>
    relation ++ " field " ++ path ++ ": content is not a complex type"
  | notSimpleType path => "Array field " ++ path ++ ": items are not a simple type"
  | differentParents parents types =>
    "Different parents " ++ ", ".intercalate parents ++ " for types " ++ "; ".intercalate types
  | missingParent entity parent types =>
    "Entity " ++ entity ++ " (types " ++ "; ".intercalate types ++ ") derives from " ++ parent
      ++ ", which is not merged yet"
  | invalidDefault path value base =>
    "Cannot parse default value '" ++ value ++ "' of " ++ path ++ " as " ++ base
  | invalidPattern pattern => "Invalid rule pattern '" ++ pattern ++ "'"
  | missingParentField typePath field =>
    "parent_field " ++ field ++ " is set for " ++ typePath ++ " but no such element exists"
  | endlessNesting typePath => "Types nested without end in " ++ typePath
  | endlessImports location => "Imports without end in " ++ location
  | file failure => "IO error: " ++ failure.message
  | malformedJson => "JSON error"
  | malformedToml => "TOML error"
  | settings reason => "Configuration error: " ++ reason

end Error

/-- The result of anything that can fail. -/
abbrev Result (α : Type) := Except Error α

end EntityGraph
