import EntityGraph.Entity.Field
import EntityGraph.Text.Basic

/-!
# Entities

A relational type: fields, an optional parent it inherits from, and what follows from both. The
other entities it depends on are its parent and the targets of its outgoing references; those that
must exist before it are its parent and the targets of references that may not be null.
-/
namespace EntityGraph

/-- The libraries that a rendering of an entity needs. -/
structure Imports where
  decimal : Bool
  date : Bool
  deriving DecidableEq, Repr, Inhabited

structure Entity where
  name : String
  /-- The type paths that it was built from. -/
  sourceTypes : List String
  parent : Option String
  fields : List Field
  isAbstract : Bool
  documentation : List String
  /-- The entities it depends on, in order of their names. -/
  dependencies : List String
  numberField : Option String
  matchFields : List String
  imports : Imports
  deriving BEq, Repr, Inhabited

/-- Adds a text to a sorted list without repetitions. -/
def insertDistinct (text : String) : List String → List String
  | [] => [text]
  | first :: rest =>
    if text < first then text :: first :: rest
    else if text = first then first :: rest
    else first :: insertDistinct text rest

namespace Entity

/-- An entity of one type path, without fields. -/
def ofTypePath (name typePath : String) : Entity :=
  ⟨name, [typePath], none, [], false, [], [], none, [], ⟨false, false⟩⟩

/-- The first materialized field of a name. -/
def field? (entity : Entity) (name : String) : Option Field :=
  entity.fields.find? fun field => field.name == name && field.isMaterialized

/-- The first field of a name and path, whatever its kind. -/
def fieldAt? (entity : Entity) (name dottedPath : String) : Option Field :=
  entity.fields.find? fun field => field.name == name && field.dottedPath == dottedPath

def materializedFields (entity : Entity) : List Field := entity.fields.filter Field.isMaterialized

/-- Changes the first materialized field of a name. -/
def modifyField (name : String) (change : Field → Field) (entity : Entity) : Entity :=
  let rec go : List Field → List Field
    | [] => []
    | field :: rest =>
      if field.name == name && field.isMaterialized then change field :: rest
      else field :: go rest
  { entity with fields := go entity.fields }

/-- The target of a reference that may not be null. -/
def requiredTarget? (field : Field) : Option String :=
  match field.kind with
  | .toOne target .. => if field.nullable then none else some target
  | _ => none

/-- What must be emitted before the entity: its parent and the targets of its non-nullable
references, itself left out, in order of their names. -/
def requiredDependencies (entity : Entity) : List String :=
  let all := entity.parent.toList ++ entity.fields.filterMap requiredTarget?
  (all.foldl (fun known name => insertDistinct name known) []).filter (· ≠ entity.name)

/-- The names that the fields and the parent bring in. -/
def referredNames (entity : Entity) : List String :=
  entity.fields.filterMap (fun field => field.kind.dependency?) ++ entity.parent.toList

/-- Adds what the fields and the parent depend on to the dependencies, and recomputes the
imports. -/
def close (entity : Entity) : Entity :=
  let reprs := entity.fields.filterMap fun field => field.kind.repr?
  { entity with
    dependencies :=
      entity.referredNames.foldl (fun known name => insertDistinct name known) entity.dependencies
    imports := ⟨reprs.any (·.kind == .decimal), reprs.any ScalarRepr.isTemporal⟩ }

end Entity

end EntityGraph
