import EntityGraph.Compile.Bag
import EntityGraph.Compile.Naming
import EntityGraph.Compile.Rules
import EntityGraph.Entity.Basic
import EntityGraph.Scalar.Derive

/-!
# The state of a compilation

What a compilation knows from the start, what it builds up, and the small steps that everything else
consists of. A step may fail, and then the whole compilation does.
-/
namespace EntityGraph.Compile

open Schema (ComplexType Index)

/-- What is given from the start. -/
structure Context where
  index : Index
  settings : Settings
  book : RuleBook
  /-- The type paths of the roots. -/
  roots : List String

/-- What has been built so far. -/
structure State where
  resolver : NameResolver
  /-- The derived scalars, and all notices. -/
  scalars : Scalar.State
  /-- The entities by type path. -/
  entities : Table Entity
  /-- The bags by type path, until they become fields. -/
  bags : Table Bag
  /-- The number of choices met. -/
  choices : Nat
  deriving Inhabited

/-- A step of the compilation. -/
abbrev Walk (α : Type) := StateT State Result α

namespace State

def start (resolver : NameResolver) : State := ⟨resolver, .empty, [], [], 0⟩

def notices (state : State) : Diagnostics := state.scalars.diagnostics

/-- Whether the entity of a type path exists or is being built. -/
def isBuilt (state : State) (path : String) : Bool := state.entities.has path

/-- The first entity of a name, in the order of type paths. -/
def entityNamed? (state : State) (name : String) : Option Entity :=
  (state.entities.find? (·.2.name == name)).map (·.2)

def addNotices (state : State) (notices : Diagnostics) : State :=
  { state with scalars := { state.scalars with
      diagnostics := state.scalars.diagnostics ++ notices } }

end State

/-- What is known about the place of an element or attribute. -/
structure Scope where
  /-- The type path of the entity that receives the fields. -/
  typePath : String
  entity : String
  rules : FieldRules
  /-- The path of the flattened ancestors: empty, or ending with a dot. -/
  ancestors : String
  /-- What the documentation of flattened ancestors puts in front. -/
  docStart : String
  /-- Whether something around the place is optional. -/
  nullable : Bool
  choiceGroup : Option Nat

namespace Scope

/-- The outermost place of a type. -/
def outermost (typePath entity : String) (rules : FieldRules) : Scope :=
  ⟨typePath, entity, rules, "", "", false, none⟩

/-- The name of a field: the path with underscores for dots. -/
def fieldName (scope : Scope) (localName : String) : String :=
  String.ofList (scope.ancestors.toList.map fun c => if c = '.' then '_' else c) ++ localName

/-- The path of a member in messages, and of the type inside it. -/
def memberPath (scope : Scope) (name : String) : String := scope.typePath ++ "." ++ name

/-- The place inside a flattened element. -/
def flattened (scope : Scope) (dottedPath doc : String) (nullable : Bool) : Scope :=
  { scope with ancestors := dottedPath ++ ".", docStart := doc ++ "::", nullable }

end Scope

/-! ## Steps -/

/-- Gives a notice. -/
def notify (notice : Diagnostic) : Walk Unit := modify (·.addNotices [notice])

/-- Names a type path. -/
def resolveName (path : String) : Walk ResolvedName := do
  let state ← get
  let (name, notices, resolver) := state.resolver.resolve path
  set { state.addNotices notices with resolver }
  return name

/-- The number of the next choice. -/
def nextChoice : Walk Nat :=
  modifyGet fun state => (state.choices + 1, { state with choices := state.choices + 1 })

/-- Derives a scalar. -/
def deriveScalar (derive : Scalar.State → Scalar.Derivation) : Walk ScalarRepr := do
  let state ← get
  match derive state.scalars with
  | (.ok repr, scalars) => set { state with scalars }; return repr
  | (.error failure, _) => throw failure

/-- The scalar of a named type. -/
def namedScalar (context : Context) (name : String) : Walk ScalarRepr :=
  deriveScalar (Scalar.named ⟨context.index, context.settings⟩ name)

/-- The entity of a type path. -/
def entityAt (context : Context) (path : String) : Walk Entity := do
  match (← get).entities.get? path with
  | some entity => return entity
  | none => throw (.unresolved path context.index.complexTypes.names)

/-- Changes the entity of a type path. -/
def modifyEntity (context : Context) (path : String) (change : Entity → Entity) : Walk Unit := do
  let entity ← entityAt context path
  modify fun state => { state with entities := state.entities.set path (change entity) }

/-- Puts entries into the bag of a type path, in place of those of the same keys. -/
def addToBag (path : String) (entries : Bag) : Walk Unit :=
  modify fun state =>
    let bag := (state.bags.get? path).getD []
    { state with bags := state.bags.set path (bag.override entries) }

/-- Takes the bag of a type path. -/
def takeBag (path : String) : Walk (Option Bag) :=
  modifyGet fun state => (state.bags.get? path, { state with bags := state.bags.erase path })

/-- The number of fields and bag entries of a type path. -/
def produced (path : String) : Walk Nat := do
  let state ← get
  return ((state.entities.get? path).map (·.fields.length)).getD 0
    + ((state.bags.get? path).map List.length).getD 0

end EntityGraph.Compile
