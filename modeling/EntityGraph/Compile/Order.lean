import EntityGraph.Diagnostic
import EntityGraph.Entity.Basic
import EntityGraph.Error

/-!
# Emission order

Entities are emitted depth first in the order of their names, each one after what it depends on. An
inheritance link or a reference that may not be null has to be satisfied; a cycle of such
dependencies is an error. Any other dependency is skipped if its target needs an entity that is
still waiting.
-/
namespace EntityGraph.Compile

/-- The names of `known`, and those of `more` that are not among them. -/
def joinNames (known more : List String) : List String :=
  more.foldl (fun all name => if all.contains name then all else all ++ [name]) known

/-- What an entity has to come after. -/
def requiredOf (entities : Table Entity) (name : String) : List String :=
  ((entities.get? name).map Entity.requiredDependencies).getD []

/-- Names, and all that they require, over at most the given number of steps. -/
def requiredClosure (entities : Table Entity) : Nat → List String → List String
  | 0, names => names
  | steps + 1, names =>
    let more := joinNames names (names.flatMap (requiredOf entities))
    if more.length = names.length then names else requiredClosure entities steps more

/-- All that an entity requires, directly or not. No chain of requirements needs more steps than
there are entities. -/
def requiredBelow (entities : Table Entity) (name : String) : List String :=
  requiredClosure entities entities.length (requiredOf entities name)

/-! ## Cycles -/

/-- Whether an entity requires itself. -/
def isCyclic (entities : Table Entity) (name : String) : Bool :=
  (requiredBelow entities name).contains name

/-- The entities that require `name` and are required by it, in name order. -/
def cycleThrough (entities : Table Entity) (name : String) : List String :=
  entities.names.filter fun other =>
    (requiredBelow entities name).contains other && (requiredBelow entities other).contains name

/-- The cycle with the smallest name, if there is one. -/
def requiredCycle? (entities : Table Entity) : Option (List String) :=
  (entities.names.find? (isCyclic entities)).map (cycleThrough entities)

/-! ## The walk -/

/-- What has been emitted so far, and the notices. -/
structure Emission where
  names : List String
  notices : Diagnostics
  deriving Inhabited

def Emission.emit (emission : Emission) (name : String) : Emission :=
  { emission with names := emission.names ++ [name] }

def Emission.notice (emission : Emission) (notice : Diagnostic) : Emission :=
  { emission with notices := emission.notices ++ [notice] }

/-- A dependency that no entity has. -/
def neverBuilt (name target : String) : Diagnostic :=
  .plain name .unresolvedDependency (name ++ " depends on " ++ target ++ ", which was never built")

/-- Whether an entity requires one of those that are waiting. -/
def requiresAny (entities : Table Entity) (waiting : List String) (name : String) : Bool :=
  (requiredBelow entities name).any waiting.contains

/-- Emits an entity after what it depends on. `waiting` holds the entities whose dependencies are
being emitted; none occurs twice there, so the number of entities bounds the depth. -/
def visit (entities : Table Entity) : Nat → List String → String → Emission → Emission
  | 0, _, _, emission => emission
  | depth + 1, waiting, name, emission =>
    if emission.names.contains name || waiting.contains name then emission
    else
      let dependencies := ((entities.get? name).map (·.dependencies)).getD []
      let step (emission : Emission) (target : String) : Emission :=
        if target = name then emission
        else if !entities.has target then emission.notice (neverBuilt name target)
        else if (requiredOf entities name).contains target
            || !requiresAny entities (name :: waiting) target then
          visit entities depth (name :: waiting) target emission
        else emission
      (dependencies.foldl step emission).emit name

/-- The names of the entities in the order of emission, and the notices. -/
def emission (entities : Table Entity) : Emission :=
  entities.names.foldl
    (fun emission name => visit entities (entities.length + 1) [] name emission) ⟨[], []⟩

/-- The entities in the order of emission, and the notices. -/
def emissionOrder (entities : List Entity) : Result (List Entity × Diagnostics) :=
  let table : Table Entity := .ofList (entities.map fun entity => (entity.name, entity))
  match requiredCycle? table with
  | some names => .error (.dependencyCycle names)
  | none =>
    let emission := emission table
    .ok (emission.names.filterMap table.get?, emission.notices)

end EntityGraph.Compile
