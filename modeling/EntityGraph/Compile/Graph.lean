import EntityGraph.Compile.Build
import EntityGraph.Compile.Merge
import EntityGraph.Compile.Order
import EntityGraph.Entity.Fingerprint

/-!
# Compilation

Builds the entities of everything that the roots lead to, merges those that share a name, and puts
them into the order of emission. A build that needs more levels than it is given is cut off; any
other gives what it would give with more.
-/
namespace EntityGraph

/-- The outcome of a compilation. -/
structure Graph where
  /-- The entities, each one after what it requires. -/
  entities : List Entity
  diagnostics : Diagnostics
  deriving Inhabited

namespace Graph

def entity? (graph : Graph) (name : String) : Option Entity :=
  graph.entities.find? (·.name == name)

/-- The place of an entity in the order of emission. -/
def position? (graph : Graph) (name : String) : Option Nat :=
  graph.entities.findIdx? (·.name == name)

def fingerprint (graph : Graph) : Fingerprint := .ofEntities graph.entities

/-- The entities as readable text. -/
def text (graph : Graph) : String := (Entity.listToJson graph.entities).pretty

end Graph

namespace Compile

/-- Builds the entities of the roots. -/
def buildRoots (context : Context) (levels : Nat) (roots : List (String × Schema.ComplexType)) :
    Walk Unit :=
  roots.forM fun (path, type) => do
    let _ ← (onward context levels).build path (some type) []

/-- Builds the entities of everything that the roots of the settings lead to, by the rules of the
settings. -/
def build (index : Schema.Index) (settings : Settings)
    (levels : Nat := levelBound index settings) : Result (RuleBook × State) := do
  let resolver ← NameResolver.ofRules settings.typeMap
  let book ← RuleBook.ofSettings settings
  let roots ← settings.compiler.roots.mapM index.resolveRoot
  let context : Context := ⟨index, settings, book, roots.map (·.1)⟩
  let ((), state) ← (buildRoots context levels roots).run (.start resolver)
  return (book, state)

/-- The graph of what has been built. -/
def finish (book : RuleBook) (state : State) : Result Graph := do
  let merged ← mergeEntities book (state.entities.map (·.2))
  let (entities, notices) ← emissionOrder merged
  return ⟨entities, state.notices ++ notices⟩

end Compile

open Compile in
/-- Compiles everything that the roots of the settings lead to. -/
def compile (index : Schema.Index) (settings : Settings)
    (levels : Nat := levelBound index settings) : Result Graph := do
  let (book, state) ← build index settings levels
  finish book state

end EntityGraph
