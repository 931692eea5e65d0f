import EntityGraph.Files.Tree
import EntityGraph.Schema.Codec
import EntityGraph.Schema.Namespace
import EntityGraph.Schema.Qualify

/-!
# Loading schemas

A schema is spread over documents that import each other. Loading makes one document of them: the
imports of a document are inlined breadth first, each place once, so that a cycle of imports ends.
All locations are seen from the directory of the document where the loading began. When that
document has a prefix for the namespace of an import, the names of the import get it, and no
further import is inlined under the same prefix.

The rounds of inlining are bounded by the number of files: every round but the last takes in a
place that no round before it has taken in.
-/
namespace EntityGraph

namespace Schema

namespace Document

/-- The first prefix, apart from the empty one, that is bound to a namespace. -/
def spaceOf? (document : Document) (uri : String) : Option String :=
  (document.namespaces.find? fun entry => entry.1 != "" && entry.2 == uri).map (·.1)

/-- Binds a prefix that is not bound yet. -/
def bindSpace (table : Namespaces) (entry : String × String) : Namespaces :=
  if Table.has table entry.1 then table else Table.set entry.1 entry.2 table

/-- Adds the declarations of another document. A prefix keeps the namespace that it has; what the
other document imports is not taken over. -/
def merge (document other : Document) : Document :=
  { document with
    namespaces := other.namespaces.foldl bindSpace document.namespaces
    complexTypes := document.complexTypes ++ other.complexTypes
    simpleTypes := document.simpleTypes ++ other.simpleTypes
    elements := document.elements ++ other.elements
    attributes := document.attributes ++ other.attributes
    attributeGroups := document.attributeGroups ++ other.attributeGroups
    groups := document.groups ++ other.groups }

end Document

/-- A document while imports are inlined into it. -/
structure Inlining where
  document : Document
  /-- The prefixes under which something has been inlined. -/
  spaces : List String
  /-- The places that have been read. -/
  places : List String
  /-- The imports of the documents that were inlined in this round. -/
  pending : List Import

namespace Inlining

/-- Starts with the imports of a document, after some places have been read. -/
def start (document : Document) (places : List String) : Inlining :=
  { document := { document with imports := [] }, spaces := [], places, pending := document.imports }

/-- Adds a document, under a prefix if there is one. -/
def add (state : Inlining) (space : Option String) (sub : Document) : Inlining :=
  let qualified := match space with
    | some space => sub.qualify space
    | none => sub
  { state with
    document := state.document.merge qualified
    pending := state.pending ++ sub.imports }

end Inlining

variable {m : Type → Type} [Monad m]

/-- Reads the document at a path. -/
def readDocument (files : FileAccess m) (path : String) : ExceptT Error m Document := do
  match ← files.read path with
  | .error failure => throw (.file failure)
  | .ok text => liftExcept (Document.ofText text)
where
  liftExcept (result : Result Document) : ExceptT Error m Document := ExceptT.mk (pure result)

/-- Inlines one import, unless its prefix or its place is taken. -/
def inlineImport (files : FileAccess m) (base : String) (state : Inlining) (entry : Import) :
    ExceptT Error m Inlining := do
  let space := entry.space.bind state.document.spaceOf?
  if space.any state.spaces.contains then return state
  let state := { state with spaces := space.toList ++ state.spaces }
  let path := Path.join base entry.location
  let place ← files.place? path
  if place.any state.places.contains then return state
  let sub ← readDocument files path
  return { state with places := place.toList ++ state.places }.add space sub

/-- Inlines the pending imports round by round. -/
def inlineRounds (files : FileAccess m) (base : String) : Nat → Inlining →
    ExceptT Error m Inlining
  | 0, state => if state.pending.isEmpty then return state else throw (.endlessImports base)
  | rounds + 1, state =>
    if state.pending.isEmpty then return state
    else do
      let next ← state.pending.foldlM (inlineImport files base) { state with pending := [] }
      inlineRounds files base rounds next

/-- Reads the document at a path and inlines its imports, apart from the places that have been
read before. -/
def loadBelow (files : FileAccess m) (path : String) (places : List String) :
    ExceptT Error m Inlining := do
  let document ← readDocument files path
  inlineRounds files (Path.parent path) (files.limit + 1) (.start document places)

/-- Loads the document at a path with everything that it imports. -/
def loadFile (files : FileAccess m) (path : String) : ExceptT Error m Document := do
  let place ← files.place? path
  return (← loadBelow files path place.toList).document

/-- The places that the document at a path imports. -/
def importedPlaces (files : FileAccess m) (path : String) : ExceptT Error m (List String) := do
  let document ← readDocument files path
  let places ← document.imports.mapM fun entry =>
    (files.place? (Path.join (Path.parent path) entry.location) : ExceptT Error m (Option String))
  return places.filterMap id

/-- The documents below a directory, in path order. -/
def documentPaths (files : FileAccess m) (directory : String) : m (List String) := do
  let paths ← files.listing directory
  return (paths.filter fun path => Path.extension? path == some "json").mergeSort Path.le

/-- Adds the document at a path to a merged one, unless its place has been read or is imported. -/
def addEntry (files : FileAccess m) (imported : List String) (merged : Document × List String)
    (path : String) : ExceptT Error m (Document × List String) := do
  let place ← files.place? path
  if place.any fun place => imported.contains place || merged.2.contains place then return merged
  let loaded ← loadBelow files path (place.toList ++ merged.2)
  return (merged.1.merge loaded.document, loaded.places)

/-- Loads the documents at some paths, one after the other. A document that another one imports is
part of it and does not stand for itself. -/
def loadPaths (files : FileAccess m) (paths : List String) : ExceptT Error m Document := do
  let imported ← paths.mapM (importedPlaces files)
  let (document, _) ← paths.foldlM (addEntry files imported.flatten) (default, [])
  return document

/-- Loads all documents below a directory. -/
def loadDirectory (files : FileAccess m) (directory : String) : ExceptT Error m Document := do
  let paths : List String ← (documentPaths files directory : m (List String))
  loadPaths files paths

end Schema

/-- Loads a document and what it imports from a tree. -/
def FileTree.loadFile (tree : FileTree) (path : String) : Result Schema.Document :=
  Id.run (Schema.loadFile tree.access path).run

/-- Loads the documents below a directory of a tree. -/
def FileTree.loadDirectory (tree : FileTree) (path : String) : Result Schema.Document :=
  Id.run (Schema.loadDirectory tree.access path).run

end EntityGraph
