import EntityGraph.Entity.Field
import EntityGraph.Text.Documentation

/-!
# Bags

A bag keeps the documentation of opaque content by path. Bags are written out as one text with a
line for every entry. When two bags are merged, the documentation of a common path consists of the
parts of both, separated by bars.
-/
namespace EntityGraph.Bag

/-- The line of an entry. -/
def line (path doc : String) : String :=
  if doc.isEmpty then "\n" ++ path else "\n" ++ path ++ " [" ++ doc ++ "]"

/-- The documentation of the field that holds a bag. -/
def documentation (entries : Bag) : String :=
  "JSON attributes:" ++ String.join (entries.map fun (path, doc) => line path doc)

/-- The parts of two documentation texts together. -/
def joinDocs (old new : String) : String :=
  let parts := (Text.split '|' old ++ Text.split '|' new).filter (!·.isEmpty)
  "|".intercalate (Text.Documentation.squeeze parts)

/-- Adds an entry; a path that is there already keeps its documentation as well. -/
def addEntry (entries : Bag) (path doc : String) : Bag :=
  match entries.get? path with
  | some old => entries.set path (joinDocs old doc)
  | none => entries.set path doc

/-- The entries of both bags. -/
def merge (entries other : Bag) : Bag :=
  other.foldl (fun known (path, doc) => addEntry known path doc) entries

/-- The entries of both bags, where those of the second replace those of the first. -/
def override (entries other : Bag) : Bag :=
  other.foldl (fun known (path, doc) => known.set path doc) entries

end EntityGraph.Bag
