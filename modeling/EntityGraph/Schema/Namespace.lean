import EntityGraph.Schema.Document
import EntityGraph.Table

/-!
# Canonical names

A name whose prefix is bound to the default namespace means the same as the name without prefix.
The canonical form leaves such a prefix out; built-in names and all others stay as they are.
-/
namespace EntityGraph.Schema

/-- The namespace names of a document by prefix. -/
abbrev Namespaces := Table String

namespace Namespaces

def canonical (table : Namespaces) (name : String) : String :=
  match Text.cut? ':' name with
  | none => name
  | some (space, localName) =>
    if space = "xs" then name
    else
      match table.get? space, table.get? "" with
      | some uri, some default => if uri = default then localName else name
      | _, _ => name

end Namespaces

end EntityGraph.Schema
