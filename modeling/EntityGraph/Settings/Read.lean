import EntityGraph.Error
import EntityGraph.Settings.Codec
import EntityGraph.Toml.Reader

/-!
# Settings documents

Settings as one TOML document or as one JSON value, without layers.
-/
namespace EntityGraph.Settings

/-- A date or time in a document is a record of its own, not a text. -/
def momentRecord (text : String) : Json := .obj [("moment", .str text)]

/-- Reads a TOML document. -/
def ofToml (text : String) : Result Settings :=
  match Toml.parse? text with
  | none => .error .malformedToml
  | some value =>
    match ofJson .exact (value.toJson momentRecord) with
    | .ok settings => .ok settings
    | .error _ => .error .malformedToml

/-- Reads a JSON value. -/
def ofJsonValue (value : Json) : Result Settings :=
  match ofJson .exact value with
  | .ok settings => .ok settings
  | .error _ => .error .malformedJson

end EntityGraph.Settings
