import EntityGraph.Json.Decode

/-!
# Diagnostics

Notices that a compilation collects on its way. None of them stops it: what would make a wrong
graph is an error instead. A notice has a code, which fixes its severity, the path of the thing it
is about, a message, and further lines of context.
-/
namespace EntityGraph

inductive Severity where
  | info
  | warning
  deriving DecidableEq, Repr, Inhabited

def Severity.text : Severity → String
  | info => "info"
  | warning => "warning"

/-- What a notice is about. -/
inductive DiagnosticCode where
  /-- No naming rule matched, so the name was made from the path. -/
  | autoNamedEntity
  /-- A relation to many was asked for where nothing repeats without bound. -/
  | assumedUnbounded
  /-- The target of a relation was never built. -/
  | unresolvedDependency
  /-- A flattened type turned out to wrap a scalar. -/
  | flattenReinterpreted
  /-- Flattening was asked for where there is no complex type. -/
  | flattenWithoutComplexType
  /-- A reference extension was asked for where the type extends nothing. -/
  | referenceExtensionFallback
  /-- An extension adds nothing to its base. -/
  | emptyExtension
  /-- A complex type has neither content nor a base. -/
  | missingContent
  /-- A built-in type has no scalar of its own. -/
  | unknownBuiltin
  deriving DecidableEq, Repr, Inhabited

namespace DiagnosticCode

def all : List DiagnosticCode :=
  [autoNamedEntity, assumedUnbounded, unresolvedDependency, flattenReinterpreted,
    flattenWithoutComplexType, referenceExtensionFallback, emptyExtension, missingContent,
    unknownBuiltin]

/-- The short code in reports. -/
def number : DiagnosticCode → String
  | autoNamedEntity => "W001"
  | assumedUnbounded => "W002"
  | unresolvedDependency => "W003"
  | flattenReinterpreted => "W004"
  | flattenWithoutComplexType => "W005"
  | referenceExtensionFallback => "W006"
  | emptyExtension => "W007"
  | missingContent => "W008"
  | unknownBuiltin => "W009"

/-- The name in serialized reports. -/
def name : DiagnosticCode → String
  | autoNamedEntity => "AutoNamedEntity"
  | assumedUnbounded => "AssumedUnbounded"
  | unresolvedDependency => "UnresolvedDependency"
  | flattenReinterpreted => "FlattenReinterpreted"
  | flattenWithoutComplexType => "FlattenWithoutComplexType"
  | referenceExtensionFallback => "ReferenceExtensionFallback"
  | emptyExtension => "EmptyExtension"
  | missingContent => "MissingContent"
  | unknownBuiltin => "UnknownBuiltin"

def ofName? (text : String) : Option DiagnosticCode := all.find? (·.name == text)

def severity : DiagnosticCode → Severity
  | emptyExtension | flattenReinterpreted => .info
  | _ => .warning

def ofJson : Json → Decoded DiagnosticCode
  | .str text | .obj [(text, .null)] =>
    match ofName? text with
    | some code => .ok code
    | none => .error (.unexpected "a diagnostic code")
  | _ => .error (.unexpected "a diagnostic code")

end DiagnosticCode

/-- One notice. -/
structure Diagnostic where
  path : String
  code : DiagnosticCode
  message : String
  context : List String
  deriving DecidableEq, Repr, Inhabited

/-- The characters that have a meaning in patterns. -/
def patternSpecials : List Char := "\\.+*?()|[]\x7b\x7d^$#&-~".toList

/-- A pattern that matches exactly the given text. -/
def escapePattern (text : String) : String :=
  String.ofList (text.toList.flatMap fun c => if patternSpecials.contains c then ['\\', c] else [c])

namespace Diagnostic

/-- A notice without context. -/
def plain (path : String) (code : DiagnosticCode) (message : String) : Diagnostic :=
  ⟨path, code, message, []⟩

/-- An entity got its name from its type path. -/
def autoNamed (typePath entity : String) : Diagnostic :=
  ⟨typePath, .autoNamedEntity, "Automatic entity name: " ++ entity,
    ["Consider adding [[type_map]] pattern = \"" ++ escapePattern typePath
      ++ "\" to the configuration"]⟩

/-- A relation is taken to repeat without bound. -/
def assumedUnbounded (path : String) : Diagnostic :=
  plain path .assumedUnbounded "no maxOccurs=unbounded found, pretending it's unbounded"

def severity (self : Diagnostic) : Severity := self.code.severity

/-- The lines of a notice in a report. -/
def text (self : Diagnostic) : String :=
  "[" ++ self.code.number ++ "] " ++ self.severity.text ++ ": " ++ self.message ++ " (" ++ self.path
    ++ ")" ++ String.join (self.context.map ("\n  - " ++ ·))

def toJson (self : Diagnostic) : Json :=
  .obj ([
    ("path", .str self.path),
    ("code", .str self.code.name),
    ("message", .str self.message)] ++
    if self.context.isEmpty then [] else [("context", .ofStrings self.context)])

def ofJson (value : Json) : Decoded Diagnostic := do
  let record ← Json.Record.ofJson ["path", "code", "message", "context"] value
  return {
    path := ← record.required "path" Json.asString
    code := ← record.required "code" DiagnosticCode.ofJson
    message := ← record.required "message" Json.asString
    context := ← record.defaulted "context" [] (Json.asList Json.asString) }

end Diagnostic

/-- The notices of one compilation, in the order in which they arose. -/
abbrev Diagnostics := List Diagnostic

namespace Diagnostics

def warningCount (self : Diagnostics) : Nat :=
  (self.filter (·.severity == .warning)).length

def hasWarnings (self : Diagnostics) : Bool := self.any (·.severity == .warning)

/-- All notices, and a last line with the number of warnings unless there is no notice at all. -/
def report (self : Diagnostics) : String :=
  String.join (self.map fun item => item.text ++ "\n") ++
    if self.isEmpty then "" else "\n" ++ toString self.warningCount ++ " warning(s)\n"

def toJson (self : Diagnostics) : Json := .obj [("items", .arr (self.map Diagnostic.toJson))]

def ofJson (value : Json) : Decoded Diagnostics := do
  let record ← Json.Record.ofJson ["items"] value
  record.required "items" (Json.asList Diagnostic.ofJson)

end Diagnostics

end EntityGraph
