import EntityGraph.Diagnostic
import EntityGraph.Pattern.Rules
import EntityGraph.Table
import EntityGraph.Text.Case

/-!
# Names of entities

A type path gets its entity name from the first naming rule that matches it, and a name made from
the path itself where no rule does. The name depends on the rules and the path alone. A resolver
remembers the paths it has named, so that the notice about a made-up name is given once and a name
leads back to a path.
-/
namespace EntityGraph.Compile

/-- A naming rule that is ready for use. -/
structure NameRule where
  pattern : Pattern
  /-- The only path that the pattern matches, where the pattern is plain text. -/
  literal : Option String
  template : String
  merge : Bool
  deriving DecidableEq, Repr, Inhabited

/-- The text that a pattern without special characters matches; a dot may be escaped. -/
def literalText? (pattern : String) : Option String :=
  let plain := Text.replacePair '\\' '.' '.' pattern.toList
  if plain.any ("\\()[]\x7b\x7d|*+?^$".toList.contains ·) then none else some (String.ofList plain)

def NameRule.ofRule (rule : NamingRule) : Result NameRule := do
  let pattern ← Pattern.whole rule.pattern
  let (template, plus) := match Text.dropStart? "+" rule.entity with
    | some rest => (rest, true)
    | none => (rule.entity, false)
  return { pattern, literal := literalText? rule.pattern, template, merge := rule.merge || plus }

/-- The entity of a type path. -/
structure ResolvedName where
  entity : String
  /-- Whether other type paths may have the same entity. -/
  merge : Bool
  /-- Whether the name was made from the path, as no rule matched. -/
  synthesized : Bool
  deriving DecidableEq, Repr, Inhabited

def NameRule.name? (rule : NameRule) (path : String) : Option ResolvedName :=
  (rule.pattern.replace? path rule.template).map (⟨·, rule.merge, false⟩)

/-- The name of a path under ordered rules. -/
def nameOf (rules : List NameRule) (path : String) : ResolvedName :=
  (rules.findSome? (·.name? path)).getD ⟨Text.pascalName path, false, true⟩

/-- Naming rules, and the names given so far by path. -/
structure NameResolver where
  rules : List NameRule
  known : Table ResolvedName
  deriving Inhabited

namespace NameResolver

def ofRules (rules : List NamingRule) : Result NameResolver := do
  return ⟨← rules.mapM NameRule.ofRule, []⟩

/-- The notice about a name that no rule gave. -/
def notices (path : String) (name : ResolvedName) : Diagnostics :=
  if name.synthesized then [.autoNamed path name.entity] else []

/-- Names a path. The notices are those that arise for the first time. -/
def resolve (resolver : NameResolver) (path : String) :
    ResolvedName × Diagnostics × NameResolver :=
  match resolver.known.get? path with
  | some name => (name, [], resolver)
  | none =>
    let name := nameOf resolver.rules path
    (name, notices path name, { resolver with known := resolver.known.set path name })

/-- A path that has the entity: that of the first plain rule that gives it, else the smallest one
named so far. -/
def reverse? (resolver : NameResolver) (entity : String) : Option String :=
  resolver.rules.findSome? (fun rule => if rule.template = entity then rule.literal else none)
    <|> (resolver.known.find? (·.2.entity == entity)).map (·.1)

end NameResolver

end EntityGraph.Compile
