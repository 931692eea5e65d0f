import EntityGraph.Diagnostic
import EntityGraph.Scalar.Facets
import EntityGraph.Schema.Index
import EntityGraph.Settings.Basic

/-!
# Scalars of simple types

A named type is a configured replacement, a built-in type, a restriction of another type, or a
complex type that wraps a scalar. Derived scalars are remembered, so that a notice about a built-in
type is given once.
-/
namespace EntityGraph.Scalar

open Schema (Index SimpleType)

/-- Where types are declared and what is configured about them. -/
structure Source where
  index : Index
  settings : Settings

/-- The scalars derived so far, by type name, the last one first, and the notices. -/
structure State where
  known : List (String × ScalarRepr)
  diagnostics : Diagnostics
  deriving Inhabited

def State.empty : State := ⟨[], []⟩

def State.find? (state : State) (name : String) : Option ScalarRepr :=
  (state.known.find? (·.1 == name)).map (·.2)

def State.remember (state : State) (name : String) (repr : ScalarRepr) : State :=
  { state with known := (name, repr) :: state.known }

/-- The outcome of a derivation, and the state after it; notices stay also after a failure. -/
abbrev Derivation := Result ScalarRepr × State

/-- The scalar of a configured replacement. -/
def ofOverride (override : TypeOverride) (name : String) : ScalarRepr :=
  { ScalarRepr.ofKind override.kind with
    sourceType := some name
    maxLength := override.maxLength
    maxDigits := override.maxDigits
    decimalPlaces := override.decimalPlaces }

/-- The notice about a built-in type without a scalar of its own. -/
def unknownBuiltin (name : String) : Diagnostic :=
  .plain name .unknownBuiltin ("no scalar mapping for " ++ name ++ ", using text")

/-- The scalar of a restriction, given that of its base. -/
def restrict (source : Source) (type : SimpleType) (base : ScalarRepr) : Result ScalarRepr :=
  applyFacets { base with sourceType := none } type.facets source.settings.compiler.maxLengthFactor
    (type.name.getD type.base)

/-- Keeps a scalar that was derived for a name. -/
def keep (name : String) : Derivation → Derivation
  | (.ok repr, state) => (.ok repr, state.remember name repr)
  | failed => failed

/-- The scalar of a named type. `steps` bounds the way down to a built-in type. -/
def namedWithin (source : Source) : Nat → String → State → Derivation
  | 0, name, state => (.error (.cyclicReference [name]), state)
  | steps + 1, name, state =>
    match state.find? name with
    | some repr => (.ok repr, state)
    | none =>
      match source.settings.typeOverride? name with
      | some override => keep name (.ok (ofOverride override name), state)
      | none =>
        if Schema.isBuiltin name then
          match builtinKind? name with
          | some kind => keep name (.ok (.ofKind kind), state)
          | none =>
            keep name
              (.ok (.ofKind .text),
                { state with diagnostics := state.diagnostics ++ [unknownBuiltin name] })
        else
          match source.index.simpleType? name with
          | some type =>
            match namedWithin source steps type.base state with
            | (.error failure, state) => (.error failure, state)
            | (.ok base, state) =>
              keep name
                ((restrict source type base).map fun repr => { repr with sourceType := some name },
                  state)
          | none =>
            match (source.index.complexType? name).bind (·.simpleContent) with
            | some inner => keep name (namedWithin source steps inner.base state)
            | none => (.error (.unresolved name source.index.complexTypes.names), state)

/-- Every type on the way down but the first is the base of a declared one, so their number bounds
the way unless it is a cycle. -/
def wayDown (index : Index) : Nat := index.simpleTypes.length + index.complexTypes.length + 3

/-- The scalar of a named type. -/
def named (source : Source) (name : String) (state : State) : Derivation :=
  namedWithin source (wayDown source.index) name state

/-- The scalar of a simple type that stands where it is used. -/
def inline (source : Source) (type : SimpleType) (state : State) : Derivation :=
  match named source type.base state with
  | (.ok base, state) => (restrict source type base, state)
  | failed => failed

end EntityGraph.Scalar
