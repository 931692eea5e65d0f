import EntityGraph.Scalar.Builtin
import EntityGraph.Schema.Codec
import EntityGraph.Text.Documentation

/-!
# Facets

What one restriction step does to a scalar. Range bounds, lengths and patterns become validators or
limits of the column, enumerations become choices, and digit counts widen or size the storage. An
exclusive bound of an integer, a date or a time becomes the inclusive bound next to it; for other
kinds it stays exclusive.
-/
namespace EntityGraph.Scalar

open Schema (Facets)

/-- Which end of a range a bound is. -/
inductive End where
  | lower
  | upper
  deriving DecidableEq, Repr

/-- The next integer inside the range, if it fits a 64-bit word. -/
def stepInteger? (side : End) (value : Int) : Option Int :=
  let next := match side with
    | .lower => value + 1
    | .upper => value - 1
  if Decimal.isSigned next then some next else none

def stepDate? (side : End) (date : Date) : Option Date :=
  match side with
  | .lower => date.next?
  | .upper => date.previous?

def stepDateTime? (side : End) (moment : DateTime) : Option DateTime :=
  match side with
  | .lower => moment.next?
  | .upper => moment.previous?

/-- The part of a text in its first ten octets; the whole text if it is shorter, or if a character
crosses that mark. -/
def firstTen (text : String) : String :=
  let rec go : Nat → List Char → Option (List Char)
    | 0, _ => some []
    | _ + 1, [] => none
    | room + 1, c :: rest =>
      if c.utf8Size ≤ room + 1 then (go (room + 1 - c.utf8Size) rest).map (c :: ·) else none
  termination_by _ chars => chars
  ((go 10 text.toList).map String.ofList).getD text

/-- The literal of a bound, and whether it is still exclusive. -/
def boundLiteral? (kind : ScalarKind) (side : End) (exclusive : Bool) (text : String) :
    Option (Literal × Bool) :=
  if kind.isInteger then do
    let value ← Decimal.parseInteger? text
    let value ← if exclusive then stepInteger? side value else some value
    return (.integer value, false)
  else
    match kind with
    | .date => do
      let date ← Date.parse? .strict (firstTen text)
      let date ← if exclusive then stepDate? side date else some date
      return (.date date, false)
    | .dateTime => do
      let moment ← DateTime.parse? .strict text
      let moment ← if exclusive then stepDateTime? side moment else some moment
      return (.dateTime moment, false)
    | .decimal => (decimalLiteral? text).map fun literal => (literal, exclusive)
    | .float => (Decimal.parse? text).map fun value => (.float value, exclusive)
    | _ => some (.text text, exclusive)

/-- The validator of a range bound. `label` names the type in errors. -/
def bound (kind : ScalarKind) (raw : String) (exclusive : Bool) (side : End) (label : String) :
    Result Validator :=
  match boundLiteral? kind side exclusive (Text.trim raw) with
  | none => .error (.invalidDefault label raw kind.name)
  | some (literal, exclusive) =>
    match side with
    | .lower => .ok (.minValue literal exclusive)
    | .upper => .ok (.maxValue literal exclusive)

/-- The validator of a bound that may be absent. -/
def boundIfAny (kind : ScalarKind) (raw : Option String) (exclusive : Bool) (side : End)
    (label : String) : Result (List Validator) :=
  match raw with
  | some raw => (bound kind raw exclusive side label).map ([·])
  | none => .ok []

/-- The four range bounds of a step. -/
def rangeValidators (kind : ScalarKind) (facets : Facets) (label : String) :
    Result (List Validator) := do
  let a ← boundIfAny kind facets.minInclusive false .lower label
  let b ← boundIfAny kind facets.minExclusive true .lower label
  let c ← boundIfAny kind facets.maxInclusive false .upper label
  let d ← boundIfAny kind facets.maxExclusive true .upper label
  return a ++ b ++ c ++ d

/-- The pattern that a value of any of the patterns matches. -/
def joinPatterns : List String → String
  | [pattern] => pattern
  | patterns => "|".intercalate (patterns.map fun pattern => "(?:" ++ pattern ++ ")")

/-- The number of digits in a pattern of the form `\d{n}` or `\d{m,n}`. -/
def digitPatternLength? (pattern : String) : Option Nat := do
  let inner ← Text.dropStart? "\\d\x7b" pattern
  if inner.endsWith "\x7d" then
    let counts := Text.splitChars ',' inner.toList.dropLast
    Schema.readCount? (Text.trim (String.ofList (counts.getLastD [])))
  else none

/-- The length that a step states: a fixed length, else a maximum, else that of a digit pattern. -/
def statedLength? (facets : Facets) : Option Nat :=
  facets.length <|> facets.maxLength <|> facets.patterns.head?.bind digitPatternLength?

/-- The greatest number of characters among the enumerated values. -/
def longestValue? (facets : Facets) : Option Nat :=
  (facets.enumerations.map (·.value.length)).max?

/-- The maximum length after a step. -/
def scaledLength (repr : ScalarRepr) (facets : Facets) (factor : Nat) (label : String) :
    Result (Option Nat) :=
  if !repr.kind.isTextual then .ok repr.maxLength
  else
    match statedLength? facets with
    | some length =>
      if length * factor ≤ Decimal.maxCount then .ok (some (length * factor))
      else .error (.invalidDefault label (toString length) repr.kind.name)
    | none => .ok (longestValue? facets <|> repr.maxLength)

/-- The choice of an enumerated value; its label is the documentation, if that says anything. -/
def choiceOf (enumeration : Schema.Enumeration) : Choice :=
  let label := (enumeration.documentation.map Text.Documentation.normalize).getD ""
  ⟨enumeration.value, if label.isEmpty then enumeration.value else label⟩

/-- The integer kind that holds the given number of digits. -/
def widen (kind : ScalarKind) (digits : Nat) : ScalarKind :=
  match kind with
  | .smallInteger => if digits > 9 then .bigInteger else if digits > 4 then .integer else kind
  | .integer | .positiveInteger => if digits > 9 then .bigInteger else kind
  | kind => kind

/-- The length and pattern validators of a step. -/
def textValidators (kind : ScalarKind) (facets : Facets) : List Validator :=
  let least := match facets.minLength with
    | some length => if length > 1 then [.minLength length] else []
    | none => []
  let patterns :=
    if facets.patterns.isEmpty || kind.isNumeric then []
    else [Validator.regex (joinPatterns facets.patterns)]
  least ++ patterns

/-- The digits of a decimal after a step. -/
def maxDigits (repr : ScalarRepr) (facets : Facets) : Option Nat :=
  if repr.kind == .decimal then facets.totalDigits <|> repr.maxDigits else repr.maxDigits

/-- The kind after a step. -/
def widenedKind (kind : ScalarKind) (facets : Facets) : ScalarKind :=
  match facets.totalDigits with
  | some digits => widen kind digits
  | none => kind

/-- One restriction step on top of an inherited scalar. -/
def applyFacets (repr : ScalarRepr) (facets : Facets) (factor : Nat) (label : String) :
    Result ScalarRepr := do
  let ranges ← rangeValidators repr.kind facets label
  let maxLength ← scaledLength repr facets factor label
  return { repr with
    kind := widenedKind repr.kind facets
    maxLength
    maxDigits := maxDigits repr facets
    decimalPlaces := facets.fractionDigits <|> repr.decimalPlaces
    choices :=
      if facets.enumerations.isEmpty then repr.choices else facets.enumerations.map choiceOf
    validators := repr.validators ++ ranges ++ textValidators repr.kind facets
    notBlank := repr.notBlank || facets.minLength == some 1 }

/-- Bounded text without a usable length becomes unbounded text. -/
def finalize (threshold : Nat) (repr : ScalarRepr) : ScalarRepr :=
  let fits := repr.maxLength.any (· ≤ threshold)
  if repr.kind == .char && !fits then { repr with kind := .text } else repr

end EntityGraph.Scalar
