import EntityGraph.Decimal.Reader
import EntityGraph.Calendar.Reader
import EntityGraph.Entity.Scalar
import EntityGraph.Error

/-!
# Built-in types

How each built-in type is stored, and how a default value of it is read. Integers, dates and
numbers are read from the trimmed text; a text keeps its blanks, except that a token loses them
all.
-/
namespace EntityGraph.Scalar

/-- The storage of a built-in type. -/
def builtinKind? (name : String) : Option ScalarKind :=
  match name with
  | "xs:base64Binary" | "xs:hexBinary" => some .binary
  | "xs:boolean" => some .boolean
  | "xs:byte" | "xs:short" => some .smallInteger
  | "xs:int" | "xs:integer" => some .integer
  | "xs:long" => some .bigInteger
  | "xs:nonNegativeInteger" | "xs:positiveInteger" => some .positiveInteger
  | "xs:decimal" => some .decimal
  | "xs:double" | "xs:float" => some .float
  | "xs:date" | "xs:gYearMonth" => some .date
  | "xs:dateTime" => some .dateTime
  | "xs:string" | "xs:token" | "xs:normalizedString" | "xs:anyURI" | "xs:ID" | "xs:IDREF" =>
    some .char
  | _ => none

/-- A decimal is kept as it is written; it has to be the text of a number. -/
def decimalLiteral? (text : String) : Option Literal :=
  (Decimal.parse? text).map fun _ => .decimal text

def booleanLiteral? (text : String) : Option Literal :=
  match text with
  | "true" | "1" => some (.boolean true)
  | "false" | "0" => some (.boolean false)
  | _ => none

/-- The value that a text denotes in a built-in type. `raw` is the text as it stands in the
schema. -/
def literal? (primitive raw : String) : Option Literal :=
  let text := Text.trim raw
  match primitive with
  | "xs:boolean" => booleanLiteral? text
  | "xs:date" => (Date.parse? .strict text).map .date
  | "xs:gYearMonth" => (Date.parse? .strict (text ++ "-01")).map .date
  | "xs:dateTime" => (DateTime.parse? .strict text).map .dateTime
  | "xs:double" | "xs:float" => (Decimal.parse? text).map .float
  | "xs:decimal" => decimalLiteral? text
  | "xs:byte" | "xs:short" | "xs:int" | "xs:integer" | "xs:long" | "xs:nonNegativeInteger"
  | "xs:positiveInteger" => (Decimal.parseInteger? text).map .integer
  | "xs:token" => some (.text (String.join (Text.words raw)))
  | _ => some (.text raw)

/-- The default value of something at `path`. -/
def parseDefault (primitive raw path : String) : Result Literal :=
  match literal? primitive raw with
  | some literal => .ok literal
  | none => .error (.invalidDefault path raw primitive)

end EntityGraph.Scalar
