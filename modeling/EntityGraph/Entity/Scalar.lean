import EntityGraph.Calendar.Basic

/-!
# Scalars

What is known about the values of a column: how they are stored, how long they may be, which ones
are allowed, and which one stands for absence.
-/
namespace EntityGraph

/-- How a scalar is stored. -/
inductive ScalarKind where
  | binary
  | boolean
  | smallInteger
  | integer
  | bigInteger
  | positiveInteger
  | decimal
  | float
  | date
  | dateTime
  /-- Text of bounded length. -/
  | char
  /-- Text of any length. -/
  | text
  /-- A kind that only the configuration and the consumer know. -/
  | custom (name : String)
  deriving DecidableEq, Repr, Inhabited

namespace ScalarKind

def isInteger : ScalarKind → Bool
  | smallInteger | integer | bigInteger | positiveInteger => true
  | _ => false

def isNumeric (kind : ScalarKind) : Bool := kind.isInteger || kind == decimal || kind == float

def isTemporal (kind : ScalarKind) : Bool := kind == date || kind == dateTime

/-- Whether values of this kind are texts, so that a length limits them. -/
def isTextual : ScalarKind → Bool
  | char | text | custom _ => true
  | _ => false

def name : ScalarKind → String
  | binary => "binary"
  | boolean => "boolean"
  | smallInteger => "small_integer"
  | integer => "integer"
  | bigInteger => "big_integer"
  | positiveInteger => "positive_integer"
  | decimal => "decimal"
  | float => "float"
  | date => "date"
  | dateTime => "date_time"
  | char => "char"
  | text => "text"
  | custom name => name

/-- The kinds that are not custom. -/
def standard : List ScalarKind :=
  [binary, boolean, smallInteger, integer, bigInteger, positiveInteger, decimal, float, date,
    dateTime, char, text]

/-- The standard kind of a name. -/
def ofName? (text : String) : Option ScalarKind := standard.find? (·.name == text)

end ScalarKind

/-- A typed value: a default or the end of a range. -/
inductive Literal where
  | boolean (value : Bool)
  | integer (value : Int)
  /-- A decimal as it is written, so that no digit is lost. -/
  | decimal (text : String)
  | float (value : Float)
  | date (value : Date)
  | dateTime (value : DateTime)
  | text (value : String)
  deriving Repr, Inhabited

namespace Literal

def isTemporal : Literal → Bool
  | date _ | dateTime _ => true
  | _ => false

/-- Equality of values; two doubles are compared as numbers, so NaN differs from itself. -/
def same : Literal → Literal → Bool
  | boolean a, boolean b => a == b
  | integer a, integer b => a == b
  | decimal a, decimal b => a == b
  | float a, float b => a == b
  | date a, date b => a == b
  | dateTime a, dateTime b => a == b
  | text a, text b => a == b
  | _, _ => false

instance : BEq Literal := ⟨same⟩

end Literal

/-- A condition on values. -/
inductive Validator where
  | minLength (length : Nat)
  | regex (pattern : String)
  | minValue (value : Literal) (exclusive : Bool)
  | maxValue (value : Literal) (exclusive : Bool)
  deriving BEq, Repr, Inhabited

/-- Whether a validator compares with a date or time. -/
def Validator.isTemporal : Validator → Bool
  | minValue value _ | maxValue value _ => value.isTemporal
  | _ => false

/-- One value of a closed set, with its label. -/
structure Choice where
  value : String
  label : String
  deriving DecidableEq, Repr, Inhabited

/-- The value space of a scalar. -/
structure ScalarRepr where
  kind : ScalarKind
  /-- The named simple type that it comes from. -/
  sourceType : Option String
  maxLength : Option Nat
  maxDigits : Option Nat
  decimalPlaces : Option Nat
  choices : List Choice
  validators : List Validator
  /-- The empty text is no value. -/
  notBlank : Bool
  defaultValue : Option Literal
  deriving BEq, Repr, Inhabited

namespace ScalarRepr

/-- A scalar of which only the kind is known. -/
def ofKind (kind : ScalarKind) : ScalarRepr :=
  ⟨kind, none, none, none, none, [], [], false, none⟩

/-- Whether the kind, the default or a range bound is a date or time. -/
def isTemporal (repr : ScalarRepr) : Bool :=
  repr.kind.isTemporal || (repr.defaultValue.map Literal.isTemporal).getD false
    || repr.validators.any Validator.isTemporal

end ScalarRepr

end EntityGraph
