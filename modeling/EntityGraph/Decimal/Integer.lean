import EntityGraph.Text.Basic

/-!
# Decimal integers

Integers as decimal digits, and the ranges of the machine numbers that documents may hold: 32-bit
counts, and signed and unsigned 64-bit words.
-/
namespace EntityGraph.Decimal

/-- The largest unsigned 32-bit number. -/
def maxCount : Nat := 0xFFFFFFFF

/-- The largest unsigned 64-bit word. -/
def maxWord : Nat := 0xFFFFFFFFFFFFFFFF

/-- The smallest signed 64-bit word. -/
def minSigned : Int := -0x8000000000000000

/-- The largest signed 64-bit word. -/
def maxSigned : Int := 0x7FFFFFFFFFFFFFFF

/-- Whether an integer fits a signed 64-bit word. -/
def isSigned (value : Int) : Bool := minSigned ≤ value && value ≤ maxSigned

/-- The number that decimal digits stand for. -/
def digitsValue (digits : List Char) : Nat :=
  digits.foldl (fun value c => value * 10 + (c.toNat - 48)) 0

/-- The number of a nonempty sequence of decimal digits. -/
def natural? (digits : List Char) : Option Nat :=
  if digits.isEmpty || !digits.all Text.isDigit then none else some (digitsValue digits)

/-- Reads an unsigned 64-bit word: decimal digits, perhaps after a plus sign. -/
def parseWord? (text : List Char) : Option Nat :=
  let digits := match text with
    | '+' :: rest => rest
    | rest => rest
  (natural? digits).filter (· ≤ maxWord)

/-- Reads a signed 64-bit word: decimal digits, perhaps after a sign. -/
def parseInteger? (text : String) : Option Int :=
  let value : Option Int := match text.toList with
    | '-' :: rest => (natural? rest).map fun value => -(value : Int)
    | '+' :: rest => (natural? rest).map fun value => (value : Int)
    | rest => (natural? rest).map fun value => (value : Int)
  value.filter isSigned

end EntityGraph.Decimal
