import EntityGraph.Decimal.Integer

/-!
# Reading floating-point numbers

The written forms of a double: an optional sign, then either one of the words `inf`, `infinity` and
`nan` in any case, or decimal digits with at most one point and at least one digit, and an optional
exponent. The value is the double nearest to the decimal.
-/
namespace EntityGraph.Decimal

open Text (isDigit)

/-- The nearest double to `digits * 10 ^ exponent`; beyond the range of doubles that is infinity
or zero. -/
def nearest (digits : Nat) (exponent : Int) : Float :=
  if digits = 0 then 0.0
  else
    let magnitude := ((Nat.toDigits 10 digits).length : Int) + exponent
    if magnitude > 400 then 1.0 / 0.0
    else if magnitude < -400 then 0.0
    else if exponent ≥ 0 then Float.ofScientific digits false exponent.toNat
    else Float.ofScientific digits true (-exponent).toNat

/-- The value of an exponent part; zero if there is none. -/
def exponent? : List Char → Option Int
  | [] => some 0
  | c :: rest =>
    if c = 'e' ∨ c = 'E' then
      let (negative, digits) := match rest with
        | '-' :: digits => (true, digits)
        | '+' :: digits => (false, digits)
        | digits => (false, digits)
      if digits.isEmpty || !digits.all isDigit then none
      else
        let value : Int := digitsValue digits
        some (if negative then -value else value)
    else none

/-- The value of a text without sign. -/
def magnitude? (text : List Char) : Option Float :=
  let word := String.ofList (text.map Text.lower)
  if word = "inf" ∨ word = "infinity" then some (1.0 / 0.0)
  else if word = "nan" then some (0.0 / 0.0)
  else
    let whole := text.takeWhile isDigit
    let rest := text.dropWhile isDigit
    let (fraction, rest) := match rest with
      | '.' :: rest => (rest.takeWhile isDigit, rest.dropWhile isDigit)
      | rest => ([], rest)
    if whole.isEmpty && fraction.isEmpty then none
    else
      (exponent? rest).map fun exponent =>
        nearest (digitsValue (whole ++ fraction)) (exponent - fraction.length)

/-- Reads a double. -/
def parse? (text : String) : Option Float :=
  match text.toList with
  | '-' :: rest => (magnitude? rest).map (- ·)
  | '+' :: rest => magnitude? rest
  | rest => magnitude? rest

end EntityGraph.Decimal
