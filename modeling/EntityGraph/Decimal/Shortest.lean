/-!
# Shortest decimal digits of a binary floating-point number

A finite double is `significand * 2 ^ exponent`. All reals that lie closer to it than to either
neighbour round to it; the two end points do so exactly when the significand is even. The shortest
form is the decimal with the fewest digits in that interval, and among those the one nearest to the
number. For every digit count only the two neighbours of the number on the decimal grid can be the
nearest grid point, so seventeen rounds decide the question in exact integer arithmetic.
-/
namespace EntityGraph.Decimal

/-- A positive finite double as `significand * 2 ^ exponent`, with the width of its lower gap. -/
structure Binary where
  significand : Nat
  exponent : Int
  /-- The neighbour below is only half as far away as the one above. -/
  narrowBelow : Bool
  deriving Repr, DecidableEq

/-- Splits the bits of a double into significand and exponent; the sign is ignored. -/
def Binary.ofBits (bits : UInt64) : Binary :=
  let fraction := (bits &&& 0xFFFFFFFFFFFFF).toNat
  let biased := ((bits >>> 52) &&& 0x7FF).toNat
  if biased = 0 then ⟨fraction, -1074, false⟩
  else ⟨fraction + 0x10000000000000, (biased : Int) - 1075, fraction = 0 && biased > 1⟩

/-- A decimal `digits * 10 ^ exponent`. -/
structure Scientific where
  digits : Nat
  exponent : Int
  deriving Repr, DecidableEq

/-- The decimal `digits * 10 ^ exponent` as a fraction with a common denominator:
`(digits * num, den)` where the scale is `num / den`. -/
def tenPower (exponent : Int) : Nat × Nat :=
  if exponent ≥ 0 then (Nat.pow 10 exponent.toNat, 1) else (1, Nat.pow 10 (-exponent).toNat)

def twoPower (exponent : Int) : Nat × Nat :=
  if exponent ≥ 0 then (Nat.pow 2 exponent.toNat, 1) else (1, Nat.pow 2 (-exponent).toNat)

/-- The number of decimal digits of `n`; zero has one. -/
def digitCount (n : Nat) : Nat := (Nat.toDigits 10 n).length

/-- Whether `candidate` reads back as `value`, and how far it lies from it (numerators over the
common denominator `4 * value denominator * scale denominator`). -/
def roundsTo (value : Binary) (candidate : Scientific) : Option Nat :=
  let (twoNum, twoDen) := twoPower value.exponent
  let (tenNum, tenDen) := tenPower candidate.exponent
  let point := 4 * candidate.digits * tenNum * twoDen
  let centre := 4 * value.significand * twoNum * tenDen
  let halfAbove := 2 * twoNum * tenDen
  let halfBelow := if value.narrowBelow then twoNum * tenDen else 2 * twoNum * tenDen
  let even := value.significand % 2 = 0
  let inside :=
    if point ≥ centre then
      point - centre < halfAbove || (even && point - centre == halfAbove)
    else
      centre - point < halfBelow || (even && centre - point == halfBelow)
  if inside then some (if point ≥ centre then point - centre else centre - point) else none

/-- The two grid points around `value` at the given decimal exponent, the one below first. -/
def neighbours (value : Binary) (exponent : Int) : Scientific × Scientific :=
  let (twoNum, twoDen) := twoPower value.exponent
  let (tenNum, tenDen) := tenPower exponent
  let below := value.significand * twoNum * tenDen / (twoDen * tenNum)
  (⟨below, exponent⟩, ⟨below + 1, exponent⟩)

/-- The nearer of the two neighbours that reads back; an exact tie goes to the even digit. -/
def bestNeighbour (value : Binary) (exponent : Int) : Option Scientific :=
  let (below, above) := neighbours value exponent
  match roundsTo value below, roundsTo value above with
  | some near, some far =>
    if near < far then some below
    else if far < near then some above
    else if below.digits % 2 = 0 then some below else some above
  | some _, none => some below
  | none, some _ => some above
  | none, none => none

/-- Removes trailing zero digits into the exponent. -/
def Scientific.stripZeros : Nat → Scientific → Scientific
  | 0, number => number
  | fuel + 1, number =>
    if number.digits ≠ 0 && number.digits % 10 = 0 then
      stripZeros fuel ⟨number.digits / 10, number.exponent + 1⟩
    else number

/-- The decimal exponent of the leading digit of `value`: the `e` with
`10 ^ e ≤ value < 10 ^ (e + 1)`. -/
def leadingExponent (value : Binary) : Int :=
  let (twoNum, twoDen) := twoPower value.exponent
  let num := value.significand * twoNum
  if num ≥ twoDen then (digitCount (num / twoDen) : Int) - 1
  else
    let up := digitCount (twoDen / num)
    -- `10 ^ (-up) ≤ value` holds, and one power more may fit too
    if num * Nat.pow 10 (up - 1) ≥ twoDen then -((up : Int) - 1) else -(up : Int)

/-- Tries digit counts from `count` upwards. -/
def shortestFrom (value : Binary) (leading : Int) : Nat → Nat → Scientific
  | 0, _ => (neighbours value (leading - 16)).1
  | fuel + 1, count =>
    match bestNeighbour value (leading - (count : Int) + 1) with
    | some number => number
    | none => shortestFrom value leading fuel (count + 1)

/-- The shortest decimal that reads back as the magnitude of a finite double. -/
def shortest (value : Float) : Scientific :=
  let binary := Binary.ofBits value.toBits
  if binary.significand = 0 then ⟨0, 0⟩
  else Scientific.stripZeros 20 (shortestFrom binary (leadingExponent binary) 17 1)

/-- Writes a finite magnitude: positional with a fraction digit while the point stands at most
sixteen digits after the leading digit or at most four zeros before it, and with an exponent
otherwise, which has its sign in either case. -/
def Scientific.layout (number : Scientific) : String :=
  if number.digits = 0 then "0.0" else
  let text := toString number.digits
  let count := text.length
  let point := (count : Int) + number.exponent
  if 0 ≤ number.exponent ∧ point ≤ 16 then
    text ++ "".pushn '0' number.exponent.toNat ++ ".0"
  else if 0 < point ∧ point ≤ 16 then
    (text.take point.toNat).toString ++ "." ++ (text.drop point.toNat).toString
  else if -5 < point ∧ point ≤ 0 then
    "0." ++ "".pushn '0' (-point).toNat ++ text
  else
    let mantissa :=
      if count = 1 then text else (text.take 1).toString ++ "." ++ (text.drop 1).toString
    mantissa ++ (if point > 0 then "e+" else "e") ++ toString (point - 1)

/-- Writes a magnitude without exponent, and without a point if it is whole. -/
def Scientific.positional (number : Scientific) : String :=
  let text := toString number.digits
  let point := (text.length : Int) + number.exponent
  if 0 ≤ number.exponent then text.pushn '0' number.exponent.toNat
  else if 0 < point then
    (text.take point.toNat).toString ++ "." ++ (text.drop point.toNat).toString
  else "0." ++ "".pushn '0' (-point).toNat ++ text

/-- The text of any double without exponent. -/
def plain (value : Float) : String :=
  if value.isNaN then "NaN"
  else
    let sign := if value.toBits >>> 63 = 1 then "-" else ""
    sign ++ if value.isInf then "inf" else (shortest value).positional

/-- The text of a finite double; `none` for infinities and NaN. -/
def render? (value : Float) : Option String :=
  if value.isFinite then
    let sign := if value.toBits >>> 63 = 1 then "-" else ""
    some (sign ++ (shortest value).layout)
  else none

end EntityGraph.Decimal
