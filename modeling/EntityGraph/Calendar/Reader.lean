import EntityGraph.Calendar.Basic
import EntityGraph.Decimal.Integer
import EntityGraph.Text.Basic

/-!
# Reading dates and times

The written form is year, month and day joined by hyphens, and for a time of day the letter T and
hour, minute and second joined by colons. Blanks may stand before a number. A year without sign has
at most four digits, one with a sign any number; the other numbers have one or two digits. The
strict form allows nothing else; the relaxed form, used for stored values, also allows blanks before
the separators and at the end, and a fraction of a second.
-/
namespace EntityGraph

open Text (isBlank trimLeftChars)

/-- Whether blanks before separators, blanks at the end and fractions are allowed. -/
inductive DateForm where
  | strict
  | relaxed
  deriving DecidableEq, Repr

namespace DateForm

/-- Reads one digit at least and `most` digits at most. -/
def number? (most : Nat) (text : List Char) : Option (Nat × List Char) :=
  let digits := (text.take most).takeWhile Text.isDigit
  if digits.isEmpty then none else some (Decimal.digitsValue digits, text.drop digits.length)

/-- Reads a number of at most two digits, after blanks. -/
def pair? (text : List Char) : Option (Nat × List Char) := number? 2 (trimLeftChars text)

/-- Reads a year, after blanks. -/
def year? (text : List Char) : Option (Int × List Char) :=
  match trimLeftChars text with
  | '-' :: rest => (number? rest.length rest).map fun (value, rest) => (-(value : Int), rest)
  | '+' :: rest => (number? rest.length rest).map fun (value, rest) => ((value : Int), rest)
  | rest => (number? 4 rest).map fun (value, rest) => ((value : Int), rest)

/-- Skips the blanks that the relaxed form allows. -/
def gap (form : DateForm) (text : List Char) : List Char :=
  match form with
  | strict => text
  | relaxed => trimLeftChars text

/-- Reads a separator. -/
def separator? (form : DateForm) (c : Char) (text : List Char) : Option (List Char) :=
  match form.gap text with
  | d :: rest => if d = c then some rest else none
  | [] => none

def datePart? (form : DateForm) (text : List Char) : Option (Date × List Char) := do
  let (year, text) ← year? text
  let text ← form.separator? '-' text
  let (month, text) ← pair? text
  let text ← form.separator? '-' text
  let (day, text) ← pair? text
  let date ← Date.ofParts? year month day
  return (date, text)

/-- Reads the digits after a decimal point as nanoseconds; digits after the ninth are skipped. -/
def fraction? (form : DateForm) (text : List Char) : Option (Nat × List Char) :=
  match form, text with
  | relaxed, '.' :: rest =>
    (number? 9 rest).map fun (value, after) =>
      let count := rest.length - after.length
      (value * Nat.pow 10 (9 - count), after.dropWhile Text.isDigit)
  | _, text => some (0, text)

def timePart? (form : DateForm) (text : List Char) : Option (TimeOfDay × List Char) := do
  let (hour, text) ← pair? text
  let text ← form.separator? ':' text
  let (minute, text) ← pair? text
  let text ← form.separator? ':' text
  let (second, text) ← pair? text
  let (nanosecond, text) ← form.fraction? text
  let time ← TimeOfDay.ofParts? hour minute second nanosecond
  return (time, text)

end DateForm

def Date.parse? (form : DateForm) (text : String) : Option Date := do
  let (date, rest) ← form.datePart? text.toList
  if (form.gap rest).isEmpty then some date else none

def DateTime.parse? (form : DateForm) (text : String) : Option DateTime := do
  let (date, rest) ← form.datePart? text.toList
  let rest ← form.separator? 'T' rest
  let (time, rest) ← form.timePart? rest
  if (form.gap rest).isEmpty then some ⟨date, time⟩ else none

end EntityGraph
