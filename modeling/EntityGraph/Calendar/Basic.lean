/-!
# Dates and times

Days of the proleptic Gregorian calendar in a fixed range of years, and times of day to the
nanosecond with room for a leap second. A date is valid by its type; `next?` and `previous?` leave
the range only at its ends.
-/
namespace EntityGraph

/-- The first and the last supported year. -/
def minYear : Int := -262143

def maxYear : Int := 262142

def isLeapYear (year : Int) : Bool := year % 4 = 0 && (year % 100 ≠ 0 || year % 400 = 0)

/-- The number of days of a month; zero for a number that is no month. -/
def daysInMonth (year : Int) (month : Nat) : Nat :=
  match month with
  | 2 => if isLeapYear year then 29 else 28
  | 4 | 6 | 9 | 11 => 30
  | 1 | 3 | 5 | 7 | 8 | 10 | 12 => 31
  | _ => 0

/-- Whether three numbers name a day in the supported range. -/
def isCalendarDay (year : Int) (month day : Nat) : Bool :=
  minYear ≤ year && year ≤ maxYear && 1 ≤ day && day ≤ daysInMonth year month

/-- A day of the calendar. -/
structure Date where
  year : Int
  month : Nat
  day : Nat
  valid : isCalendarDay year month day = true
  deriving DecidableEq, Repr

instance : Inhabited Date := ⟨⟨1970, 1, 1, by decide⟩⟩

namespace Date

def ofParts? (year : Int) (month day : Nat) : Option Date :=
  if valid : isCalendarDay year month day = true then some ⟨year, month, day, valid⟩ else none

/-- The day after; none after the last supported day. -/
def next? (date : Date) : Option Date :=
  (ofParts? date.year date.month (date.day + 1)) <|> (ofParts? date.year (date.month + 1) 1)
    <|> (ofParts? (date.year + 1) 1 1)

/-- The day before; none before the first supported day. -/
def previous? (date : Date) : Option Date :=
  if date.day > 1 then ofParts? date.year date.month (date.day - 1)
  else if date.month > 1 then
    ofParts? date.year (date.month - 1) (daysInMonth date.year (date.month - 1))
  else ofParts? (date.year - 1) 12 31

end Date

/-- At least `width` digits, filled up with zeros. -/
def padNumber (width value : Nat) : String :=
  let digits := toString value
  "".pushn '0' (width - digits.length) ++ digits

/-- Four digits for the years 0 to 9999, and a sign and at least four digits for the others. -/
def yearText (year : Int) : String :=
  if 0 ≤ year ∧ year ≤ 9999 then padNumber 4 year.toNat
  else (if year < 0 then "-" else "+") ++ padNumber 4 year.natAbs

def Date.text (date : Date) : String :=
  yearText date.year ++ "-" ++ padNumber 2 date.month ++ "-" ++ padNumber 2 date.day

/-- A time of day. Second 60 is a leap second, which any minute may have. -/
structure TimeOfDay where
  hour : Nat
  minute : Nat
  second : Nat
  nanosecond : Nat
  valid : (hour < 24 && minute < 60 && second ≤ 60 && nanosecond < 1000000000) = true
  deriving DecidableEq, Repr

instance : Inhabited TimeOfDay := ⟨⟨0, 0, 0, 0, by decide⟩⟩

namespace TimeOfDay

def ofParts? (hour minute second nanosecond : Nat) : Option TimeOfDay :=
  if valid : (hour < 24 && minute < 60 && second ≤ 60 && nanosecond < 1000000000) = true then
    some ⟨hour, minute, second, nanosecond, valid⟩
  else none

/-- The fraction with three, six or nine digits, as many as needed. -/
def fractionText (nanosecond : Nat) : String :=
  if nanosecond = 0 then ""
  else if nanosecond % 1000000 = 0 then "." ++ padNumber 3 (nanosecond / 1000000)
  else if nanosecond % 1000 = 0 then "." ++ padNumber 6 (nanosecond / 1000)
  else "." ++ padNumber 9 nanosecond

def text (time : TimeOfDay) : String :=
  padNumber 2 time.hour ++ ":" ++ padNumber 2 time.minute ++ ":" ++ padNumber 2 time.second
    ++ fractionText time.nanosecond

end TimeOfDay

/-- A time on a day. -/
structure DateTime where
  date : Date
  time : TimeOfDay
  deriving DecidableEq, Repr, Inhabited

namespace DateTime

def text (self : DateTime) : String := self.date.text ++ "T" ++ self.time.text

/-- The same fraction in another second. -/
def at? (self : DateTime) (date : Date) (hour minute second : Nat) : Option DateTime :=
  (TimeOfDay.ofParts? hour minute second self.time.nanosecond).map fun time => ⟨date, time⟩

/-- One second later. From a leap second, and from second 59, that is the start of the next
minute. -/
def next? (self : DateTime) : Option DateTime :=
  let time := self.time
  if time.second < 59 then self.at? self.date time.hour time.minute (time.second + 1)
  else if time.minute < 59 then self.at? self.date time.hour (time.minute + 1) 0
  else if time.hour < 23 then self.at? self.date (time.hour + 1) 0 0
  else self.date.next?.bind fun date => self.at? date 0 0 0

/-- One second earlier; a leap second steps back to second 59. -/
def previous? (self : DateTime) : Option DateTime :=
  let time := self.time
  if time.second > 0 then self.at? self.date time.hour time.minute (time.second - 1)
  else if time.minute > 0 then self.at? self.date time.hour (time.minute - 1) 59
  else if time.hour > 0 then self.at? self.date (time.hour - 1) 59 59
  else self.date.previous?.bind fun date => self.at? date 23 59 59

end DateTime

end EntityGraph
