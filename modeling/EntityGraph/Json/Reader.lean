import EntityGraph.Decimal.Integer
import EntityGraph.Json.Basic

/-!
# Reading JSON text

A text is one value with blanks around it. Nesting is limited, so reading is a structural recursion
on the number of levels left; inside a level the members of an array or object are read by a loop
that is bounded by the number of characters. Numbers are read the fast way: up to nineteen or
twenty digits are collected in a 64-bit word, later ones only move the decimal point, and the word
is scaled by one power of ten. A reader that knows which members it needs passes over the others.
-/
namespace EntityGraph.Json

/-- The four characters that may stand between tokens. -/
def isBlank (c : Char) : Bool := c = ' ' || c = '\n' || c = '\t' || c = '\r'

def skipBlanks (text : List Char) : List Char := text.dropWhile isBlank

/-- The value of a hexadecimal digit. -/
def hexValue? (c : Char) : Option Nat :=
  if '0' ≤ c ∧ c ≤ '9' then some (c.toNat - 48)
  else if 'a' ≤ c ∧ c ≤ 'f' then some (c.toNat - 87)
  else if 'A' ≤ c ∧ c ≤ 'F' then some (c.toNat - 55)
  else none

/-- Four hexadecimal digits as a 16-bit unit. -/
def hexUnit? (a b c d : Char) : Option Nat := do
  let a ← hexValue? a
  let b ← hexValue? b
  let c ← hexValue? c
  let d ← hexValue? d
  return ((a * 16 + b) * 16 + c) * 16 + d

/-- The character behind a one-letter escape. -/
def simpleEscape? (c : Char) : Option Char :=
  match c with
  | '"' => some '"'
  | '\\' => some '\\'
  | '/' => some '/'
  | 'b' => some '\x08'
  | 'f' => some '\x0c'
  | 'n' => some '\n'
  | 'r' => some '\r'
  | 't' => some '\t'
  | _ => none

/-- Reads the inside of a string up to and including the closing quote. A unit from the surrogate
range counts only as the first half of a pair that is complete. -/
def readChars (done : String) : List Char → Option (String × List Char)
  | [] => none
  | '"' :: rest => some (done, rest)
  | '\\' :: 'u' :: a :: b :: c :: d :: rest =>
    match hexUnit? a b c d with
    | none => none
    | some high =>
      if 0xDC00 ≤ high ∧ high < 0xE000 then none
      else if 0xD800 ≤ high ∧ high < 0xDC00 then
        match rest with
        | '\\' :: 'u' :: e :: f :: g :: h :: rest =>
          match hexUnit? e f g h with
          | none => none
          | some low =>
            if 0xDC00 ≤ low ∧ low < 0xE000 then
              readChars
                (done.push (Char.ofNat (0x10000 + (high - 0xD800) * 0x400 + (low - 0xDC00)))) rest
            else none
        | _ => none
      else readChars (done.push (Char.ofNat high)) rest
  | '\\' :: c :: rest =>
    match simpleEscape? c with
    | some c => readChars (done.push c) rest
    | none => none
  | c :: rest => if c.toNat < 32 then none else readChars (done.push c) rest

/-- Digits collected in a 64-bit word, and the digits from the first one that does not fit. -/
def collectDigits (word : Nat) : List Char → Nat × List Char
  | [] => (word, [])
  | c :: rest =>
    let next := word * 10 + (c.toNat - 48)
    if next ≤ Decimal.maxWord then collectDigits next rest else (word, c :: rest)

/-- `word * 10 ^ exponent` by one multiplication or division; `none` when the result is too
large. Exponents below the range of doubles are taken in steps of 308. -/
def scale (word : Nat) (exponent : Int) : Option Float :=
  let start := Float.ofNat word
  if exponent > 308 then (if word = 0 then some start else none)
  else if exponent ≥ 0 then
    let value := start * Float.ofScientific 1 false exponent.toNat
    if value.isInf then none else some value
  else
    let down := (-exponent).toNat
    if down > 1000 then some 0.0
    else
      let rec lower (value : Float) : Nat → Nat → Float
        | 0, _ => value
        | fuel + 1, down =>
          if down ≤ 308 then value / Float.ofScientific 1 false down
          else lower (value / 1e308) fuel (down - 308)
      some (lower start 5 down)

/-- The double written with the given sign, digits before and after the point, and exponent. -/
def readDouble (negative : Bool) (whole fraction : List Char) (exponent : Int) : Option Float :=
  let (word, unread) := collectDigits 0 whole
  let (word, unreadFraction) := collectDigits word fraction
  let shift := (unread.length : Int) - ((fraction.length - unreadFraction.length : Nat) : Int)
  match scale word (shift + exponent) with
  | some value => some (if negative then -value else value)
  | none => none

/-- The exponent part: `none` on a malformed one, otherwise its value and the rest. -/
def readExponent : List Char → Option (Option Int × List Char)
  | 'e' :: rest | 'E' :: rest =>
    let (negative, rest) := match rest with
      | '-' :: rest => (true, rest)
      | '+' :: rest => (false, rest)
      | rest => (false, rest)
    let digits := rest.takeWhile Char.isDigit
    if digits.isEmpty then none
    else
      let value : Int := Decimal.digitsValue digits
      some (some (if negative then -value else value), rest.dropWhile Char.isDigit)
  | rest => some (none, rest)

/-- The fraction part: `none` on a point without digits. -/
def readFraction : List Char → Option (Option (List Char) × List Char)
  | '.' :: rest =>
    let digits := rest.takeWhile Char.isDigit
    if digits.isEmpty then none else some (some digits, rest.dropWhile Char.isDigit)
  | rest => some (none, rest)

/-- Reads a number. An integer outside the 64-bit ranges, and minus zero, become doubles. -/
def readNumber (text : List Char) : Option (Json × List Char) :=
  let (negative, text) := match text with
    | '-' :: rest => (true, rest)
    | rest => (false, rest)
  let whole := text.takeWhile Char.isDigit
  let rest := text.dropWhile Char.isDigit
  if whole.isEmpty || (whole.head? == some '0' && whole.length > 1) then none
  else
    match readFraction rest with
    | none => none
    | some (fraction, rest) =>
      match readExponent rest with
      | none => none
      | some (exponent, rest) =>
        let value := Decimal.digitsValue whole
        if fraction.isNone && exponent.isNone && !negative && value ≤ Decimal.maxWord then
          some (.int value, rest)
        else if fraction.isNone && exponent.isNone && negative && value ≠ 0
            && value ≤ Decimal.maxSigned + 1 then
          some (.int (-(value : Int)), rest)
        else
          (readDouble negative whole (fraction.getD []) (exponent.getD 0)).map
            fun value => (.float value, rest)

/-- Reads the items of an array after its opening bracket and the first blanks. -/
def readItems (readItem : List Char → Option (Json × List Char)) :
    Nat → List Char → Option (List Json × List Char)
  | 0, _ => none
  | fuel + 1, text =>
    match readItem text with
    | none => none
    | some (item, rest) =>
      match skipBlanks rest with
      | ']' :: rest => some ([item], rest)
      | ',' :: rest =>
        (readItems readItem fuel rest).map fun (items, rest) => (item :: items, rest)
      | _ => none

/-- Reads the members of an object after its opening brace, each value as its key demands. -/
def readMembers (readItem : String → List Char → Option (Json × List Char)) :
    Nat → List Char → Option (List (String × Json) × List Char)
  | 0, _ => none
  | fuel + 1, text =>
    match skipBlanks text with
    | '"' :: text =>
      match readChars "" text with
      | none => none
      | some (key, rest) =>
        match skipBlanks rest with
        | ':' :: rest =>
          match readItem key rest with
          | none => none
          | some (item, rest) =>
            match skipBlanks rest with
            | '\x7d' :: rest => some ([(key, item)], rest)
            | ',' :: rest =>
              (readMembers readItem fuel rest).map
                fun (members, rest) => ((key, item) :: members, rest)
            | _ => none
        | _ => none
    | _ => none

/-- Reads one value that may nest arrays and objects as many levels deep as given. -/
def readValue : Nat → List Char → Option (Json × List Char)
  | depth, text =>
    match skipBlanks text with
    | 'n' :: 'u' :: 'l' :: 'l' :: rest => some (.null, rest)
    | 't' :: 'r' :: 'u' :: 'e' :: rest => some (.bool true, rest)
    | 'f' :: 'a' :: 'l' :: 's' :: 'e' :: rest => some (.bool false, rest)
    | '"' :: rest => (readChars "" rest).map fun (text, rest) => (.str text, rest)
    | '[' :: rest =>
      match depth with
      | 0 => none
      | depth + 1 =>
        match skipBlanks rest with
        | ']' :: rest => some (.arr [], rest)
        | rest =>
          (readItems (readValue depth) (rest.length + 1) rest).map
            fun (items, rest) => (.arr items, rest)
    | '\x7b' :: rest =>
      match depth with
      | 0 => none
      | depth + 1 =>
        match skipBlanks rest with
        | '\x7d' :: rest => some (.obj [], rest)
        | rest =>
          (readMembers (fun _ => readValue depth) (rest.length + 1) rest).map
            fun (members, rest) => (.obj members, rest)
    | text => readNumber text

/-! ## Passing over values

A value that is passed over has to be JSON. Its numbers may have any size, its strings may escape
half a pair of units, and it may be nested as deep as the text allows.
-/

/-- Passes over the inside of a string and the closing quote. -/
def skipChars : List Char → Option (List Char)
  | [] => none
  | '"' :: rest => some rest
  | '\\' :: 'u' :: a :: b :: c :: d :: rest =>
    if (hexUnit? a b c d).isSome then skipChars rest else none
  | '\\' :: c :: rest => if (simpleEscape? c).isSome then skipChars rest else none
  | c :: rest => if c.toNat < 32 then none else skipChars rest

def skipNumber (text : List Char) : Option (List Char) :=
  let text := if text.head? == some '-' then text.tail else text
  let whole := text.takeWhile Char.isDigit
  if whole.isEmpty || (whole.head? == some '0' && whole.length > 1) then none
  else
    (readFraction (text.dropWhile Char.isDigit)).bind fun (_, rest) =>
      (readExponent rest).map fun (_, rest) => rest

/-- Passes over the items of an array after its opening bracket and the first blanks. -/
def skipItems (skipItem : List Char → Option (List Char)) : Nat → List Char → Option (List Char)
  | 0, _ => none
  | fuel + 1, text =>
    match (skipItem text).map skipBlanks with
    | some (']' :: rest) => some rest
    | some (',' :: rest) => skipItems skipItem fuel rest
    | _ => none

/-- Passes over a member of an object. -/
def skipMember (skipItem : List Char → Option (List Char)) (text : List Char) :
    Option (List Char) :=
  match skipBlanks text with
  | '"' :: text =>
    match (skipChars text).map skipBlanks with
    | some (':' :: rest) => skipItem rest
    | _ => none
  | _ => none

/-- Passes over the members of an object after its opening brace. -/
def skipMembers (skipItem : List Char → Option (List Char)) : Nat → List Char → Option (List Char)
  | 0, _ => none
  | fuel + 1, text =>
    match (skipMember skipItem text).map skipBlanks with
    | some ('\x7d' :: rest) => some rest
    | some (',' :: rest) => skipMembers skipItem fuel rest
    | _ => none

/-- Passes over one value that is nested less than `depth` levels deep. -/
def skipValue : Nat → List Char → Option (List Char)
  | 0, _ => none
  | depth + 1, text =>
    match skipBlanks text with
    | 'n' :: 'u' :: 'l' :: 'l' :: rest => some rest
    | 't' :: 'r' :: 'u' :: 'e' :: rest => some rest
    | 'f' :: 'a' :: 'l' :: 's' :: 'e' :: rest => some rest
    | '"' :: rest => skipChars rest
    | '[' :: rest =>
      match skipBlanks rest with
      | ']' :: rest => some rest
      | rest => skipItems (skipValue depth) (rest.length + 1) rest
    | '\x7b' :: rest =>
      match skipBlanks rest with
      | '\x7d' :: rest => some rest
      | rest => skipMembers (skipValue depth) (rest.length + 1) rest
    | text => skipNumber text

/-! ## Outlines -/

/-- What a reader needs of a value. -/
inductive Outline where
  | whole
  | list (items : Outline)
  /-- Members by their keys, or the items of a list in their place. Others are passed over. -/
  | record (entries : List (String × Outline))

namespace Outline

/-- The keys that are read. -/
def keys : Outline → List String
  | record entries => entries.map (·.1)
  | whole | list _ => []

/-- A record with keys of which whole values are read. -/
def ofKeys (keys : List String) : Outline := record (keys.map (·, whole))

mutual

/-- Reads one value as far as it is needed. What is passed over is left as `null`. -/
def read : Outline → Nat → List Char → Option (Json × List Char)
  | whole, depth, text => readValue depth text
  | list items, depth, text =>
    match depth, skipBlanks text with
    | depth + 1, '[' :: rest =>
      match skipBlanks rest with
      | ']' :: rest => some (.arr [], rest)
      | rest =>
        (readItems (items.read depth) (rest.length + 1) rest).map
          fun (items, rest) => (.arr items, rest)
    | depth, text => readValue depth text
  | record entries, depth, text =>
    match depth, skipBlanks text with
    | depth + 1, '[' :: rest =>
      match skipBlanks rest with
      | ']' :: rest => some (.arr [], rest)
      | rest => (readInTurn entries depth rest).map fun (items, rest) => (.arr items, rest)
    | depth + 1, '\x7b' :: rest =>
      match skipBlanks rest with
      | '\x7d' :: rest => some (.obj [], rest)
      | rest =>
        (readMembers (readEntry entries depth) (rest.length + 1) rest).map
          fun (members, rest) => (.obj members, rest)
    | depth, text => readValue depth text

/-- Reads the value of a member as far as its key is needed. -/
def readEntry : List (String × Outline) → Nat → String → List Char → Option (Json × List Char)
  | [], _, _, text => (skipValue text.length text).map fun rest => (.null, rest)
  | (name, outline) :: rest, depth, key, text =>
    if name = key then outline.read depth text else readEntry rest depth key text

/-- Reads the items of a list that stands for an object. -/
def readInTurn : List (String × Outline) → Nat → List Char → Option (List Json × List Char)
  | [], depth, text => readItems (readValue depth) (text.length + 1) text
  | (_, outline) :: rest, depth, text =>
    match outline.read depth text with
    | none => none
    | some (item, text) =>
      match skipBlanks text with
      | ']' :: text => some ([item], text)
      | ',' :: text =>
        (readInTurn rest depth text).map fun (items, text) => (item :: items, text)
      | _ => none

end

end Outline

/-! ## Whole texts -/

/-- Reads one value with nothing but blanks behind it. -/
def parseBy? (read : List Char → Option (Json × List Char)) (text : String) : Option Json :=
  match read text.toList with
  | some (value, rest) => if (skipBlanks rest).isEmpty then some value else none
  | none => none

/-- Reads a whole text whose nesting is at most `depth` levels. -/
def parseWithin? (depth : Nat) (text : String) : Option Json := parseBy? (readValue depth) text

/-- The deepest nesting that a text may have. -/
def maxDepth : Nat := 127

/-- Reads a whole text. -/
def parse? (text : String) : Option Json := parseWithin? maxDepth text

/-- Reads as much of a whole text as is needed. -/
def parseAs? (outline : Outline) (text : String) : Option Json :=
  parseBy? (outline.read maxDepth) text

end EntityGraph.Json
