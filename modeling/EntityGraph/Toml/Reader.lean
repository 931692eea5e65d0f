import EntityGraph.Calendar.Basic
import EntityGraph.Decimal.Reader
import EntityGraph.Json.Reader
import EntityGraph.Toml.Basic

/-!
# Reading TOML text

A text is a sequence of lines: table headers, key and value pairs, comments and blank lines. Values
inside a pair nest; nesting is limited, so values are read by structural recursion on the number of
levels left, and the loops inside a level are bounded by the number of characters.
-/
namespace EntityGraph.Toml

/-- The rest of a text. -/
abbrev Chars := List Char

def isSpace (c : Char) : Bool := c = ' ' || c = '\t'

def skipSpaces (text : Chars) : Chars := text.dropWhile isSpace

/-- A line break. -/
def newline? : Chars → Option Chars
  | '\n' :: rest => some rest
  | '\r' :: '\n' :: rest => some rest
  | _ => none

/-- Whether a character may stand in a comment or in a literal string. -/
def isPlain (c : Char) : Bool := c = '\t' || (c.toNat ≥ 32 && c.toNat ≠ 127)

/-- Skips a comment, if there is one. -/
def skipComment : Chars → Chars
  | '#' :: rest => rest.dropWhile isPlain
  | text => text

/-- Ends a line: spaces, a comment, and a line break or the end of the text. -/
def lineEnd? (text : Chars) : Option Chars :=
  match skipComment (skipSpaces text) with
  | [] => some []
  | rest => newline? rest

/-- Skips spaces, comments and line breaks; `steps` bounds their number. -/
def skipFiller : Nat → Chars → Chars
  | 0, text => text
  | steps + 1, text =>
    let rest := skipComment (skipSpaces text)
    match newline? rest with
    | some rest => skipFiller steps rest
    | none => rest

/-- The character of a code in hexadecimal digits; surrogates have none. -/
def charOfHex? (digits : List Char) : Option Char := do
  let values ← digits.mapM Json.hexValue?
  let code := values.foldl (fun code value => code * 16 + value) 0
  if (code < 0xD800 || 0xE000 ≤ code) && code ≤ 0x10FFFF then some (Char.ofNat code) else none

/-- The character of an escape after the backslash. -/
def escape? : Chars → Option (Char × Chars)
  | 'b' :: rest => some ('\x08', rest)
  | 't' :: rest => some ('\t', rest)
  | 'n' :: rest => some ('\n', rest)
  | 'f' :: rest => some ('\x0c', rest)
  | 'r' :: rest => some ('\r', rest)
  | '"' :: rest => some ('"', rest)
  | '\\' :: rest => some ('\\', rest)
  | 'u' :: rest =>
    if rest.length < 4 then none
    else (charOfHex? (rest.take 4)).map fun c => (c, rest.drop 4)
  | 'U' :: rest =>
    if rest.length < 8 then none
    else (charOfHex? (rest.take 8)).map fun c => (c, rest.drop 8)
  | _ => none

/-- The inside of a basic string; `steps` bounds its length. -/
def basicString : Nat → String → Chars → Option (String × Chars)
  | 0, _, _ => none
  | steps + 1, done, text =>
    match text with
    | '"' :: rest => some (done, rest)
    | '\\' :: rest =>
      match escape? rest with
      | some (c, rest) => basicString steps (done.push c) rest
      | none => none
    | c :: rest => if isPlain c then basicString steps (done.push c) rest else none
    | [] => none

/-- The inside of a literal string. -/
def literalString (text : Chars) : Option (String × Chars) :=
  let inside := text.takeWhile fun c => c ≠ '\'' && isPlain c
  match text.drop inside.length with
  | '\'' :: rest => some (String.ofList inside, rest)
  | _ => none

/-- Skips blanks and line breaks after a backslash at the end of a line. -/
def skipContinuation : Nat → Chars → Chars
  | 0, text => text
  | steps + 1, text =>
    let rest := skipSpaces text
    match newline? rest with
    | some rest => skipContinuation steps rest
    | none => rest

/-- The inside of a string between triple quotes `q`. Up to two quotes may stand before the closing
ones. Escapes count only in the basic form. -/
def longString (q : Char) (escapes : Bool) : Nat → String → Chars → Option (String × Chars)
  | 0, _, _ => none
  | steps + 1, done, text =>
    match newline? text with
    | some rest => longString q escapes steps (done.push '\n') rest
    | none =>
      match text with
      | [] => none
      | c :: rest =>
        if c = q then
          let quotes := (text.takeWhile (· = q)).length
          if quotes < 3 then longString q escapes steps (done.push c) rest
          else if quotes ≤ 5 then some (done.pushn q (quotes - 3), text.drop quotes)
          else none
        else if c = '\\' ∧ escapes then
          match newline? (skipSpaces rest) with
          | some rest => longString q escapes steps done (skipContinuation rest.length rest)
          | none =>
            match escape? rest with
            | some (c, rest) => longString q escapes steps (done.push c) rest
            | none => none
        else if isPlain c then longString q escapes steps (done.push c) rest
        else none

/-- Drops a line break directly after the opening quotes. -/
def dropFirstBreak (text : Chars) : Chars := (newline? text).getD text

/-- A string of any of the four forms. -/
def string? : Chars → Option (String × Chars)
  | '"' :: '"' :: '"' :: rest =>
    longString '"' true (rest.length + 1) "" (dropFirstBreak rest)
  | '\'' :: '\'' :: '\'' :: rest =>
    longString '\'' false (rest.length + 1) "" (dropFirstBreak rest)
  | '"' :: rest => basicString (rest.length + 1) "" rest
  | '\'' :: rest => literalString rest
  | _ => none

def isBareKey (c : Char) : Bool :=
  Text.isUpper c || Text.isLower c || Text.isDigit c || c = '_' || c = '-'

/-- One part of a key; quoted parts are one-line strings. -/
def keyPart? (text : Chars) : Option (String × Chars) :=
  match text with
  | '"' :: rest => basicString (rest.length + 1) "" rest
  | '\'' :: rest => literalString rest
  | _ =>
    let part := text.takeWhile isBareKey
    if part.isEmpty then none else some (String.ofList part, text.drop part.length)

/-- A key of parts joined by dots. -/
def key? : Nat → Chars → Option (List String × Chars)
  | 0, _ => none
  | steps + 1, text =>
    match keyPart? (skipSpaces text) with
    | none => none
    | some (part, rest) =>
      match skipSpaces rest with
      | '.' :: rest => (key? steps rest).map fun (parts, rest) => (part :: parts, rest)
      | rest => some ([part], rest)

/-! ## Numbers and moments -/

/-- Digits of a base with single underscores between them, without the underscores. -/
def digitGroups (isDigit : Char → Bool) (text : Chars) : Option (List Char) :=
  let pieces := Text.splitChars '_' text
  if pieces.all fun piece => !piece.isEmpty && piece.all isDigit then some pieces.flatten else none

def isHexDigit (c : Char) : Bool := (Json.hexValue? c).isSome

/-- A number in another base than ten. -/
def basedInteger? (base : Nat) (isDigit : Char → Bool) (text : Chars) : Option Value := do
  let digits ← digitGroups isDigit text
  let value := digits.foldl (fun value c => value * base + (Json.hexValue? c).getD 0) 0
  if Decimal.isSigned value then some (.integer value) else none

def splitSign : Chars → Bool × Chars
  | '-' :: rest => (true, rest)
  | '+' :: rest => (false, rest)
  | rest => (false, rest)

/-- Decimal digits without a superfluous zero in front. -/
def decimalDigits? (text : Chars) : Option (List Char) := do
  let digits ← digitGroups Text.isDigit text
  if digits.head? = some '0' ∧ digits.length > 1 then none else some digits

def decimalInteger? (text : Chars) : Option Value := do
  let (negative, rest) := splitSign text
  let digits ← decimalDigits? rest
  let value := Decimal.digitsValue digits
  let value : Int := if negative then -(value : Int) else value
  if Decimal.isSigned value then some (.integer value) else none

def float? (text : Chars) : Option Value := do
  let (negative, rest) := splitSign text
  let sign (value : Float) : Float := if negative then -value else value
  if rest = "inf".toList then some (.float (sign (1.0 / 0.0)))
  else if rest = "nan".toList then some (.float (sign (0.0 / 0.0)))
  else
    let isExponent (c : Char) : Bool := c = 'e' || c = 'E'
    let mantissa := rest.takeWhile (!isExponent ·)
    let whole := mantissa.takeWhile (· ≠ '.')
    let wholeDigits ← decimalDigits? whole
    let fractionDigits ← match mantissa.drop whole.length with
      | '.' :: fraction => digitGroups Text.isDigit fraction
      | _ => some []
    let exponent : Int ← match rest.drop mantissa.length with
      | _ :: exponent =>
        let (negative, digits) := splitSign exponent
        (digitGroups Text.isDigit digits).map fun digits =>
          let value : Int := Decimal.digitsValue digits
          if negative then -value else value
      | [] => some 0
    if fractionDigits.isEmpty && mantissa.length = rest.length then none
    else
      let value :=
        Decimal.nearest (Decimal.digitsValue (wholeDigits ++ fractionDigits))
          (exponent - fractionDigits.length)
      if value.isInf then none else some (.float (sign value))

/-- Two digits as a number within a range. -/
def twoDigits? (low high : Nat) : Chars → Option (Nat × Chars)
  | a :: b :: rest =>
    if Text.isDigit a && Text.isDigit b then
      let value := (a.toNat - 48) * 10 + (b.toNat - 48)
      if low ≤ value ∧ value ≤ high then some (value, rest) else none
    else none
  | _ => none

/-- Year, month and day. -/
def datePart? (text : Chars) : Option Chars := do
  let year := text.take 4
  if year.length < 4 || !year.all Text.isDigit then none
  else
    match text.drop 4 with
    | '-' :: rest =>
      let (month, rest) ← twoDigits? 1 12 rest
      match rest with
      | '-' :: rest =>
        let (_, rest) ← twoDigits? 1 (daysInMonth (Decimal.digitsValue year) month) rest
        some rest
      | _ => none
    | _ => none

/-- Hour, minute, second and an optional fraction. -/
def timePart? (text : Chars) : Option Chars := do
  let (_, rest) ← twoDigits? 0 23 text
  match rest with
  | ':' :: rest =>
    let (_, rest) ← twoDigits? 0 59 rest
    match rest with
    | ':' :: rest =>
      let (_, rest) ← twoDigits? 0 60 rest
      match rest with
      | '.' :: fraction =>
        if (fraction.head?.map Text.isDigit).getD false then some (fraction.dropWhile Text.isDigit)
        else none
      | rest => some rest
    | _ => none
  | _ => none

/-- A time zone, if there is one. -/
def offsetPart? : Chars → Option Chars
  | 'Z' :: rest | 'z' :: rest => some rest
  | '+' :: rest | '-' :: rest => do
    let (_, rest) ← twoDigits? 0 23 rest
    match rest with
    | ':' :: rest =>
      let (_, rest) ← twoDigits? 0 59 rest
      some rest
    | _ => none
  | rest => some rest

/-- Skips a moment: a date, a time, or a date and a time with an optional zone. -/
def moment? (text : Chars) : Option Chars :=
  match datePart? text with
  | some rest =>
    match rest with
    | c :: after =>
      if c = 'T' || c = 't' || (c = ' ' && (after.head?.map Text.isDigit).getD false) then
        (timePart? after).bind offsetPart?
      else some rest
    | [] => some rest
  | none => timePart? text

/-- The usual form of a moment: capital letters, one of them between date and time, at most nine
digits of a fraction and no zeros at its end, and a plus sign before an offset of zero. -/
def usualMoment (text : Chars) : Chars :=
  let capital (c : Char) : Char := if c = ' ' then 'T' else Text.upper c
  let rest := (text.dropWhile (· ≠ '.')).drop 1
  let fraction := (((rest.takeWhile Text.isDigit).take 9).reverse.dropWhile (· = '0')).reverse
  let point := if fraction.isEmpty then [] else '.' :: fraction
  let moment := (text.takeWhile (· ≠ '.')).map capital ++ point
    ++ (rest.dropWhile Text.isDigit).map capital
  if "-00:00".toList.isSuffixOf moment then moment.take (moment.length - 6) ++ "+00:00".toList
  else moment

/-- Whether a character can belong to a number. -/
def isNumberChar (c : Char) : Bool :=
  Text.isDigit c || Text.isUpper c || Text.isLower c || c = '_' || c = '+' || c = '-' || c = '.'

/-- A number, by the form of its word. -/
def number? (word : Chars) : Option Value :=
  match word with
  | '0' :: 'x' :: digits => basedInteger? 16 isHexDigit digits
  | '0' :: 'o' :: digits => basedInteger? 8 (fun c => '0' ≤ c && c ≤ '7') digits
  | '0' :: 'b' :: digits => basedInteger? 2 (fun c => c = '0' || c = '1') digits
  | _ => (decimalInteger? word) <|> (float? word)

/-- Whether a text starts like a date or a time. -/
def looksLikeMoment (text : Chars) : Bool :=
  match text with
  | a :: b :: ':' :: _ => Text.isDigit a && Text.isDigit b
  | a :: b :: c :: d :: '-' :: _ => [a, b, c, d].all Text.isDigit
  | _ => false

/-- A value that is neither a string, nor an array, nor a table. -/
def word? (text : Chars) : Option (Value × Chars) :=
  if looksLikeMoment text then
    (moment? text).map fun rest =>
      (.moment (String.ofList (usualMoment (text.take (text.length - rest.length)))), rest)
  else
    let word := text.takeWhile isNumberChar
    let rest := text.drop word.length
    if word = "true".toList then some (.boolean true, rest)
    else if word = "false".toList then some (.boolean false, rest)
    else (number? word).map fun value => (value, rest)

/-! ## Values -/

/-- The items of an array after the opening bracket. -/
def arrayItems (value? : Chars → Option (Value × Chars)) :
    Nat → Chars → Option (List Value × Chars)
  | 0, _ => none
  | steps + 1, text =>
    match skipFiller text.length text with
    | ']' :: rest => some ([], rest)
    | text =>
      match value? text with
      | none => none
      | some (item, rest) =>
        match skipFiller rest.length rest with
        | ']' :: rest => some ([item], rest)
        | ',' :: rest =>
          (arrayItems value? steps rest).map fun (items, rest) => (item :: items, rest)
        | _ => none

/-- Splits a key into the path before its last part and the last part. -/
def splitKey (parts : List String) : List String × String :=
  (parts.dropLast, parts.getLastD "")

/-- The pairs of an inline table after its opening brace and the first spaces. -/
def inlinePairs (value? : Chars → Option (Value × Chars)) :
    Nat → Entries → Chars → Option (Entries × Chars)
  | 0, _, _ => none
  | steps + 1, entries, text =>
    match key? (text.length + 1) text with
    | none => none
    | some (parts, rest) =>
      match rest with
      | '=' :: rest =>
        match value? (skipSpaces rest) with
        | none => none
        | some (value, rest) =>
          let (path, key) := splitKey parts
          match Entries.enter path key value .header entries with
          | none => none
          | some entries =>
            match skipSpaces rest with
            | '\x7d' :: rest => some (entries, rest)
            | ',' :: rest => inlinePairs value? steps entries rest
            | _ => none
      | _ => none

/-- A value that nests arrays and inline tables as many levels deep as given. -/
def value? : Nat → Chars → Option (Value × Chars)
  | depth, text =>
    match text with
    | '"' :: _ | '\'' :: _ => (string? text).map fun (text, rest) => (.text text, rest)
    | '[' :: rest =>
      match depth with
      | 0 => none
      | depth + 1 =>
        (arrayItems (value? depth) (rest.length + 1) rest).map
          fun (items, rest) => (.array items, rest)
    | '\x7b' :: rest =>
      match depth with
      | 0 => none
      | depth + 1 =>
        match skipSpaces rest with
        | '\x7d' :: rest => some (.table [], rest)
        | rest =>
          (inlinePairs (value? depth) (rest.length + 1) [] rest).map
            fun (entries, rest) => (.table (entriesToValues entries), rest)
    | _ => word? text

/-- The deepest nesting of arrays and inline tables. -/
def maxDepth : Nat := 80

/-! ## Documents -/

/-- The document so far, and the path of the table that the last header opened. -/
structure State where
  root : Entries
  table : List String

/-- A header line after its first bracket. -/
def header? (state : State) (text : Chars) : Option (State × Chars) :=
  match text with
  | '[' :: rest =>
    match key? (rest.length + 1) rest with
    | some (parts, ']' :: ']' :: rest) =>
      let (path, key) := splitKey parts
      (state.root.openItem path key).map fun root => (⟨root, parts⟩, rest)
    | _ => none
  | _ =>
    match key? (text.length + 1) text with
    | some (parts, ']' :: rest) =>
      let (path, key) := splitKey parts
      (state.root.openTable path key).map fun root => (⟨root, parts⟩, rest)
    | _ => none

/-- A pair of key and value. -/
def pair? (state : State) (text : Chars) : Option (State × Chars) :=
  match key? (text.length + 1) text with
  | some (parts, '=' :: rest) =>
    match value? maxDepth (skipSpaces rest) with
    | some (value, rest) =>
      let (path, key) := splitKey parts
      (state.root.enterAt state.table path key value).map fun root => ({ state with root }, rest)
    | none => none
  | _ => none

/-- Reads line after line; `steps` bounds their number. -/
def lines? : Nat → State → Chars → Option State
  | 0, _, _ => none
  | steps + 1, state, text =>
    match skipFiller text.length text with
    | [] => some state
    | '[' :: rest =>
      match header? state rest with
      | some (state, rest) =>
        match lineEnd? rest with
        | some rest => lines? steps state rest
        | none => none
      | none => none
    | text =>
      match pair? state text with
      | some (state, rest) =>
        match lineEnd? rest with
        | some rest => lines? steps state rest
        | none => none
      | none => none

/-- Reads a document; a byte order mark in front is skipped. -/
def parse? (text : String) : Option Value :=
  let chars := match text.toList with
    | '\ufeff' :: rest => rest
    | chars => chars
  (lines? (chars.length + 1) ⟨[], []⟩ chars).map fun state => .table (entriesToValues state.root)

end EntityGraph.Toml
