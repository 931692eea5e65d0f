import EntityGraph.Text.Basic

/-!
# Names in capital and snake case

An entity is named in capital case (`OrderLineItem`), a field in snake case (`order_line_item`).
`pascalName` makes the first from a dotted type path, `snakeCase` the second from the first.
-/
namespace EntityGraph.Text

/-- The part of a path segment after its last colon. -/
def localPart (segment : List Char) : List Char :=
  (segment.reverse.takeWhile (· ≠ ':')).reverse

/-- Whether a character only separates the words of a name. -/
def isWordBreak (c : Char) : Bool := c = '.' || c = '_' || c = '-' || c = ' '

/-- Drops the word breaks and capitalises what follows each of them, and the start if told so. -/
def joinWords (capital : Bool) : List Char → List Char
  | [] => []
  | c :: rest =>
    if isWordBreak c then joinWords true rest
    else (if capital then upper c else c) :: joinWords false rest

/-- The name of a type path in capital case, without namespace prefixes: `ns:order.line_item`
gives `OrderLineItem`. -/
def pascalName (path : String) : String :=
  let segments := (splitChars '.' path.toList).map localPart
  String.ofList (joinWords true (['.'].intercalate segments))

/-- Whether a word starts at a capital letter that stands after `previous` and before `next`:
after a lower-case letter or digit, and as the last capital of a run. -/
def startsWord (previous next : Option Char) : Bool :=
  match previous with
  | none => false
  | some p => isLower p || isDigit p || (isUpper p && (next.map isLower).getD false)

/-- Snake case of the rest of a name. `previous` is the character before it, and `broken` tells
whether the output so far ends with an underscore. -/
def snakeChars (previous : Option Char) (broken : Bool) : List Char → List Char
  | [] => []
  | c :: rest =>
    if isUpper c then
      let tail := lower c :: snakeChars (some c) false rest
      if startsWord previous rest.head? && !broken then '_' :: tail else tail
    else if c = '-' || c = ' ' || c = '.' then '_' :: snakeChars (some c) true rest
    else c :: snakeChars (some c) (c = '_') rest

/-- Snake case: `OrderLineItem` gives `order_line_item`, `HTTPServer` gives `http_server`. -/
def snakeCase (name : String) : String := String.ofList (snakeChars none false name.toList)

end EntityGraph.Text
