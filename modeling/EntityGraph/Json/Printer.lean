import EntityGraph.Json.Basic
import EntityGraph.Decimal.Shortest

/-!
# JSON text

Two layouts of one value: compact, without any space, and indented by two spaces a level. Both
write members in the order of the value, escape the quote, the backslash and the control
characters only, and write a double that is not finite as `null`.
-/
namespace EntityGraph.Json

def hexDigit (value : Nat) : Char :=
  if value < 10 then Char.ofNat (48 + value) else Char.ofNat (87 + value)

/-- The text of one character inside a string. -/
def escapeChar (c : Char) : String :=
  match c with
  | '"' => "\\\""
  | '\\' => "\\\\"
  | '\n' => "\\n"
  | '\r' => "\\r"
  | '\t' => "\\t"
  | c =>
    if c.toNat = 8 then "\\b"
    else if c.toNat = 12 then "\\f"
    else if c.toNat < 32 then
      "\\u00".push (hexDigit (c.toNat / 16)) |>.push (hexDigit (c.toNat % 16))
    else String.singleton c

/-- A string in quotes. -/
def quote (text : String) : String :=
  (text.toList.foldl (fun out c => out ++ escapeChar c) "\"") ++ "\""

/-- The text of a double. -/
def floatText (value : Float) : String := (Decimal.render? value).getD "null"

mutual

/-- The text without spaces. -/
def compact : Json → String
  | .null => "null"
  | .bool value => if value then "true" else "false"
  | .int value => toString value
  | .float value => floatText value
  | .str value => quote value
  | .arr items => "[" ++ compactItems items ++ "]"
  | .obj members => "\x7b" ++ compactMembers members ++ "\x7d"

def compactItems : List Json → String
  | [] => ""
  | [item] => compact item
  | item :: rest => compact item ++ "," ++ compactItems rest

def compactMembers : List (String × Json) → String
  | [] => ""
  | [(key, value)] => quote key ++ ":" ++ compact value
  | (key, value) :: rest => quote key ++ ":" ++ compact value ++ "," ++ compactMembers rest

end

/-- A line break followed by the indentation of a level. -/
def lineBreak (level : Nat) : String := "\n".pushn ' ' (2 * level)

mutual

/-- The indented text of a value that stands at `level`. -/
def prettyAt (level : Nat) : Json → String
  | .null => "null"
  | .bool value => if value then "true" else "false"
  | .int value => toString value
  | .float value => floatText value
  | .str value => quote value
  | .arr [] => "[]"
  | .arr (item :: rest) =>
    "[" ++ lineBreak (level + 1) ++ prettyItems (level + 1) (item :: rest) ++ lineBreak level ++ "]"
  | .obj [] => "\x7b\x7d"
  | .obj (member :: rest) =>
    "\x7b" ++ lineBreak (level + 1) ++ prettyMembers (level + 1) (member :: rest) ++ lineBreak level
      ++ "\x7d"

def prettyItems (level : Nat) : List Json → String
  | [] => ""
  | [item] => prettyAt level item
  | item :: rest => prettyAt level item ++ "," ++ lineBreak level ++ prettyItems level rest

def prettyMembers (level : Nat) : List (String × Json) → String
  | [] => ""
  | [(key, value)] => quote key ++ ": " ++ prettyAt level value
  | (key, value) :: rest =>
    quote key ++ ": " ++ prettyAt level value ++ "," ++ lineBreak level ++ prettyMembers level rest

end

/-- The indented text. -/
def pretty (value : Json) : String := prettyAt 0 value

end EntityGraph.Json
