import EntityGraph.Decimal.Integer
import EntityGraph.Pattern.Basic

/-!
# Templates

A template is a text with references to the groups of a pattern: `$name` or `$1`, with the longest
possible name of ASCII letters, digits and underscores, or `${name}` with any text up to the brace.
Two dollar signs stand for one, and a dollar sign that begins no reference stands for itself. A
group that does not exist or took no part in the match gives the empty text.
-/
namespace EntityGraph.Pattern

/-- A piece of a template. -/
inductive Piece where
  | char (c : Char)
  | group (name : List Char)
  deriving DecidableEq, Repr, Inhabited

def isReferenceChar (c : Char) : Bool := isAsciiLetter c || Text.isDigit c || c == '_'

/-- The text up to a closing brace, and what follows it. -/
def braced? (chars : List Char) : Option (List Char × List Char) :=
  match chars.dropWhile (· ≠ '\x7d') with
  | _ :: rest => some (chars.takeWhile (· ≠ '\x7d'), rest)
  | [] => none

/-- The reference that starts behind a dollar sign, and what follows it. -/
def reference? (chars : List Char) : Option (List Char × List Char) :=
  match chars with
  | '\x7b' :: rest => braced? rest
  | _ =>
    let name := chars.takeWhile isReferenceChar
    if name.isEmpty then none else some (name, chars.drop name.length)

/-- The pieces of a template, which has at most `length` characters. -/
def pieces : Nat → List Char → List Piece
  | 0, _ | _, [] => []
  | length + 1, '$' :: '$' :: rest => .char '$' :: pieces length rest
  | length + 1, '$' :: rest =>
    match reference? rest with
    | some (name, rest) => .group name :: pieces length rest
    | none => .char '$' :: pieces length rest
  | length + 1, c :: rest => .char c :: pieces length rest

/-- The group that a reference means. -/
def referencedGroup? (pattern : Pattern) (name : List Char) : Option Nat :=
  Decimal.parseWord? name <|> pattern.groupIndex? (String.ofList name)

def Piece.expand (pattern : Pattern) (found : Match) : Piece → List Char
  | char c => [c]
  | group name => ((pattern.referencedGroup? name).bind found.group?).getD []

/-- A template with the groups of a match in place of the references. -/
def expand (pattern : Pattern) (found : Match) (template : String) : List Char :=
  (pieces template.length template.toList).flatMap (Piece.expand pattern found)

/-- The text around a match, with the expanded template in place of the match. -/
def substitute (pattern : Pattern) (found : Match) (template : String) : String :=
  let start := (found.mark? 0).getD 0
  let stop := (found.mark? 1).getD 0
  String.ofList
    (found.text.take start ++ expand pattern found template ++ found.text.drop stop)

/-- Replaces the first match, if there is one. -/
def replace? (pattern : Pattern) (text template : String) : Option String :=
  (pattern.find? text).map fun found => pattern.substitute found template

end EntityGraph.Pattern
