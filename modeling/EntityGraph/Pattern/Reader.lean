import EntityGraph.Decimal.Integer
import EntityGraph.Error
import EntityGraph.Pattern.Basic

/-!
# Reading patterns

The grammar: alternatives separated by bars; each a sequence of characters, escapes, bracketed sets,
groups and assertions with repetitions behind them. Flags change how the rest of a group is read, in
all of its alternatives. Look-around and references back to a group do not exist. The recursions
have a step count; every step uses a character, so the length of the text bounds it.
-/
namespace EntityGraph.Pattern

/-- How a piece of a pattern is read. -/
structure Flags where
  caseless : Bool
  /-- `^` and `$` stand for the ends of lines. -/
  multiLine : Bool
  /-- The dot matches line ends. -/
  dotAll : Bool
  /-- Repetitions are lazy unless marked. -/
  swapGreed : Bool
  unicode : Bool
  /-- Blanks and comments in the pattern are skipped. -/
  verbose : Bool
  /-- A carriage return ends a line too. -/
  returns : Bool
  deriving DecidableEq, Repr, Inhabited

namespace Flags

def standard : Flags := ⟨false, false, false, false, true, false, false⟩

/-- Sets the flag of a letter. -/
def set? (letter : Char) (value : Bool) (flags : Flags) : Option Flags :=
  match letter with
  | 'i' => some { flags with caseless := value }
  | 'm' => some { flags with multiLine := value }
  | 's' => some { flags with dotAll := value }
  | 'U' => some { flags with swapGreed := value }
  | 'u' => some { flags with unicode := value }
  | 'x' => some { flags with verbose := value }
  | 'R' => some { flags with returns := value }
  | _ => none

/-- A set as it counts under the flags: with the case forms of its members, and the complement if
negated. Without Unicode a set holds ASCII characters only. -/
def finish? (flags : Flags) (negated : Bool) (members : CharSet) : Option CharSet :=
  let folded :=
    if !flags.caseless then members
    else if flags.unicode then .caseless members
    else .asciiCaseless members
  let result := if negated then .compl folded else folded
  if flags.unicode || result.isAscii then some result else none

/-- A character as it stands in a pattern. -/
def literal (flags : Flags) (c : Char) : Node :=
  if !flags.caseless then .set (.single c)
  else if flags.unicode then .set (.caseless (.single c))
  else .set (.asciiCaseless (.single c))

/-- What the dot matches. -/
def dot? (flags : Flags) : Option Node :=
  if !flags.unicode then none
  else if flags.dotAll then some (.set .any)
  else if flags.returns then some (.set (.compl (.union (.single '\n') (.single '\x0d'))))
  else some (.set (.compl (.single '\n')))

def lineStart (flags : Flags) : Assertion :=
  if flags.multiLine then .lineStart flags.returns else .textStart

def lineEnd (flags : Flags) : Assertion :=
  if flags.multiLine then .lineEnd flags.returns else .textEnd

end Flags

/-! ## Blanks -/

/-- Drops blanks, and comments from a number sign to the end of the line. -/
def skipVerbose (inComment : Bool) : List Char → List Char
  | [] => []
  | c :: rest =>
    if inComment then skipVerbose (c != '\n') rest
    else if Text.isBlank c then skipVerbose false rest
    else if c = '#' then skipVerbose true rest
    else c :: rest

def skip (flags : Flags) (chars : List Char) : List Char :=
  if flags.verbose then skipVerbose false chars else chars

/-- The next character that counts, seen from inside a bracket. -/
def peek? (flags : Flags) (chars : List Char) : Option Char :=
  if !flags.verbose then chars.head?
  else
    match chars.dropWhile Text.isBlank with
    | '#' :: rest => (rest.dropWhile Text.isBlank).head?
    | rest => rest.head?

/-! ## Numbers -/

/-- Decimal digits, between which blanks may be skipped. -/
def digits (flags : Flags) : Nat → List Char → List Char × List Char
  | 0, chars => ([], chars)
  | _, [] => ([], [])
  | steps + 1, c :: rest =>
    if Text.isDigit c then
      let (more, rest) := digits flags steps (skip flags rest)
      (c :: more, rest)
    else ([], c :: rest)

/-- A number, with blanks around it; none if there are no digits or if it exceeds 32 bits. -/
def count (flags : Flags) (chars : List Char) : Option Nat × List Char :=
  let chars := chars.dropWhile Text.isBlank
  let (digits, rest) := digits flags chars.length chars
  let rest := if (rest.head?.map Text.isBlank).getD false then
      skip flags (rest.dropWhile Text.isBlank)
    else rest
  ((Decimal.natural? digits).filter (· ≤ Decimal.maxCount), rest)

/-- The bounds of a counted repetition, behind its opening brace. -/
def bounds? (flags : Flags) (chars : List Char) : Option ((Nat × Option Nat) × List Char) :=
  match count flags (skip flags chars) with
  | (least, ',' :: rest) =>
    match skip flags rest with
    | '\x7d' :: rest => least.map fun least => ((least, none), rest)
    | rest =>
      match least, count flags rest with
      | some least, (some most, '\x7d' :: rest) =>
        if least ≤ most then some ((least, some most), rest) else none
      | _, _ => none
  | (some times, '\x7d' :: rest) => some ((times, some times), rest)
  | _ => none

/-! ## Escapes -/

/-- What an escape stands for. -/
inductive Escape where
  | char (c : Char)
  /-- An octet by its number. -/
  | octet (c : Char)
  | set (members : CharSet)
  | look (assertion : Assertion)
  deriving Repr, Inhabited

def hexDigitValue? (c : Char) : Option Nat :=
  if Text.isDigit c then some (c.toNat - 48)
  else if 'a' ≤ c && c ≤ 'f' then some (c.toNat - 87)
  else if 'A' ≤ c && c ≤ 'F' then some (c.toNat - 55)
  else none

/-- The character of a code point. -/
def charOfCode? (code : Nat) : Option Char :=
  if h : code.isValidChar then some (Char.ofNatAux code h) else none

/-- A fixed number of hexadecimal digits, of which `code` has been read. -/
def fixedHex? (flags : Flags) : Nat → Nat → List Char → Option (Char × List Char)
  | 0, code, chars => (charOfCode? code).map (·, chars)
  | _ + 1, _, [] => none
  | left + 1, code, c :: rest => do
    fixedHex? flags left (16 * code + (← hexDigitValue? c)) (skip flags rest)

/-- Hexadecimal digits up to a closing brace. -/
def bracedHex? (flags : Flags) : Nat → Option Nat → List Char → Option (Char × List Char)
  | 0, _, _ | _, _, [] => none
  | steps + 1, code, c :: rest =>
    let rest := skip flags rest
    if c = '\x7d' then (code.bind charOfCode?).map (·, rest)
    else do bracedHex? flags steps (some (16 * code.getD 0 + (← hexDigitValue? c))) rest

/-- A character by its code point, behind `x`, `u` or `U`. -/
def hexEscape? (flags : Flags) (letter : Char) (chars : List Char) :
    Option (Escape × List Char) :=
  match skip flags chars with
  | '\x7b' :: rest =>
    (bracedHex? flags (rest.length + 1) none (skip flags rest)).map fun (c, rest) => (.char c, rest)
  | rest =>
    match letter with
    | 'x' => (fixedHex? flags 2 0 rest).map fun (c, rest) => (.octet c, rest)
    | 'u' => (fixedHex? flags 4 0 rest).map fun (c, rest) => (.char c, rest)
    | _ => (fixedHex? flags 8 0 rest).map fun (c, rest) => (.char c, rest)

/-- The characters up to a closing brace. -/
def bracedName? (flags : Flags) : Nat → List Char → Option (List Char × List Char)
  | 0, _ | _, [] => none
  | steps + 1, c :: rest =>
    if c = '\x7d' then some ([], rest)
    else (bracedName? flags steps (skip flags rest)).map fun (name, rest) => (c :: name, rest)

/-- The two parts of a text around the first occurrence of a pair of characters. -/
def cutPair? (first second : Char) : List Char → Option (List Char × List Char)
  | c :: d :: rest =>
    if c = first && d = second then some ([], rest)
    else (cutPair? first second (d :: rest)).map fun (before, after) => (c :: before, after)
  | _ => none

/-- The set of a class name, and whether the name itself negates it: `name`, `name!=value`,
`name:value` or `name=value`. -/
def classByName? (name : List Char) : Option (Bool × CharSet) :=
  let byValue (property value : String) : Option CharSet := CharSet.ofUnicodeValue? property value
  match cutPair? '!' '=' name with
  | some (property, value) =>
    (byValue (String.ofList property) (String.ofList value)).map (true, ·)
  | none =>
    let text := String.ofList name
    match Text.cut? ':' text <|> Text.cut? '=' text with
    | some (property, value) => (byValue property value).map (false, ·)
    | none => (CharSet.ofUnicodeName? text).map (false, ·)

/-- A class of Unicode, behind `p` or `P`. -/
def unicodeClass? (flags : Flags) (negated : Bool) (chars : List Char) :
    Option (Escape × List Char) := do
  let (name, rest) ← match skip flags chars with
    | '\x7b' :: rest => bracedName? flags (rest.length + 1) (skip flags rest)
    | '\\' :: _ | [] => none
    | c :: rest => some ([c], skip flags rest)
  let (inverted, members) ← classByName? name
  if flags.unicode then
    let members ← flags.finish? (negated != inverted) members
    return (.set members, rest)
  else none

/-- A class of digits, blanks or words. -/
def shortClass? (flags : Flags) (letter : Char) : Option CharSet :=
  let (all, asciiName) := match Text.lower letter with
    | 'd' => (CharSet.digit, "digit")
    | 's' => (CharSet.blank, "space")
    | _ => (CharSet.word, "word")
  let members := if flags.unicode then some all else CharSet.ofAsciiName? asciiName
  if !Text.isUpper letter then members
  else if flags.unicode then members.map .compl
  else none

def isBoundaryNameChar (c : Char) : Bool := isAsciiLetter c || c == '-'

/-- The name of a word boundary up to a closing brace. -/
def boundaryName? (flags : Flags) : Nat → List Char → Option (List Char × List Char)
  | 0, _ | _, [] => none
  | steps + 1, c :: rest =>
    if c = '\x7d' then some ([], rest)
    else if isBoundaryNameChar c then
      (boundaryName? flags steps (skip flags rest)).map fun (name, rest) => (c :: name, rest)
    else none

/-- A word boundary, behind `b`; a brace with a name in it selects a kind, any other brace is left
for a repetition. -/
def boundary? (flags : Flags) (chars : List Char) : Option (Assertion × List Char) :=
  let ascii := !flags.unicode
  match chars with
  | '\x7b' :: rest => do
    let first ← (skip flags rest).head?
    if isBoundaryNameChar first then
      let (name, rest) ← boundaryName? flags (rest.length + 1) (skip flags rest)
      match String.ofList name with
      | "start" => return (.wordStart ascii, rest)
      | "end" => return (.wordEnd ascii, rest)
      | "start-half" => return (.wordStartHalf ascii, rest)
      | "end-half" => return (.wordEndHalf ascii, rest)
      | _ => none
    else return (.wordBoundary ascii, chars)
  | _ => some (.wordBoundary ascii, chars)

/-- Whether a backslash before the character makes it stand for itself. -/
def isEscapable (c : Char) : Bool :=
  c.toNat < 128 && !isAsciiLetter c && !Text.isDigit c && c != '<' && c != '>'

/-- What follows a backslash. -/
def escape? (flags : Flags) (chars : List Char) : Option (Escape × List Char) :=
  match chars with
  | [] => none
  | c :: rest =>
    match c with
    | 'x' | 'u' | 'U' => hexEscape? flags c rest
    | 'p' => unicodeClass? flags false rest
    | 'P' => unicodeClass? flags true rest
    | 'd' | 's' | 'w' | 'D' | 'S' | 'W' => (shortClass? flags c).map fun set => (.set set, rest)
    | 'a' => some (.char '\x07', rest)
    | 'f' => some (.char '\x0c', rest)
    | 't' => some (.char '\t', rest)
    | 'r' => some (.char '\x0d', rest)
    | 'n' => some (.char '\n', rest)
    | 'v' => some (.char '\x0b', rest)
    | 'A' => some (.look .textStart, rest)
    | 'z' => some (.look .textEnd, rest)
    | 'B' => some (.look (.noWordBoundary !flags.unicode), rest)
    | '<' => some (.look (.wordStart !flags.unicode), rest)
    | '>' => some (.look (.wordEnd !flags.unicode), rest)
    | 'b' => (boundary? flags rest).map fun (assertion, rest) => (.look assertion, rest)
    | _ => if isEscapable c then some (.char c, rest) else none

/-! ## Bracketed sets -/

/-- A member of a bracketed set. -/
inductive Member where
  | char (c : Char)
  | set (members : CharSet)

def Member.toSet : Member → CharSet
  | char c => .single c
  | set members => members

/-- Without Unicode only ASCII characters can be members. -/
def Member.ofChar? (flags : Flags) (c : Char) : Option Member :=
  if flags.unicode || c.toNat < 128 then some (.char c) else none

def member? (flags : Flags) (chars : List Char) : Option (Member × List Char) :=
  match chars with
  | [] => none
  | '\\' :: rest => do
    match ← escape? flags rest with
    | (.char c, rest) | (.octet c, rest) => return (← Member.ofChar? flags c, rest)
    | (.set members, rest) => return (.set members, rest)
    | (.look _, _) => none
  | c :: rest => (Member.ofChar? flags c).map (·, rest)

/-- A member, or the range between two of them, and what follows. -/
def memberOrRange? (flags : Flags) (chars : List Char) : Option (CharSet × List Char) := do
  let (first, rest) ← member? flags chars
  match skip flags rest with
  | [] => none
  | '-' :: after =>
    if peek? flags after == some ']' || peek? flags after == some '-' then
      return (first.toSet, '-' :: after)
    else
      let (last, rest) ← member? flags (skip flags after)
      match first, last with
      | .char low, .char high => if low ≤ high then some (.range low high, rest) else none
      | _, _ => none
  | rest => return (first.toSet, rest)

inductive SetOperator where
  | inter
  | diff
  | symmDiff

def SetOperator.apply : SetOperator → CharSet → CharSet → CharSet
  | inter => .inter
  | diff => .diff
  | symmDiff => .symmDiff

/-- The left operand and the operator that wait for a right operand. -/
abbrev Pending := Option (CharSet × SetOperator)

def complete (flags : Flags) (pending : Pending) (right : CharSet) : CharSet :=
  let fold (members : CharSet) : CharSet :=
    if !flags.caseless then members
    else if flags.unicode then .caseless members
    else .asciiCaseless members
  match pending with
  | some (left, operator) => operator.apply (fold left) (fold right)
  | none => right

/-- A class such as `[:alpha:]`, behind its opening bracket. -/
def asciiClass? (flags : Flags) (chars : List Char) : Option (Option CharSet × List Char) :=
  match chars with
  | ':' :: rest =>
    let (negated, rest) := match rest with
      | '^' :: rest => (true, rest)
      | rest => (false, rest)
    match rest.dropWhile (· ≠ ':') with
    | ':' :: ']' :: after =>
      (CharSet.ofAsciiName? (String.ofList (rest.takeWhile (· ≠ ':')))).map fun members =>
        (flags.finish? negated members, after)
    | _ => none
  | _ => none

/-- Hyphens at the start of a bracket stand for themselves. -/
def leadingHyphens (flags : Flags) : Nat → List Char → Bool × List Char
  | 0, chars => (false, chars)
  | steps + 1, '-' :: rest => (true, (leadingHyphens flags steps (skip flags rest)).2)
  | _, chars => (false, chars)

/-- The start of a bracket: whether it is negated, and the hyphens or the closing bracket that
stand for themselves there. -/
def openBracket (flags : Flags) (chars : List Char) : Bool × CharSet × List Char :=
  let chars := skip flags chars
  let (negated, chars) := match chars with
    | '^' :: rest => (true, skip flags rest)
    | chars => (false, chars)
  let (hyphens, chars) := leadingHyphens flags chars.length chars
  if hyphens then (negated, .single '-', chars)
  else
    match chars with
    | ']' :: rest => (negated, .single ']', skip flags rest)
    | chars => (negated, .empty, chars)

/-- The members of a bracket up to its end. `members` is what has been read since the last
operator. -/
def bracketBody? (flags : Flags) :
    Nat → CharSet → Pending → List Char → Option (CharSet × List Char)
  | 0, _, _, _ => none
  | steps + 1, members, pending, chars =>
    let operate (operator : SetOperator) (rest : List Char) : Option (CharSet × List Char) :=
      bracketBody? flags steps .empty (some (complete flags pending members, operator)) rest
    match skip flags chars with
    | [] => none
    | ']' :: rest => some (complete flags pending members, rest)
    | '[' :: rest =>
      match asciiClass? flags rest with
      | some (set, rest) => do
        bracketBody? flags steps (.union members (← set)) pending rest
      | none => do
        let (negated, initial, inner) := openBracket flags rest
        let (body, rest) ← bracketBody? flags steps initial none inner
        let set ← flags.finish? negated body
        bracketBody? flags steps (.union members set) pending rest
    | '&' :: '&' :: rest => operate .inter rest
    | '-' :: '-' :: rest => operate .diff rest
    | '~' :: '~' :: rest => operate .symmDiff rest
    | chars => do
      let (set, rest) ← memberOrRange? flags chars
      bracketBody? flags steps (.union members set) pending rest

/-- A bracketed set, behind its opening bracket. -/
def bracket? (flags : Flags) (chars : List Char) : Option (CharSet × List Char) := do
  let (negated, initial, inner) := openBracket flags chars
  let (body, rest) ← bracketBody? flags (inner.length + 1) initial none inner
  return (← flags.finish? negated body, rest)

/-! ## Groups -/

/-- What the opening of a group says. -/
inductive GroupHead where
  /-- Flags for the rest of the enclosing group. -/
  | flags (flags : Flags)
  | plain (flags : Flags)
  | marked
  | named (name : String)

def isLookAround (chars : List Char) : Bool :=
  match chars with
  | '?' :: '=' :: _ | '?' :: '!' :: _ | '?' :: '<' :: '=' :: _ | '?' :: '<' :: '!' :: _ => true
  | _ => false

/-- Flag letters up to a colon or a closing parenthesis, which comes with the result. `seen` holds
the letters so far; no letter may occur twice, and a hyphen needs a letter behind it. -/
def flagLetters? (seen : List Char) (flags : Flags) :
    List Char → Option (List Char × Flags × Char × List Char)
  | [] => none
  | c :: rest =>
    if c = ':' || c = ')' then
      if seen.head? == some '-' then none else some (seen, flags, c, rest)
    else if seen.contains c then none
    else if c = '-' then flagLetters? (c :: seen) flags rest
    else
      match flags.set? c (!seen.contains '-') with
      | some flags => flagLetters? (c :: seen) flags rest
      | none => none

def isNameStart (c : Char) : Bool := c == '_' || isAlphabetic c

def isNameChar (c : Char) : Bool :=
  c == '_' || c == '.' || c == '[' || c == ']' || isAlphanumeric c

/-- The name of a group, up to a closing angle bracket. -/
def groupName? (chars : List Char) : Option (GroupHead × List Char) :=
  let name := chars.takeWhile (· ≠ '>')
  match name, chars.drop name.length with
  | first :: others, _ :: rest =>
    if isNameStart first && others.all isNameChar then some (.named (String.ofList name), rest)
    else none
  | _, _ => none

/-- The opening of a group, behind its parenthesis. -/
def groupHead? (flags : Flags) (chars : List Char) : Option (GroupHead × List Char) :=
  let chars := skip flags chars
  if isLookAround chars then none
  else
    match chars with
    | '?' :: 'P' :: '<' :: rest | '?' :: '<' :: rest => groupName? rest
    | '?' :: rest => do
      let (seen, inner, last, rest) ← flagLetters? [] flags rest
      if last = ':' then return (.plain inner, rest)
      else if seen.isEmpty then none
      else return (.flags inner, rest)
    | _ => some (.marked, chars)

/-! ## The whole -/

/-- A piece of a pattern and how deep its groups, repetitions, sequences and alternatives are
nested. -/
structure Built where
  node : Node
  depth : Nat
  deriving Repr, Inhabited

namespace Built

def leaf (node : Node) : Built := ⟨node, 0⟩

/-- One level around some pieces, unless there is only one. -/
def join (combine : Node → Node → Node) (parts : List Built) : Built :=
  match parts with
  | [] => leaf .empty
  | [part] => part
  | first :: others =>
    ⟨others.foldl (fun node part => combine node part.node) first.node,
      (parts.map (·.depth)).foldl max 0 + 1⟩

def group (index : Option Nat) (body : Built) : Built :=
  match index with
  | some index => ⟨.group index body.node, body.depth + 1⟩
  | none => ⟨body.node, body.depth + 1⟩

end Built

/-- What has been read of a sequence; flags stand in it as items that nothing can repeat. -/
inductive Item where
  | flags
  | piece (built : Built)

def Item.toBuilt : Item → Built
  | flags => .leaf .empty
  | piece built => built

/-- A sequence of items, the last one first. -/
def sequenceOf (items : List Item) : Built := .join .seq (items.reverse.map Item.toBuilt)

/-- Alternatives, the last one first. -/
def choiceOf (branches : List Built) : Built := .join .alt branches.reverse

/-- The groups opened so far. -/
structure Groups where
  count : Nat
  names : List (String × Nat)
  deriving Inhabited

/-- Opens a group with the next index. -/
def Groups.open? (groups : Groups) (name : Option String) : Option Groups :=
  let index := groups.count + 1
  match name with
  | some name =>
    if groups.names.any (·.1 == name) then none else some ⟨index, groups.names ++ [(name, index)]⟩
  | none => some ⟨index, groups.names⟩

/-- Puts a repetition around the last item. -/
def repeatLast? (flags : Flags) (least : Nat) (most : Option Nat) (lazy : Bool) :
    List Item → Option (List Item)
  | .piece part :: items =>
    let node := Node.repeated least most (lazy == flags.swapGreed) part.node
    some (.piece ⟨node, part.depth + 1⟩ :: items)
  | _ => none

/-- A question mark behind a repetition makes it lazy. -/
def lazyMark (chars : List Char) : Bool × List Char :=
  match chars with
  | '?' :: rest => (true, rest)
  | _ => (false, chars)

/-- A single character, an escape, the dot, a set or an assertion. -/
def primitive? (flags : Flags) (chars : List Char) : Option (Built × List Char) :=
  match chars with
  | [] => none
  | '[' :: rest => (bracket? flags rest).map fun (members, rest) => (⟨.set members, 1⟩, rest)
  | '.' :: rest => flags.dot?.map fun node => (.leaf node, rest)
  | '^' :: rest => some (.leaf (.look flags.lineStart), rest)
  | '$' :: rest => some (.leaf (.look flags.lineEnd), rest)
  | '\\' :: rest => do
    match ← escape? flags rest with
    | (.char c, rest) => return (.leaf (flags.literal c), rest)
    | (.octet c, rest) =>
      if flags.unicode || c.toNat < 128 then some (.leaf (flags.literal c), rest) else none
    | (.set members, rest) => return (.leaf (.set members), rest)
    | (.look assertion, rest) => return (.leaf (.look assertion), rest)
  | c :: rest => some (.leaf (flags.literal c), rest)

/-- Reads alternatives up to the end of the group or text. `branches` holds the finished ones and
`items` the one that is being read. -/
def alternatives? :
    Nat → Flags → Groups → List Built → List Item → List Char →
      Option (Built × Groups × List Char)
  | 0, _, _, _, _, _ => none
  | steps + 1, flags, groups, branches, items, chars =>
    let continue? (items : List Item) (rest : List Char) :=
      alternatives? steps flags groups branches items rest
    match skip flags chars with
    | [] => some (choiceOf (sequenceOf items :: branches), groups, [])
    | ')' :: rest => some (choiceOf (sequenceOf items :: branches), groups, ')' :: rest)
    | '|' :: rest => alternatives? steps flags groups (sequenceOf items :: branches) [] rest
    | '(' :: rest => do
      let body? (inner : Flags) (groups : Groups) (index : Option Nat) (rest : List Char) := do
        match ← alternatives? steps inner groups [] [] rest with
        | (body, groups, ')' :: rest) =>
          alternatives? steps flags groups branches (.piece (body.group index) :: items) rest
        | _ => none
      match ← groupHead? flags rest with
      | (.flags flags, rest) => alternatives? steps flags groups branches (.flags :: items) rest
      | (.plain inner, rest) => body? inner groups none rest
      | (.marked, rest) => body? flags (← groups.open? none) (some (groups.count + 1)) rest
      | (.named name, rest) =>
        body? flags (← groups.open? (some name)) (some (groups.count + 1)) rest
    | '?' :: rest => do
      let (lazy, rest) := lazyMark rest
      continue? (← repeatLast? flags 0 (some 1) lazy items) rest
    | '*' :: rest => do
      let (lazy, rest) := lazyMark rest
      continue? (← repeatLast? flags 0 none lazy items) rest
    | '+' :: rest => do
      let (lazy, rest) := lazyMark rest
      continue? (← repeatLast? flags 1 none lazy items) rest
    | '\x7b' :: rest => do
      let ((least, most), rest) ← bounds? flags rest
      let (lazy, rest) := lazyMark (skip flags rest)
      continue? (← repeatLast? flags least most lazy items) rest
    | chars => do
      let (part, rest) ← primitive? flags chars
      continue? (.piece part :: items) rest

/-- How deep a pattern may be nested. -/
def depthLimit : Nat := 250

/-- How much room a pattern may take, in octets. -/
def sizeLimit : Nat := 10 * 1024 * 1024

/-- The pattern of a text. -/
def ofText? (text : String) : Option Pattern :=
  match alternatives? (text.length + 2) .standard ⟨0, []⟩ [] [] text.toList with
  | some (built, groups, []) =>
    if built.depth ≤ depthLimit && [false, true].all (built.node.size · ≤ sizeLimit) then
      some ⟨built.node, groups.names⟩
    else none
  | _ => none

/-- The pattern that has to match a whole text. The ends are put around the text of the pattern, so
that a parenthesis in it can close the outer group. -/
def whole (text : String) : Result Pattern :=
  match ofText? ("^(?:" ++ text ++ ")$") with
  | some pattern => .ok pattern
  | none => .error (.invalidPattern text)

end EntityGraph.Pattern
