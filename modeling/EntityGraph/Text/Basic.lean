/-!
# Characters and pieces of text

The blanks of Unicode, trimming, splitting at a character, replacing a pair of characters, and the
ASCII letters. Everything works on lists of characters, with a `String` face where callers hold
strings.
-/
namespace EntityGraph.Text

/-- The characters with the Unicode property White_Space. -/
def isBlank (c : Char) : Bool :=
  let n := c.toNat
  (9 ≤ n && n ≤ 13) || n = 32 || n = 0x85 || n = 0xA0 || n = 0x1680 || (0x2000 ≤ n && n ≤ 0x200A)
    || n = 0x2028 || n = 0x2029 || n = 0x202F || n = 0x205F || n = 0x3000

def trimLeftChars (chars : List Char) : List Char := chars.dropWhile isBlank

def trimRightChars (chars : List Char) : List Char := (chars.reverse.dropWhile isBlank).reverse

def trimChars (chars : List Char) : List Char := trimRightChars (trimLeftChars chars)

/-- The text without blanks at its ends. -/
def trim (text : String) : String := String.ofList (trimChars text.toList)

/-- The pieces between the occurrences of a separator; always at least one. -/
def splitChars (separator : Char) : List Char → List (List Char)
  | [] => [[]]
  | c :: rest =>
    if c = separator then [] :: splitChars separator rest
    else
      match splitChars separator rest with
      | piece :: pieces => (c :: piece) :: pieces
      | [] => [[c]]

def split (separator : Char) (text : String) : List String :=
  (splitChars separator text.toList).map String.ofList

/-- The maximal runs of characters that are not blank. -/
def words (text : String) : List String :=
  let rec go : List Char → List Char → List (List Char)
    | current, [] => if current.isEmpty then [] else [current.reverse]
    | current, c :: rest =>
      if isBlank c then
        if current.isEmpty then go [] rest else current.reverse :: go [] rest
      else go (c :: current) rest
  (go [] text.toList).map String.ofList

/-- Replaces the pair `first second` by `by_`, from left to right, without overlaps. -/
def replacePair (first second by_ : Char) : List Char → List Char
  | [] => []
  | [c] => [c]
  | c :: d :: rest =>
    if c = first ∧ d = second then by_ :: replacePair first second by_ rest
    else c :: replacePair first second by_ (d :: rest)

def isUpper (c : Char) : Bool := 'A' ≤ c && c ≤ 'Z'

def isLower (c : Char) : Bool := 'a' ≤ c && c ≤ 'z'

def isDigit (c : Char) : Bool := '0' ≤ c && c ≤ '9'

/-- The lower-case letter of an ASCII capital; other characters stay. -/
def lower (c : Char) : Char := if isUpper c then Char.ofNat (c.toNat + 32) else c

/-- The capital of an ASCII lower-case letter; other characters stay. -/
def upper (c : Char) : Char := if isLower c then Char.ofNat (c.toNat - 32) else c

/-- Whether `whole` begins with `start`, and what follows. -/
def dropStart? (start whole : String) : Option String :=
  if start.toList.isPrefixOf whole.toList then
    some (String.ofList (whole.toList.drop start.length))
  else none

/-- The part before the first separator and the part after it. -/
def cut? (separator : Char) (text : String) : Option (String × String) :=
  let before := text.toList.takeWhile (· ≠ separator)
  match text.toList.dropWhile (· ≠ separator) with
  | _ :: rest => some (String.ofList before, String.ofList rest)
  | [] => none

/-- Puts a text before the first one that is not smaller. -/
def insertSorted (text : String) : List String → List String
  | [] => [text]
  | first :: rest => if first < text then first :: insertSorted text rest else text :: first :: rest

/-- The texts in the order of their characters. -/
def sorted (texts : List String) : List String := texts.foldr insertSorted []

/-- Sorted, without repetitions. -/
def sortDistinct (texts : List String) : List String :=
  (sorted texts).foldr
    (fun text rest => if rest.head? == some text then rest else text :: rest) []

end EntityGraph.Text
