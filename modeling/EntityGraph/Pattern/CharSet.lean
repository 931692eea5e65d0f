import EntityGraph.Unicode.Folding
import EntityGraph.Unicode.Property
import EntityGraph.Unicode.Script

/-!
# Character sets

The sets of characters that a pattern can denote, as terms: ranges, the classes of Unicode, and the
operations between them. Whether a character belongs to a set is computed from the term. A set is
written out, as ranges of code points, only to see how much room it takes.
-/
namespace EntityGraph.Pattern

inductive CharSet where
  | empty
  /-- All characters between two, both included. -/
  | range (low high : Char)
  /-- Decimal digits. -/
  | digit
  /-- White space. -/
  | blank
  /-- Letters, marks, decimal digits, connectors and joiners. -/
  | word
  /-- The characters of some general categories. -/
  | category (names : List String)
  | script (name : String)
  | scriptExtension (name : String)
  /-- The characters with a binary property. -/
  | property (name : String)
  | assigned
  | union (left right : CharSet)
  | inter (left right : CharSet)
  | diff (left right : CharSet)
  | symmDiff (left right : CharSet)
  | compl (set : CharSet)
  /-- With all case forms of its members. -/
  | caseless (set : CharSet)
  /-- With the case forms of its ASCII members. -/
  | asciiCaseless (set : CharSet)
  deriving DecidableEq, Repr, Inhabited

/-- Whether a character has a test property; ASCII characters are decided without tables. -/
def asciiOr (test : Char → Bool) (table : Char → Bool) (c : Char) : Bool :=
  if c.toNat < 128 then test c else table c

def isAsciiLetter (c : Char) : Bool := Text.isUpper c || Text.isLower c

/-- The letters of all scripts. -/
def isAlphabetic : Char → Bool := asciiOr isAsciiLetter (Unicode.hasProperty "alphabetic")

/-- Letters and numbers of all scripts. -/
def isAlphanumeric : Char → Bool :=
  asciiOr (fun c => isAsciiLetter c || Text.isDigit c) fun c =>
    Unicode.hasProperty "alphabetic" c || ["Nd", "Nl", "No"].contains (Unicode.category c)

def isDecimalDigit : Char → Bool := asciiOr Text.isDigit (Unicode.isDecimal ·.toNat)

/-- The categories of word characters that are not letters. -/
def wordCategories : List String := ["Mn", "Mc", "Me", "Nd", "Pc"]

/-- The characters of words. -/
def isWordChar : Char → Bool :=
  asciiOr (fun c => isAsciiLetter c || Text.isDigit c || c == '_') fun c =>
    Unicode.hasProperty "alphabetic" c || wordCategories.contains (Unicode.category c)
      || Unicode.hasProperty "joincontrol" c

/-- The ASCII characters of words. -/
def isAsciiWordChar : Char → Bool :=
  asciiOr (fun c => isAsciiLetter c || Text.isDigit c || c == '_') fun _ => false

namespace CharSet

/-- The set of one character. -/
def single (c : Char) : CharSet := range c c

/-- The greatest character. -/
def lastChar : Char := Char.ofNat 0x10ffff

def any : CharSet := range '\x00' lastChar

def contains : CharSet → Char → Bool
  | empty, _ => false
  | range low high, c => low ≤ c && c ≤ high
  | digit, c => isDecimalDigit c
  | blank, c => Text.isBlank c
  | word, c => isWordChar c
  | category names, c => names.contains (Unicode.category c)
  | script name, c => Unicode.script c == name
  | scriptExtension name, c => (Unicode.scriptExtensions c).contains name
  | property name, c => Unicode.hasProperty name c
  | assigned, c => Unicode.category c != "Cn"
  | union left right, c => left.contains c || right.contains c
  | inter left right, c => left.contains c && right.contains c
  | diff left right, c => left.contains c && !right.contains c
  | symmDiff left right, c => left.contains c != right.contains c
  | compl set, c => !set.contains c
  | caseless set, c => (Unicode.caseForms c).any fun d => set.contains d
  | asciiCaseless set, c => set.contains (Text.lower c) || set.contains (Text.upper c)

/-- Whether all members are ASCII characters. Complements and classes of Unicode are taken to have
others. -/
def isAscii : CharSet → Bool
  | empty => true
  | range _ high => high.toNat < 128
  | union left right | symmDiff left right => left.isAscii && right.isAscii
  | inter left right => left.isAscii || right.isAscii
  | diff left _ => left.isAscii
  | asciiCaseless set => set.isAscii
  | compl (compl set) => set.isAscii
  | _ => false

/-- A union of sets. -/
def unions (sets : List CharSet) : CharSet := sets.foldl union empty

/-- The ASCII class of a name, such as `alpha`. -/
def ofAsciiName? (name : String) : Option CharSet :=
  let capitals := range 'A' 'Z'
  let smalls := range 'a' 'z'
  let digits := range '0' '9'
  match name with
  | "alnum" => some (unions [digits, capitals, smalls])
  | "alpha" => some (union capitals smalls)
  | "ascii" => some (range '\x00' '\x7f')
  | "blank" => some (union (single '\t') (single ' '))
  | "cntrl" => some (union (range '\x00' '\x1f') (single '\x7f'))
  | "digit" => some digits
  | "graph" => some (range '!' '~')
  | "lower" => some smalls
  | "print" => some (range ' ' '~')
  | "punct" => some (unions [range '!' '/', range ':' '@', range '[' '\x60', range '\x7b' '~'])
  | "space" => some (union (range '\t' '\x0d') (single ' '))
  | "upper" => some capitals
  | "word" => some (unions [digits, capitals, smalls, single '_'])
  | "xdigit" => some (unions [digits, range 'A' 'F', range 'a' 'f'])
  | _ => none

/-! ## Names of Unicode classes -/

/-- A name in loose form: ASCII in lower case, without a leading `is`, blanks and separators. The
name `isc` keeps its start. -/
def looseName (name : String) : String :=
  let chars := name.toList
  let start := (chars.take 2).map Text.lower
  let marked := start == ['i', 's']
  let kept := (if marked then chars.drop 2 else chars).filter fun c =>
    c.toNat < 128 && c != ' ' && c != '_' && c != '-'
  let loose := String.ofList (kept.map Text.lower)
  if marked && loose == "c" then "isc" else loose

/-- The set of a general category. -/
def ofCategory? (loose : String) : Option CharSet :=
  match loose with
  | "any" => some any
  | "assigned" => some assigned
  | "ascii" => some (range '\x00' '\x7f')
  | _ => (Unicode.categories? loose).map category

/-- Names that are short for a general category although a property has them too. -/
def categoryFirst : List String := ["cf", "sc", "lc"]

/-- The set of a binary property, a general category or a script. -/
def ofUnicodeName? (name : String) : Option CharSet :=
  let loose := looseName name
  let binary := if categoryFirst.contains loose then none else Unicode.property? loose
  match binary with
  | some _ => some (property loose)
  | none => ofCategory? loose <|> (Unicode.script? loose).map script

/-- The set of a property and one of its values. -/
def ofUnicodeValue? (name value : String) : Option CharSet :=
  let loose := looseName value
  match looseName name with
  | "gc" | "generalcategory" => ofCategory? loose
  | "sc" | "script" => (Unicode.script? loose).map script
  | "scx" | "scriptextensions" => (Unicode.script? loose).map scriptExtension
  | _ => none

end CharSet

/-! ## Ranges -/

/-- Ranges of code points, both ends included, in ascending order and with gaps between them. -/
abbrev Ranges := List (Nat × Nat)

namespace Ranges

/-- With one more range. Those that meet it are joined to it. -/
def insert (low high : Nat) : Ranges → Ranges
  | [] => [(low, high)]
  | (first, last) :: rest =>
    if high + 1 < first then (low, high) :: (first, last) :: rest
    else if last + 1 < low then (first, last) :: insert low high rest
    else insert (min low first) (max high last) rest

def union (left right : Ranges) : Ranges :=
  right.foldl (fun ranges range => insert range.1 range.2 ranges) left

/-- What is left out from `first` on. -/
def gaps (first : Nat) : Ranges → Ranges
  | [] => if first ≤ 0x10ffff then [(first, 0x10ffff)] else []
  | (low, high) :: rest =>
    if first < low then (first, low - 1) :: gaps (high + 1) rest else gaps (high + 1) rest

def compl (ranges : Ranges) : Ranges := gaps 0 ranges

def inter (left right : Ranges) : Ranges := compl (union (compl left) (compl right))

def diff (left right : Ranges) : Ranges := inter left (compl right)

def symmDiff (left right : Ranges) : Ranges := union (diff left right) (diff right left)

/-- The runs of a partition with certain values. -/
def ofRuns (values : List String) : List (Nat × String) → Ranges
  | [] => []
  | [(first, value)] => if values.contains value then [(first, 0x10ffff)] else []
  | (first, value) :: (next, later) :: rest =>
    let ranges := ofRuns values ((next, later) :: rest)
    if values.contains value then insert first (next - 1) ranges else ranges

def ofStretches (set : Unicode.Stretches) : Ranges :=
  set.toList.map fun (first, stop) => (first, stop - 1)

def ofCategories (names : List String) : Ranges := ofRuns names Unicode.categoryRuns.toList

/-- The characters with a property. -/
def ofProperty (name : String) : Ranges :=
  match Unicode.property? name with
  | some property => symmDiff (ofCategories property.categories) (ofStretches property.deviations)
  | none => []

def ofScript (name : String) : Ranges := ofRuns [name] Unicode.scriptRuns.toList

/-- The characters used with a script. Script extensions take the place of the script. -/
def ofScriptExtension (name : String) : Ranges :=
  Unicode.extensionRuns.foldl (fun ranges (first, length, scripts) =>
    let run := [(first, first + length - 1)]
    if scripts.contains name then union ranges run else diff ranges run) (ofScript name)

end Ranges

namespace CharSet

/-- The letters of ASCII, and all characters that have another case form. -/
def casedCodes : List Nat :=
  List.range 128 ++ Unicode.foldings.flatMap fun run => (List.range run.count).flatMap fun index =>
    let code := run.first + index * run.stride
    [code, (code + run.distance).toNat]

/-- The members of a set, written out. -/
def ranges : CharSet → Ranges
  | empty => []
  | range low high => if low ≤ high then [(low.toNat, high.toNat)] else []
  | digit => Unicode.decimalZeros.foldr (fun first => Ranges.insert first (first + 9)) []
  | blank => Ranges.ofProperty "whitespace"
  | word =>
    Ranges.union (Ranges.ofProperty "alphabetic") <|
      Ranges.union (Ranges.ofCategories wordCategories) (Ranges.ofProperty "joincontrol")
  | category names => Ranges.ofCategories names
  | script name => Ranges.ofScript name
  | scriptExtension name => Ranges.ofScriptExtension name
  | property name => Ranges.ofProperty name
  | assigned => Ranges.compl (Ranges.ofCategories ["Cn"])
  | union left right => Ranges.union left.ranges right.ranges
  | inter left right => Ranges.inter left.ranges right.ranges
  | diff left right => Ranges.diff left.ranges right.ranges
  | symmDiff left right => Ranges.symmDiff left.ranges right.ranges
  | compl set => Ranges.compl set.ranges
  | caseless set =>
    (casedCodes.filter fun code => (caseless set).contains (Char.ofNat code)).foldl
      (fun ranges code => Ranges.insert code code ranges) set.ranges
  | asciiCaseless set =>
    ((List.range 128).filter fun code => (asciiCaseless set).contains (Char.ofNat code)).foldl
      (fun ranges code => Ranges.insert code code ranges) set.ranges

/-! ## Size

A compiled pattern reads octets, and once more from the end to the start. A set is laid out as the
octet sequences of its members: read forwards, sequences share how they end and how they start;
read backwards, only how they start in the text.
-/

/-- A sequence of ranges of octets. -/
abbrev Octets := List (Nat × Nat)

/-- The octets of a range of numbers in base 64, where `following` octets come after the first one,
which carries a marker. -/
def encode (marker : Nat) : Nat → Nat → Nat → List Octets
  | 0, low, high => [[(marker + low, marker + high)]]
  | following + 1, low, high =>
    let block := 64 ^ (following + 1)
    let lead (digit stop : Nat) : List Octets → List Octets :=
      List.map ((marker + digit, marker + stop) :: ·)
    let (first, start) := (low / block, low % block)
    let (last, stop) := (high / block, high % block)
    if first = last then lead first first (encode 0x80 following start stop)
    else
      let starts := if start = 0 then [] else
        lead first first (encode 0x80 following start (block - 1))
      let stops := if stop + 1 = block then [] else lead last last (encode 0x80 following 0 stop)
      let next := if start = 0 then first else first + 1
      let previous := if stop + 1 = block then last else last - 1
      let middle := if next ≤ previous then
        lead next previous (encode 0x80 following 0 (block - 1)) else []
      starts ++ middle ++ stops

/-- The code points whose encodings are of one length, the octets after the first one, and the
marker of that one. Surrogates have none. -/
def encodings : List (Nat × Nat × Nat × Nat) :=
  [(0, 0x7f, 0, 0), (0x80, 0x7ff, 1, 0xc0), (0x800, 0xd7ff, 2, 0xe0), (0xe000, 0xffff, 2, 0xe0),
    (0x10000, 0x10ffff, 3, 0xf0)]

/-- The encodings of a range of code points. -/
def encodeRange (low high : Nat) : List Octets :=
  encodings.flatMap fun (first, last, following, marker) =>
    if max low first ≤ min high last then
      encode marker following (max low first) (min high last)
    else []

/-- What may follow each range of first octets. -/
def branches (sequences : List Octets) : List (List Octets) :=
  (sequences.splitBy fun left right => left.head? == right.head?).map (·.map List.tail)

/-- The states of the automaton that reads some sequences of at most `depth` octets, as what is
still to be read in them. -/
def states : Nat → List Octets → List (List Octets)
  | 0, _ => []
  | depth + 1, sequences =>
    sequences :: ((branches sequences).filter (· != [[]])).flatMap (states depth)

/-- The number of octets that are not shared with the start of the sequence before. -/
def unshared (previous : Octets) : List Octets → Nat
  | [] => 0
  | sequence :: rest =>
    let shared := (sequence.zip previous).takeWhile fun (left, right) => left == right
    sequence.length - shared.length + unshared sequence rest

/-- How much room a set takes in a compiled pattern, in octets. -/
def size (backwards : Bool) (set : CharSet) : Nat :=
  match set.ranges with
  | [] => 32
  | (low, high) :: rest =>
    let ranges := (low, high) :: rest
    if rest.isEmpty && low == high then 32 * (Char.ofNat low).utf8Size
    else if ranges.all (·.2 < 128) then 64 + 8 * ranges.length
    else
      let sequences := ranges.flatMap fun (low, high) => encodeRange low high
      if backwards then 64 + 4 * sequences.length + 32 * unshared [] sequences
      else
        (states 4 sequences).eraseDups.foldl
          (fun room left => room + 32 + 8 * (branches left).length) 32

end CharSet

end EntityGraph.Pattern
