import EntityGraph.Text.Basic

/-!
# Runs of code points

Character properties are kept as compact texts: a partition of the code points into runs of equal
value, or a set as the lengths of the gaps and stretches in turn. All lengths are hexadecimal. This
module reads such texts and looks code points up in the result by bisection.
-/
namespace EntityGraph.Unicode

/-- The value of a lower-case hexadecimal digit; zero for other characters. -/
def digitValue (c : Char) : Nat :=
  if Text.isDigit c then c.toNat - 48 else if Text.isLower c then c.toNat - 87 else 0

/-- The hexadecimal numbers of a text, separated by blanks. -/
def numbers (text : String) : List Nat :=
  (Text.words text).map fun word => word.toList.foldl (fun n c => 16 * n + digitValue c) 0

/-- The position of the last entry whose key is at most `n`, between `low` and `low + 2 ^ halvings`;
`low` if there is none. -/
def bisect {α : Type} (entries : Array (Nat × α)) (n : Nat) : Nat → Nat → Nat
  | 0, low => low
  | halvings + 1, low =>
    let middle := low + Nat.pow 2 halvings
    match entries[middle]? with
    | some (key, _) => bisect entries n halvings (if key ≤ n then middle else low)
    | none => bisect entries n halvings low

/-- The last entry whose key is at most `n`. Tables have fewer than 2 ^ 13 entries. -/
def lastUpTo? {α : Type} (entries : Array (Nat × α)) (n : Nat) : Option (Nat × α) :=
  (entries[bisect entries n 13 0]?).filter (·.1 ≤ n)

/-! ## Partitions -/

/-- A partition of the code points: the first code point of each run, and its value. -/
abbrev Partition := Array (Nat × String)

/-- Reads runs from `first` on. A run is written as its length, of which `length` is what has been
read, and the name of its value: a capital and further letters, `width` in all. -/
def readRuns (width first length : Nat) (name : List Char) : List Char → List (Nat × String)
  | [] => []
  | c :: rest =>
    if name.isEmpty && !Text.isUpper c then
      readRuns width first (16 * length + digitValue c) [] rest
    else if name.length + 1 = width then
      (first, String.ofList (name ++ [c])) :: readRuns width (first + length) 0 [] rest
    else readRuns width first length (name ++ [c]) rest

/-- The partition of a text in which names have `width` letters. -/
def Partition.ofText (width : Nat) (text : String) : Partition :=
  (readRuns width 0 0 [] text.toList).toArray

/-- The value of a code point. -/
def Partition.valueAt (runs : Partition) (code : Nat) : String :=
  ((lastUpTo? runs code).map (·.2)).getD ""

/-! ## Sets -/

/-- A set of code points: the first code point of each stretch, and the first one after it. -/
abbrev Stretches := Array (Nat × Nat)

/-- Reads lengths of gaps and stretches in turn, from `first` on. -/
def readStretches (first : Nat) : List Nat → List (Nat × Nat)
  | gap :: length :: rest =>
    (first + gap, first + gap + length) :: readStretches (first + gap + length) rest
  | _ => []

def Stretches.ofText (text : String) : Stretches := (readStretches 0 (numbers text)).toArray

def Stretches.contains (set : Stretches) (code : Nat) : Bool :=
  (lastUpTo? set code).any (code < ·.2)

end EntityGraph.Unicode
