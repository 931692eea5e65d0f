import EntityGraph.Text.Basic

/-!
# The closest known name

A known name is a candidate for a wanted name when it contains the wanted characters in order. Its
score rewards matches at the start of words and in a row, and charges for gaps; the best alignment
is found by dynamic programming over (wanted, candidate) positions with two tables, one for "this
character is matched" and one for "this character is skipped". The highest score wins, then the
smallest name.
-/
namespace EntityGraph.Text.Closest

/-- Below every score that an alignment can have. -/
def unreachable : Int := -1073741824

/-- Whether a character closes a unit, so that a word starts after it. -/
def isHardBreak (c : Char) : Bool := "\x00 /\\|()[]\x7b\x7d".toList.contains c

/-- Whether a character is other ASCII punctuation. -/
def isSoftBreak (c : Char) : Bool :=
  ('!' ≤ c && c ≤ '\'') || ('*' ≤ c && c ≤ '.') || (':' ≤ c && c ≤ '@') || ('^' ≤ c && c ≤ '\x60')
    || c = '~'

/-- What a match is worth for its place after `previous`. -/
def placeBonus (previous : Option Char) (current : Char) : Int :=
  match previous with
  | none => 8
  | some p =>
    if isHardBreak p then 8
    else if isSoftBreak p then 7
    else if isUpper current && !isUpper p then 6
    else 0

/-- The bonus of every position; the first one counts twice. -/
def placeBonuses (candidate : List Char) : List Int :=
  match List.zipWith placeBonus (none :: candidate.map some) candidate with
  | first :: rest => (2 * first) :: rest
  | [] => []

/-- Whether two characters agree, and what the agreement is worth. -/
def agreement (caseSensitive : Bool) (wanted actual : Char) : Option Int :=
  if wanted = actual then some 16
  else if !caseSensitive && lower wanted = lower actual then some 14
  else none

/-- The first positions, counted from one, at which the wanted characters occur one after the
other. -/
def firstPositions (caseSensitive : Bool) :
    Nat → List Char → List Char → Option (List Nat)
  | _, [], _ => some []
  | _, _ :: _, [] => none
  | position, w :: ws, c :: cs =>
    if (agreement caseSensitive w c).isSome then
      (firstPositions caseSensitive (position + 1) ws cs).map (position :: ·)
    else firstPositions caseSensitive (position + 1) (w :: ws) cs

/-- One position of a table row: the best score with the character matched, and with it skipped. -/
structure Cell where
  matched : Int
  skipped : Int

def Cell.none : Cell := ⟨unreachable, unreachable⟩

/-- Continues a row. `diagonal` runs through the previous row from one position to the left,
`left` is the cell before. Positions before `first` stay unreachable. -/
def extendRow (caseSensitive : Bool) (wanted : Char) (first : Nat) :
    Nat → Cell → List Cell → List (Char × Int) → List Cell
  | position, left, diagonal :: above, (c, bonus) :: rest =>
    let cell :=
      if position < first then Cell.none
      else
        let matched :=
          match agreement caseSensitive wanted c with
          | some worth =>
            max (diagonal.matched + max bonus 4) (diagonal.skipped + bonus) + worth
          | none => unreachable
        ⟨matched, max (left.matched - 4) (left.skipped - 1)⟩
    cell :: extendRow caseSensitive wanted first (position + 1) cell above rest
  | _, _, _, _ => []

/-- The rows after the given one, of which the last is returned. -/
def lastRow (caseSensitive : Bool) (columns : List (Char × Int)) :
    List (Char × Nat) → List Cell → List Cell
  | [], row => row
  | (wanted, first) :: rest, row =>
    lastRow caseSensitive columns rest
      (Cell.none :: extendRow caseSensitive wanted first 1 Cell.none row columns)

/-- The score of a candidate; `none` if it does not contain the wanted characters in order. Case
counts only if the wanted name has a capital. -/
def score? (candidate wanted : String) : Option Int :=
  let chars := candidate.toList
  let wantedChars := wanted.toList
  let caseSensitive := wantedChars.any isUpper
  match firstPositions caseSensitive 1 wantedChars chars with
  | none => none
  | some positions =>
    if wantedChars.isEmpty then some 0
    else
      let columns := chars.zip (placeBonuses chars)
      let start := List.replicate (chars.length + 1) (⟨unreachable, -1⟩ : Cell)
      let row := lastRow caseSensitive columns (wantedChars.zip positions) start
      some (row.foldl (fun best cell => max best cell.matched) unreachable)

/-- The best of the known names. -/
def best? (wanted : String) (known : List String) : Option String :=
  let scored := known.filterMap fun candidate =>
    (score? candidate wanted).map fun score => (score, candidate)
  let better (left right : Int × String) : Bool :=
    left.1 > right.1 || (left.1 == right.1 && left.2 < right.2)
  (scored.foldl
    (fun best entry => match best with
      | some current => if better entry current then some entry else some current
      | none => some entry)
    none).map (·.2)

end EntityGraph.Text.Closest
