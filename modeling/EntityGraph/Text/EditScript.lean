/-!
# Edit scripts

A script makes one list of lines of another: it keeps, deletes and inserts lines. Lines that both
lists begin or end with are kept. What lies between is divided at a point that a script with the
fewest changes passes, and both parts are treated in the same way.

The point is found from both ends at once. A path is the beginning of a script, seen through the
numbers of its changes and of the old lines it has passed. Of the paths with the same deletions and
insertions only the one that gets furthest matters, so each round has one path more than the round
before, and each path of a round has one change more. Once a path from the start and a path from
the end pass each other, they make up a whole script.
-/
namespace EntityGraph.Text

/-- A step of a script. -/
inductive Change where
  | keep (line : String)
  | delete (line : String)
  | insert (lines : List String)
  deriving DecidableEq, Repr

/-- The lines that both lists begin with. -/
def commonStart : List String → List String → List String
  | a :: old, b :: new => if a = b then a :: commonStart old new else []
  | _, _ => []

/-- The lines that both lists end with. -/
def commonEnd (old new : List String) : List String :=
  (commonStart old.reverse new.reverse).reverse

/-! ## Paths -/

/-- The beginning of a script. -/
structure EditPath where
  deletions : Nat
  insertions : Nat
  /-- The old lines that are passed at the last change. -/
  turn : Nat
  /-- The old lines that are passed at the end. -/
  stop : Nat
  deriving DecidableEq, Repr

namespace EditPath

/-- The new lines that a path has passed where it has passed `place` old lines. -/
def newLines (path : EditPath) (place : Nat) : Nat := place + path.insertions - path.deletions

/-- A path that ends right behind its last change, and keeps equal lines as long as it can. -/
def keepOn (old new : List String) (path : EditPath) : EditPath :=
  let kept := commonStart (old.drop path.turn) (new.drop (path.newLines path.turn))
  { path with stop := path.turn + kept.length }

def delete (path : EditPath) : EditPath := ⟨path.deletions + 1, path.insertions, path.stop + 1, 0⟩

def insert (path : EditPath) : EditPath := ⟨path.deletions, path.insertions + 1, path.stop, 0⟩

/-- One more change, to either of two paths such that the result has the same changes: a deletion
after the second, unless an insertion after the first gets further. -/
def change : Option EditPath → Option EditPath → EditPath
  | none, none => ⟨0, 0, 0, 0⟩
  | none, some path => path.delete
  | some path, none => path.insert
  | some left, some right => if right.stop < left.stop then left.insert else right.delete

/-- The paths of the next round, by the number of their insertions. -/
def round (old new : List String) (paths : List EditPath) : List EditPath :=
  (List.zipWith change (none :: paths.map some) (paths.map some ++ [none])).map (keepOn old new)

/-- Whether a path from one end, and one from the other, have passed each other on the same way
through `old` and `new` lines. -/
def meets (old new : Nat) (path other : EditPath) : Bool :=
  path.deletions + other.deletions + new = path.insertions + other.insertions + old
    && old ≤ path.stop + other.stop

end EditPath

/-! ## Scripts -/

/-- Where paths from both ends first meet: the old and the new lines before that point. The number
of changes of a whole script is odd if and only if the number of all lines is, which decides in
which half of a round paths can meet. -/
def meetingWithin (old new : List String) : Nat → List EditPath → List EditPath → Option (Nat × Nat)
  | 0, _, _ => none
  | rounds + 1, ahead, behind =>
    let meets := EditPath.meets old.length new.length
    let forward := EditPath.round old new ahead
    let backward := EditPath.round old.reverse new.reverse behind
    let point :=
      if (old.length + new.length) % 2 = 1 then
        (forward.find? fun path => behind.any (meets path)).map fun path =>
          (path.turn, path.newLines path.turn)
      else
        (backward.find? fun path => forward.any (meets path)).map fun path =>
          (old.length - path.stop, new.length - path.newLines path.stop)
    match point with
    | some point => some point
    | none => meetingWithin old new rounds forward backward

/-- Each end has to make half of the changes, and all lines can be changed. -/
def meeting? (old new : List String) : Option (Nat × Nat) :=
  meetingWithin old new ((old.length + new.length + 1) / 2 + 1) [] []

/-- Deletes all old lines and inserts all new ones. -/
def replaceAll (old new : List String) : List Change :=
  old.map .delete ++ if new.isEmpty then [] else [.insert new]

/-- Whether both parts are smaller than the whole when two lists are cut after so many lines. -/
def isProperCut (old new : List String) (cut : Nat × Nat) : Bool :=
  cut.1 ≤ old.length && cut.2 ≤ new.length && 0 < cut.1 + cut.2
    && cut.1 + cut.2 < old.length + new.length

/-- The lists between their common start and their common end. -/
def betweenCommon (old new : List String) : List String × List String :=
  let start := (commonStart old new).length
  let ending := (commonEnd (old.drop start) (new.drop start)).length
  (old.extract start (old.length - ending), new.extract start (new.length - ending))

theorem betweenCommon_length (old new : List String) :
    (betweenCommon old new).1.length ≤ old.length
      ∧ (betweenCommon old new).2.length ≤ new.length := by
  simp only [betweenCommon, List.extract_eq_take_drop, List.length_take, List.length_drop]
  omega

/-- A script with the fewest changes. -/
def editScript (old new : List String) : List Change :=
  let start := commonStart old new
  let ending := commonEnd (old.drop start.length) (new.drop start.length)
  let inner := betweenCommon old new
  let changes :=
    if inner.1.isEmpty || inner.2.isEmpty then replaceAll inner.1 inner.2
    else
      match meeting? inner.1 inner.2 with
      | none => replaceAll inner.1 inner.2
      | some cut =>
        if _proper : isProperCut inner.1 inner.2 cut then
          editScript (inner.1.take cut.1) (inner.2.take cut.2)
            ++ editScript (inner.1.drop cut.1) (inner.2.drop cut.2)
        else replaceAll inner.1 inner.2
  start.map .keep ++ changes ++ ending.map .keep
termination_by old.length + new.length
decreasing_by
  all_goals
    have bound := betweenCommon_length old new
    simp only [isProperCut, inner, Bool.and_eq_true, decide_eq_true_eq] at _proper
    simp only [List.length_take, List.length_drop]
    omega

end EntityGraph.Text
