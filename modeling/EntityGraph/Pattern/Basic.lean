import EntityGraph.Pattern.CharSet

/-!
# Patterns

Patterns as terms, and how they are matched. A thread is a list of tasks that remain to be done,
together with the group marks made so far. Threads are kept in the order of preference: the first
way to match counts, not the longest. At each place the threads are unfolded until they wait for a
character or have nothing left to do; a list of tasks that another thread has unfolded before at the
same place is dropped, since it can only repeat what that one finds.
-/
namespace EntityGraph.Pattern

/-- Conditions on a place between two characters. Lines end with a line feed, or with a carriage
return as well where told so. -/
inductive Assertion where
  | textStart
  | textEnd
  | lineStart (returns : Bool)
  | lineEnd (returns : Bool)
  | wordBoundary (ascii : Bool)
  | noWordBoundary (ascii : Bool)
  | wordStart (ascii : Bool)
  | wordEnd (ascii : Bool)
  /-- No word character before the place. -/
  | wordStartHalf (ascii : Bool)
  /-- No word character after the place. -/
  | wordEndHalf (ascii : Bool)
  deriving DecidableEq, Repr, Inhabited

/-- A place in a text: the characters next to it. -/
structure Place where
  before : Option Char
  after : Option Char

/-- Whether there is a word character on a side. -/
def isWordAt (ascii : Bool) (side : Option Char) : Bool :=
  side.any (if ascii then isAsciiWordChar else isWordChar)

def Assertion.holds (place : Place) : Assertion → Bool
  | textStart => place.before.isNone
  | textEnd => place.after.isNone
  | lineStart false => place.before.all (· == '\n')
  | lineStart true =>
    place.before.all fun c => c == '\n' || (c == '\x0d' && place.after != some '\n')
  | lineEnd false => place.after.all (· == '\n')
  | lineEnd true =>
    place.after.all fun c => c == '\x0d' || (c == '\n' && place.before != some '\x0d')
  | wordBoundary ascii => isWordAt ascii place.before != isWordAt ascii place.after
  | noWordBoundary ascii => isWordAt ascii place.before == isWordAt ascii place.after
  | wordStart ascii => !isWordAt ascii place.before && isWordAt ascii place.after
  | wordEnd ascii => isWordAt ascii place.before && !isWordAt ascii place.after
  | wordStartHalf ascii => !isWordAt ascii place.before
  | wordEndHalf ascii => !isWordAt ascii place.after

inductive Node where
  | empty
  | set (members : CharSet)
  | look (assertion : Assertion)
  | seq (first second : Node)
  /-- The first one is preferred. -/
  | alt (first second : Node)
  /-- Marks what its body matches. -/
  | group (index : Nat) (body : Node)
  /-- At least `least` times, and at most `most` times if there is a limit. A greedy repetition
  prefers one more time to one less. -/
  | repetition (least : Nat) (most : Option Nat) (greedy : Bool) (body : Node)
  deriving DecidableEq, Repr, Inhabited

namespace Node

/-- Whether the node can match nothing but the empty text. -/
def isZeroWidth : Node → Bool
  | empty | look _ => true
  | set _ => false
  | seq first second | alt first second => first.isZeroWidth && second.isZeroWidth
  | group _ body => body.isZeroWidth
  | repetition _ most _ body => most == some 0 || body.isZeroWidth

/-- A repetition. To repeat something without width more than once adds nothing. -/
def repeated (least : Nat) (most : Option Nat) (greedy : Bool) (body : Node) : Node :=
  let (least, most) :=
    if body.isZeroWidth then (min least 1, some (min (most.getD 1) 1)) else (least, most)
  match least, most with
  | 0, some 0 => empty
  | 1, some 1 => body
  | _, _ => repetition least most greedy body

/-- How often the body of a repetition is laid out. -/
def copies (least : Nat) (most : Option Nat) : Nat := max (most.getD least) 1

/-- Whether the node can match the empty text. -/
def canBeEmpty : Node → Bool
  | empty | look _ => true
  | set _ => false
  | seq first second => first.canBeEmpty && second.canBeEmpty
  | alt first second => first.canBeEmpty || second.canBeEmpty
  | group _ body => body.canBeEmpty
  | repetition least _ _ body => least == 0 || body.canBeEmpty

/-- The set that a node stands for. Alternatives between sets are one set. -/
def asSet? : Node → Option CharSet
  | set members => some members
  | alt first second => do return .union (← first.asSet?) (← second.asSet?)
  | _ => none

/-- The room that a node of a given size takes as an alternative. Alternatives of an alternative
stand in one row with the others. -/
def sizeInRow (size : Nat) : Node → Nat
  | alt first second => if (alt first second).asSet?.isSome then size + 4 else size - 64
  | _ => size + 4

/-- The room that a pattern takes when its repetitions are laid out, in octets, for reading forwards
or backwards. Groups are marked in reading forwards. -/
def size (backwards : Bool) : Node → Nat
  | empty | look _ => 32
  | set members => members.size backwards
  | seq first second => first.size backwards + second.size backwards
  | alt first second =>
    match (alt first second).asSet? with
    | some members => members.size backwards
    | none =>
      64 + first.sizeInRow (first.size backwards) + second.sizeInRow (second.size backwards)
  | group _ body => body.size backwards + if backwards then 0 else 64
  | repetition least most _ body =>
    let once := body.size backwards
    match most with
    | none =>
      if least = 0 && body.canBeEmpty then once + 112 else max least 1 * once + 40
    | some most =>
      if least = most then least * once
      else
        let start := if least = 0 && most ≠ 1 then 32 else least * once
        start + (most - least) * (once + 40) + 32

/-- A bound on the number of task lists that arise. -/
def tasks : Node → Nat
  | empty | look _ | set _ => 1
  | seq first second | alt first second => first.tasks + second.tasks + 1
  | group _ body => body.tasks + 2
  | repetition least most _ body => (copies least most + 1) * (body.tasks + 2) + 2

end Node

/-! ## Threads -/

inductive Task where
  | node (node : Node)
  /-- The end of a group. -/
  | close (index : Nat)
  /-- The end of one round of an unbounded repetition. -/
  | again (greedy : Bool) (body : Node)
  deriving DecidableEq, Repr, Inhabited

/-- Where groups start, under twice their index, and end, under the next odd number. The newest
mark of a number stands first. -/
abbrev Marks := List (Nat × Nat)

structure Thread where
  tasks : List Task
  marks : Marks
  deriving Repr, Inhabited

/-- Two ways to go on, in the order of preference. -/
def inOrder (greedy : Bool) (more less : Thread) : List Thread :=
  if greedy then [more, less] else [less, more]

/-- The threads that a thread unfolds into at a place, if its first task needs no character. -/
def unfold (place : Place) (position : Nat) (marks : Marks) (rest : List Task) :
    Task → List Thread
  | .node .empty => [⟨rest, marks⟩]
  | .node (.set _) => []
  | .node (.look assertion) => if assertion.holds place then [⟨rest, marks⟩] else []
  | .node (.seq first second) => [⟨.node first :: .node second :: rest, marks⟩]
  | .node (.alt first second) => [⟨.node first :: rest, marks⟩, ⟨.node second :: rest, marks⟩]
  | .node (.group index body) =>
    [⟨.node body :: .close index :: rest, (2 * index, position) :: marks⟩]
  | .node (.repetition 0 none greedy body) =>
    inOrder greedy ⟨.node body :: .again greedy body :: rest, marks⟩ ⟨rest, marks⟩
  | .node (.repetition 1 none greedy body) =>
    [⟨.node body :: .again greedy body :: rest, marks⟩]
  | .node (.repetition (least + 1) none greedy body) =>
    [⟨.node body :: .node (.repetition least none greedy body) :: rest, marks⟩]
  | .node (.repetition _ (some 0) _ _) => [⟨rest, marks⟩]
  | .node (.repetition 0 (some (most + 1)) greedy body) =>
    inOrder greedy
      ⟨.node body :: .node (.repetition 0 (some most) greedy body) :: rest, marks⟩
      ⟨rest, marks⟩
  | .node (.repetition (least + 1) (some (most + 1)) greedy body) =>
    [⟨.node body :: .node (.repetition least (some most) greedy body) :: rest, marks⟩]
  | .close index => [⟨rest, (2 * index + 1, position) :: marks⟩]
  | .again greedy body =>
    inOrder greedy ⟨.node body :: .again greedy body :: rest, marks⟩ ⟨rest, marks⟩

/-- Unfolds threads at a place. The result is the threads that wait for a character, and the marks
of the first thread that is through; less preferred threads than that are dropped. `visited` holds
the task lists that have been unfolded before, and `steps` bounds the number of steps. -/
def explore (place : Place) (position : Nat) :
    Nat → List (List Task) → List Thread → List Thread × Option Marks
  | 0, _, _ | _, _, [] => ([], none)
  | steps + 1, visited, ⟨tasks, marks⟩ :: others =>
    if visited.contains tasks then explore place position steps visited others
    else
      match tasks with
      | [] => ([], some marks)
      | .node (.set _) :: _ =>
        let (waiting, found) := explore place position steps (tasks :: visited) others
        (⟨tasks, marks⟩ :: waiting, found)
      | task :: rest =>
        explore place position steps (tasks :: visited)
          (unfold place position marks rest task ++ others)

/-- What a waiting thread does with the next character. -/
def Thread.take? (c : Char) : Thread → Option Thread
  | ⟨.node (.set members) :: rest, marks⟩ =>
    if members.contains c then some ⟨rest, marks⟩ else none
  | _ => none

/-- Runs threads over the rest of a text. While nothing has been found, a new thread may start at
every place; it is the least preferred one. -/
def run (root : Node) (steps : Nat) (before : Option Char) (position : Nat) (threads : List Thread)
    (found : Option Marks) (text : List Char) : Option Marks :=
  let started := if found.isNone then threads ++ [⟨[.node root], []⟩] else threads
  let (waiting, better) := explore ⟨before, text.head?⟩ position steps [] started
  let found := better <|> found
  match text with
  | [] => found
  | c :: rest => run root steps (some c) (position + 1) (waiting.filterMap (·.take? c)) found rest

end Pattern

/-- A pattern, with the names of its groups. -/
structure Pattern where
  root : Pattern.Node
  names : List (String × Nat)
  deriving DecidableEq, Repr, Inhabited

namespace Pattern

/-- A match: the text, and the marks of the groups. Group 0 is the match itself. -/
structure Match where
  text : List Char
  marks : Marks

def Match.mark? (found : Match) (number : Nat) : Option Nat :=
  (found.marks.find? (·.1 == number)).map (·.2)

/-- What a group matched. -/
def Match.group? (found : Match) (index : Nat) : Option (List Char) := do
  let start ← found.mark? (2 * index)
  let stop ← found.mark? (2 * index + 1)
  return (found.text.drop start).take (stop - start)

/-- The leftmost match, in the most preferred way. Every list of tasks is unfolded at most once at
each place, into at most two. -/
def find? (pattern : Pattern) (text : String) : Option Match :=
  let root := Node.group 0 pattern.root
  (run root (8 * root.tasks + 16) none 0 [] none text.toList).map (⟨text.toList, ·⟩)

def isMatch (pattern : Pattern) (text : String) : Bool := (pattern.find? text).isSome

/-- The group of a name. -/
def groupIndex? (pattern : Pattern) (name : String) : Option Nat :=
  (pattern.names.find? (·.1 == name)).map (·.2)

end Pattern

end EntityGraph
