import EntityGraph.Pattern.Basic
import Mathlib.Data.List.Forall2
import Mathlib.Data.List.Induction

/-!
# Threads that never branch

A thread that unfolds into one other thread at each step, with less and less to do, arrives at the
last of them: the exploration of a place cannot have seen any of its task lists before. So a
sequence of sets between the two ends of a text matches every text with a character of each set, and
takes all of it.
-/
namespace EntityGraph.Pattern

/-- How much a task has to do. -/
def Task.load : Task → Nat
  | .node root => root.tasks
  | .close _ | .again _ _ => 1

/-- How much a list of tasks has to do. -/
def load : List Task → Nat
  | [] => 0
  | task :: rest => task.load + load rest

theorem not_visited {visited : List (List Task)} {tasks : List Task}
    (heavier : ∀ seen ∈ visited, load tasks < load seen) : visited.contains tasks = false := by
  rw [List.contains_eq_mem, decide_eq_false_iff_not]
  exact fun member => Nat.lt_irrefl _ (heavier _ member)

/-- A thread unfolds into another one in a number of steps, and none of them has a choice. -/
inductive Unfolds (place : Place) (position : Nat) : Nat → Thread → Thread → Prop
  | refl (thread : Thread) : Unfolds place position 0 thread thread
  | step {steps : Nat} {task : Task} {rest : List Task} {marks : Marks} {next last : Thread} :
    (∀ members, task ≠ .node (.set members)) →
    unfold place position marks rest task = [next] → load next.tasks < load (task :: rest) →
    Unfolds place position steps next last →
    Unfolds place position (steps + 1) ⟨task :: rest, marks⟩ last

namespace Unfolds

variable {place : Place} {position : Nat}

theorem trans {first second : Nat} {thread middle last : Thread}
    (left : Unfolds place position first thread middle)
    (right : Unfolds place position second middle last) :
    Unfolds place position (first + second) thread last := by
  induction left with
  | refl _ => simpa using right
  | @step steps _ _ _ _ _ waits unfolds lighter _ ih =>
    have more := step waits unfolds lighter (ih right)
    rwa [Nat.add_right_comm] at more

/-- Every step leaves less to do. -/
theorem steps_le {steps : Nat} {thread last : Thread}
    (unfolds : Unfolds place position steps thread last) :
    steps + load last.tasks ≤ load thread.tasks := by
  induction unfolds with
  | refl _ => omega
  | step _ _ lighter _ ih => dsimp only at lighter ⊢; omega

/-- An exploration follows the thread, as long as all it has seen has more to do. -/
theorem explore_eq {steps : Nat} {thread last : Thread}
    (unfolds : Unfolds place position steps thread last) (visited : List (List Task))
    (heavier : ∀ tasks ∈ visited, load thread.tasks < load tasks) :
    ∃ seen, (∀ tasks ∈ seen, load last.tasks < load tasks) ∧ ∀ left others,
      explore place position (left + steps) visited (thread :: others) =
        explore place position left seen (last :: others) := by
  induction unfolds generalizing visited with
  | refl thread => exact ⟨visited, heavier, fun _ _ => rfl⟩
  | @step steps task rest marks next last waits unfolds lighter _ ih =>
    have heavierNext : ∀ tasks ∈ (task :: rest) :: visited, load next.tasks < load tasks := by
      intro tasks member
      rcases List.mem_cons.mp member with rfl | old
      · exact lighter
      · exact Nat.lt_trans lighter (heavier tasks old)
    obtain ⟨seen, heavierLast, follows⟩ := ih _ heavierNext
    refine ⟨seen, heavierLast, fun left others => ?_⟩
    rw [← follows left others, ← Nat.add_assoc, explore, not_visited heavier]
    · simp only [Bool.false_eq_true, if_false, unfolds, List.cons_append, List.nil_append]
    · exact waits

end Unfolds

/-- A thread that is through ends the exploration. -/
theorem explore_done {place : Place} {position left : Nat} {visited : List (List Task)}
    (heavier : ∀ seen ∈ visited, load [] < load seen) (marks : Marks) (others : List Thread) :
    explore place position (left + 1) visited (⟨[], marks⟩ :: others) = ([], some marks) := by
  rw [explore, not_visited heavier]
  rfl

/-- A thread that waits for a character stays the first one. -/
theorem explore_waits {place : Place} {position left : Nat} {visited : List (List Task)}
    {members : CharSet} {rest : List Task}
    (heavier : ∀ seen ∈ visited, load (.node (.set members) :: rest) < load seen) (marks : Marks)
    (others : List Thread) :
    ∃ waiting found,
      explore place position (left + 1) visited (⟨.node (.set members) :: rest, marks⟩ :: others) =
        (⟨.node (.set members) :: rest, marks⟩ :: waiting, found) := by
  rw [explore, not_visited heavier]
  exact ⟨_, _, rfl⟩

/-! ## Sequences of sets -/

/-- The tasks for the sets that remain, before the end of the text and of the match. -/
def remaining (sets : List CharSet) : List Task :=
  sets.map (fun members => .node (.set members)) ++ [.node (.look .textEnd), .close 0]

theorem remaining_cons (members : CharSet) (sets : List CharSet) :
    remaining (members :: sets) = .node (.set members) :: remaining sets := rfl

/-- The sequence of some nodes, nested to the left. -/
def sequence : List Node → Node
  | [] => .empty
  | first :: others => others.foldl .seq first

variable {place : Place} {position : Nat}

theorem unfolds_seq (first second : Node) (rest : List Task) (marks : Marks) :
    Unfolds place position 1 ⟨.node (.seq first second) :: rest, marks⟩
      ⟨.node first :: .node second :: rest, marks⟩ := by
  refine .step (fun _ same => by cases same) rfl ?_ (.refl _)
  simp only [load, Task.load, Node.tasks]
  omega

/-- A sequence unfolds into its nodes, one after the other. -/
theorem unfolds_foldl_seq (first : Node) (others : List Node) (rest : List Task) (marks : Marks) :
    ∃ steps, Unfolds place position steps ⟨.node (others.foldl .seq first) :: rest, marks⟩
      ⟨.node first :: (others.map .node ++ rest), marks⟩ := by
  -- The sequence is nested to the left, so its last node is the first to come apart.
  induction others using List.reverseRecOn generalizing rest with
  | nil => exact ⟨0, .refl _⟩
  | append_singleton others last ih =>
    obtain ⟨steps, inner⟩ := ih (.node last :: rest)
    rw [List.foldl_append, List.map_append, List.append_assoc]
    exact ⟨1 + steps, (unfolds_seq _ last rest marks).trans inner⟩

theorem unfolds_sequence (nodes : List Node) (rest : List Task) (marks : Marks) :
    ∃ steps, Unfolds place position steps ⟨.node (sequence nodes) :: rest, marks⟩
      ⟨nodes.map .node ++ rest, marks⟩ := by
  cases nodes with
  | nil =>
    refine ⟨1, .step (fun _ same => by cases same) rfl ?_ (.refl _)⟩
    simp [sequence, load, Task.load, Node.tasks]
  | cons first others => exact unfolds_foldl_seq first others rest marks

/-- The pattern of a sequence of sets that has to take a whole text. -/
def wholeSequence (sets : List CharSet) : Node :=
  .seq (.seq (.look .textStart) (sequence (sets.map .set))) (.look .textEnd)

/-- At the start of a text such a pattern waits for its first set, or for the end of the text. -/
theorem unfolds_wholeSequence (sets : List CharSet) (after : Option Char) :
    ∃ steps, Unfolds ⟨none, after⟩ position steps
      ⟨[.node (.group 0 (wholeSequence sets))], []⟩ ⟨remaining sets, [(0, position)]⟩ := by
  obtain ⟨steps, inner⟩ := @unfolds_sequence ⟨none, after⟩ position
    (sets.map .set) [.node (.look .textEnd), .close 0] [(0, position)]
  rw [List.map_map] at inner
  -- The group is opened, its sequence taken apart, and the start of the text is there.
  refine ⟨1 + (1 + (steps + 1)) + 1, ?_⟩
  refine .step (fun _ same => by cases same) rfl ?_
    ((unfolds_seq _ _ _ _).trans ((unfolds_seq _ _ _ _).trans ?_))
  · simp only [load, Task.load, wholeSequence, Node.tasks]
    omega
  refine .step (fun _ same => by cases same) rfl ?_ inner
  simp only [load, Task.load, Node.tasks]
  omega

/-- At the end of a text such a thread is through. -/
theorem unfolds_end (before : Option Char) (marks : Marks) :
    Unfolds ⟨before, none⟩ position 2 ⟨remaining [], marks⟩ ⟨[], (1, position) :: marks⟩ := by
  refine .step (fun _ same => by cases same) rfl ?_ ?_
  · simp [load, Task.load, Node.tasks]
  refine .step (fun _ same => by cases same) rfl ?_ (.refl _)
  simp [load, Task.load]

/-- When the first thread has a character of each of its sets before it, its match is found. The
threads behind it are less preferred, whatever they do. -/
theorem run_remaining {sets : List CharSet} {text : List Char}
    (reads : List.Forall₂ (fun members c => members.contains c = true) sets text)
    {root : Node} {limit steps : Nat} {before : Option Char} {start : Nat} {marks : Marks}
    {threads : List Thread} {thread : Thread} (others : List Thread) {found : Option Marks}
    (first : (if found.isNone then threads ++ [⟨[.node root], []⟩] else threads) = thread :: others)
    (unfolds : Unfolds ⟨before, text.head?⟩ start steps thread ⟨remaining sets, marks⟩)
    (enough : steps + 3 ≤ limit) :
    run root limit before start threads found text = some ((1, start + text.length) :: marks) := by
  -- The first thread is always the one for the sets that remain. A match that has been found is one
  -- of a thread that is less preferred, so it gives way to the match of this thread.
  induction reads generalizing steps before start threads others thread found with
  | nil =>
    obtain ⟨seen, heavier, follows⟩ :=
      (unfolds.trans (unfolds_end before marks)).explore_eq [] (by simp)
    obtain ⟨left, rfl⟩ : ∃ left, limit = left + 1 + (steps + 2) := ⟨limit - (steps + 3), by omega⟩
    have through := (follows (left + 1) others).trans (explore_done heavier _ others)
    rw [run, first]
    simp only [through]
    rfl
  | @cons members c sets text contains _ ih =>
    rw [remaining_cons] at unfolds
    obtain ⟨seen, heavier, follows⟩ := unfolds.explore_eq [] (by simp)
    obtain ⟨left, rfl⟩ : ∃ left, limit = left + 1 + steps := ⟨limit - (steps + 1), by omega⟩
    obtain ⟨waiting, better, waits⟩ := explore_waits heavier marks others
    have stays := (follows (left + 1) others).trans waits
    rw [run, first]
    simp only [stays]
    have taken : Thread.take? c ⟨.node (.set members) :: remaining sets, marks⟩ =
        some ⟨remaining sets, marks⟩ := if_pos contains
    rw [List.filterMap_cons_some taken, List.length_cons, Nat.add_comm text.length,
      ← Nat.add_assoc]
    refine ih (waiting.filterMap (Thread.take? c) ++
      if (better <|> found).isNone then [⟨[.node root], []⟩] else []) ?_ (.refl _) (by omega)
    split <;> simp

/-- A sequence of sets that has to take a whole text takes it, if it has the characters. -/
theorem find?_wholeSequence {sets : List CharSet} {text : String}
    (reads : List.Forall₂ (fun members c => members.contains c = true) sets text.toList)
    (names : List (String × Nat)) :
    find? ⟨wholeSequence sets, names⟩ text =
      some ⟨text.toList, [(1, text.toList.length), (0, 0)]⟩ := by
  obtain ⟨steps, unfolds⟩ := @unfolds_wholeSequence 0 sets text.toList.head?
  have bounded := unfolds.steps_le
  simp only [load, Task.load] at bounded
  have enough : steps + 3 ≤ 8 * (Node.group 0 (wholeSequence sets)).tasks + 16 := by omega
  rw [find?, run_remaining reads [] rfl unfolds enough, Nat.zero_add]
  rfl

end EntityGraph.Pattern
