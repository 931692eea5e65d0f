import EntityGraph.Pattern.Basic

/-!
# The language of a pattern

`Takes whole node start stop` says that a pattern takes the piece of a text between two places. The
threads of the matcher never find anything else: what a thread has to do is always a way to complete
what it has taken so far to a piece that the pattern takes.
-/
namespace EntityGraph.Pattern

/-- The characters next to a place of a text. -/
def placeAt (whole : List Char) (position : Nat) : Place :=
  ⟨(whole.take position).getLast?, (whole.drop position).head?⟩

/-- A pattern takes the characters of a text between two places. -/
inductive Takes (whole : List Char) : Node → Nat → Nat → Prop
  | empty {start : Nat} : Takes whole .empty start start
  | set {members : CharSet} {start : Nat} {c : Char} (next : (whole.drop start).head? = some c)
      (contains : members.contains c = true) : Takes whole (.set members) start (start + 1)
  | look {assertion : Assertion} {start : Nat}
      (holds : assertion.holds (placeAt whole start) = true) :
      Takes whole (.look assertion) start start
  | seq {first second : Node} {start middle stop : Nat} (left : Takes whole first start middle)
      (right : Takes whole second middle stop) : Takes whole (.seq first second) start stop
  | first {first second : Node} {start stop : Nat} (takes : Takes whole first start stop) :
      Takes whole (.alt first second) start stop
  | second {first second : Node} {start stop : Nat} (takes : Takes whole second start stop) :
      Takes whole (.alt first second) start stop
  | group {index : Nat} {body : Node} {start stop : Nat} (takes : Takes whole body start stop) :
      Takes whole (.group index body) start stop
  /-- No further round of a repetition. -/
  | enough {least : Nat} {most : Option Nat} {greedy : Bool} {body : Node} {start : Nat}
      (may : least = 0 ∨ most = some 0) :
      Takes whole (.repetition least most greedy body) start start
  /-- One round of a repetition, and the rest of it. -/
  | more {least : Nat} {most : Option Nat} {greedy : Bool} {body : Node} {start middle stop : Nat}
      (may : most ≠ some 0) (once : Takes whole body start middle)
      (rest : Takes whole (.repetition (least - 1) (most.map (· - 1)) greedy body) middle stop) :
      Takes whole (.repetition least most greedy body) start stop

/-- What is done between two places in a task. -/
def Task.Does (whole : List Char) (start stop : Nat) : Task → Prop
  | .node root => Takes whole root start stop
  | .close _ => start = stop
  | .again greedy body => Takes whole (.repetition 0 none greedy body) start stop

/-- Tasks are done one after the other. -/
def Does (whole : List Char) : List Task → Nat → Nat → Prop
  | [], start, stop => start = stop
  | task :: rest, start, stop =>
    ∃ middle, task.Does whole start middle ∧ Does whole rest middle stop

/-! ## Steps -/

section

variable {whole : List Char} {start stop : Nat}

theorem mem_inOrder {greedy : Bool} {more less thread : Thread} :
    thread ∈ inOrder greedy more less ↔ thread = more ∨ thread = less := by
  cases greedy <;> simp [inOrder, or_comm]

/-- A round of a repetition, and the rounds that are left. -/
theorem does_round {least : Nat} {most : Option Nat} {greedy : Bool} {body : Node}
    {rest : List Task} (may : most ≠ some 0)
    (does : Does whole (.node body ::
      .node (.repetition (least - 1) (most.map (· - 1)) greedy body) :: rest) start stop) :
    Does whole (.node (.repetition least most greedy body) :: rest) start stop := by
  obtain ⟨middle, once, later, left, after⟩ := does
  exact ⟨later, .more may once left, after⟩

theorem does_of_unfold_repetition {position least : Nat} {most : Option Nat} {greedy : Bool}
    {body : Node} {marks : Marks} {rest : List Task} {thread : Thread}
    (member : thread ∈ unfold (placeAt whole start) position marks rest
      (.node (.repetition least most greedy body)))
    (does : Does whole thread.tasks start stop) :
    Does whole (.node (.repetition least most greedy body) :: rest) start stop := by
  match least, most with
  | _, some 0 =>
    obtain rfl : thread = ⟨rest, marks⟩ := by simpa [unfold] using member
    exact ⟨start, .enough (.inr rfl), does⟩
  | 0, none =>
    rcases mem_inOrder.mp member with rfl | rfl
    · exact does_round (by simp) does
    · exact ⟨start, .enough (.inl rfl), does⟩
  | 0, some (most + 1) =>
    rcases mem_inOrder.mp member with rfl | rfl
    · exact does_round (by simp) does
    · exact ⟨start, .enough (.inl rfl), does⟩
  | 1, none =>
    obtain rfl := List.mem_singleton.mp member
    exact does_round (by simp) does
  | least + 2, none =>
    obtain rfl := List.mem_singleton.mp member
    exact does_round (by simp) does
  | least + 1, some (most + 1) =>
    obtain rfl : thread = ⟨.node body :: .node (.repetition least (some most) greedy body) :: rest,
        marks⟩ := by simpa [unfold] using member
    exact does_round (by simp) does

/-- To do what a thread unfolds into is a way to do its tasks. -/
theorem does_of_unfold {position : Nat} {marks : Marks} {rest : List Task} {task : Task}
    {thread : Thread} (member : thread ∈ unfold (placeAt whole start) position marks rest task)
    (does : Does whole thread.tasks start stop) : Does whole (task :: rest) start stop := by
  cases task with
  | node root =>
    cases root with
    | empty =>
      obtain rfl := List.mem_singleton.mp member
      exact ⟨start, .empty, does⟩
    | set members => cases member
    | look assertion =>
      rw [unfold] at member
      split at member
      next holds =>
        obtain rfl := List.mem_singleton.mp member
        exact ⟨start, .look holds, does⟩
      next => cases member
    | seq first second =>
      obtain rfl := List.mem_singleton.mp member
      obtain ⟨middle, left, later, right, after⟩ := does
      exact ⟨later, .seq left right, after⟩
    | alt first second =>
      rcases List.mem_cons.mp member with rfl | last
      · obtain ⟨middle, takes, after⟩ := does
        exact ⟨middle, .first takes, after⟩
      · obtain rfl := List.mem_singleton.mp last
        obtain ⟨middle, takes, after⟩ := does
        exact ⟨middle, .second takes, after⟩
    | group index body =>
      obtain rfl := List.mem_singleton.mp member
      obtain ⟨middle, takes, _, rfl, after⟩ := does
      exact ⟨middle, .group takes, after⟩
    | repetition least most greedy body => exact does_of_unfold_repetition member does
  | close index =>
    obtain rfl := List.mem_singleton.mp member
    exact ⟨start, rfl, does⟩
  | again greedy body =>
    rcases mem_inOrder.mp member with rfl | rfl
    · exact does_round (by simp) does
    · exact ⟨start, .enough (.inl rfl), does⟩

/-- A character that a thread takes is done, too. -/
theorem does_of_take? {c : Char} {thread next : Thread} (head : (whole.drop start).head? = some c)
    (taken : thread.take? c = some next) (does : Does whole next.tasks (start + 1) stop) :
    Does whole thread.tasks start stop := by
  unfold Thread.take? at taken
  split at taken
  next members rest marks =>
    obtain ⟨contains, same⟩ := Option.ite_none_right_eq_some.mp taken
    cases same
    exact ⟨start + 1, .set head contains, does⟩
  next => cases taken

end

/-! ## Runs -/

/-- Whatever completes the thread, completes a piece that the pattern takes. -/
def Thread.Completes (whole : List Char) (root : Node) (position : Nat) (thread : Thread) : Prop :=
  ∀ stop, Does whole thread.tasks position stop → ∃ start, Takes whole root start stop

variable {whole : List Char} {root : Node}

/-- Exploring a place keeps this, and what gets through has taken a piece. -/
theorem explore_completes {position count steps : Nat} {visited : List (List Task)}
    {threads : List Thread}
    (complete : ∀ thread ∈ threads, thread.Completes whole root position) :
    (∀ thread ∈ (explore (placeAt whole position) count steps visited threads).1,
        thread.Completes whole root position) ∧
      ((explore (placeAt whole position) count steps visited threads).2.isSome = true →
        ∃ start stop, Takes whole root start stop) := by
  fun_induction explore (placeAt whole position) count steps visited threads with
  | case1 => simp
  | case2 => simp
  | case3 steps visited tasks marks others seen ih =>
    exact ih fun thread member => complete thread (List.mem_cons_of_mem _ member)
  | case4 steps visited marks others =>
    obtain ⟨start, takes⟩ := complete ⟨[], marks⟩ List.mem_cons_self position rfl
    exact ⟨by simp, fun _ => ⟨start, position, takes⟩⟩
  | case5 steps visited marks others members rest waiting found new result ih =>
    obtain ⟨waits, through⟩ := ih fun thread member =>
      complete thread (List.mem_cons_of_mem _ member)
    refine ⟨fun thread member => ?_, through⟩
    rcases List.mem_cons.mp member with rfl | other
    · exact complete _ List.mem_cons_self
    · exact waits thread other
  | case6 steps visited marks others task rest waits new ih =>
    refine ih fun thread member => ?_
    rcases List.mem_append.mp member with unfolded | other
    · exact fun stop does => complete _ List.mem_cons_self stop (does_of_unfold unfolded does)
    · exact complete thread (List.mem_cons_of_mem _ other)

/-- A new thread completes whatever the pattern takes from there. -/
theorem started_completes {position : Nat} {threads : List Thread} (found : Option Marks)
    (complete : ∀ thread ∈ threads, thread.Completes whole root position) :
    ∀ thread ∈ (if found.isNone then threads ++ [⟨[.node root], []⟩] else threads),
      thread.Completes whole root position := by
  intro thread member
  split at member
  next =>
    rcases List.mem_append.mp member with old | new
    · exact complete thread old
    · obtain rfl := List.mem_singleton.mp new
      rintro stop ⟨_, takes, rfl⟩
      exact ⟨position, takes⟩
  next => exact complete thread member

theorem isSome_of_orElse {first second : Option Marks}
    (some : (first <|> second).isSome = true) : first.isSome = true ∨ second.isSome = true := by
  cases first with
  | none => exact .inr some
  | some marks => exact .inl rfl

theorem run_completes {steps position : Nat} {text : List Char} {threads : List Thread}
    {found : Option Marks} (rest : whole.drop position = text)
    (complete : ∀ thread ∈ threads, thread.Completes whole root position)
    (earlier : found.isSome = true → ∃ start stop, Takes whole root start stop)
    (matched : (run root steps (placeAt whole position).before position threads found
      text).isSome = true) :
    ∃ start stop, Takes whole root start stop := by
  induction text generalizing position threads found with
  | nil =>
    have place : (⟨(placeAt whole position).before, none⟩ : Place) = placeAt whole position := by
      rw [placeAt, rest]
      rfl
    obtain ⟨-, through⟩ := @explore_completes whole root position position steps [] _
      (started_completes found complete)
    rw [run] at matched
    simp only [List.head?_nil, place] at matched
    exact (isSome_of_orElse matched).elim through earlier
  | cons c text ih =>
    have place : (⟨(placeAt whole position).before, some c⟩ : Place) = placeAt whole position := by
      rw [placeAt, rest]
      rfl
    obtain ⟨waits, through⟩ := @explore_completes whole root position position steps [] _
      (started_completes found complete)
    have next : whole.drop (position + 1) = text := by
      rw [← List.drop_drop, rest, List.drop_succ_cons, List.drop_zero]
    have here : whole[position]? = some c := by
      rw [← List.head?_drop, rest]
      rfl
    have before : (placeAt whole (position + 1)).before = some c := by
      simp [placeAt, List.take_add_one, here]
    rw [run] at matched
    simp only [List.head?_cons, place] at matched
    rw [← before] at matched
    refine ih next ?_ ?_ matched
    · intro thread member
      obtain ⟨waiting, isWaiting, taken⟩ := List.mem_filterMap.mp member
      intro stop does
      exact waits waiting isWaiting stop (does_of_take? (by rw [rest]; rfl) taken does)
    · exact fun some => (isSome_of_orElse some).elim through earlier

/-- A pattern that matches takes a piece of the text. -/
theorem exists_takes_of_isMatch {pattern : Pattern} {text : String}
    (isMatch : pattern.isMatch text = true) :
    ∃ start stop, Takes text.toList pattern.root start stop := by
  have matched : (run (.group 0 pattern.root) (8 * (Node.group 0 pattern.root).tasks + 16)
      (placeAt text.toList 0).before 0 [] none text.toList).isSome = true := by
    simpa [isMatch, Pattern.isMatch, find?, placeAt] using isMatch
  obtain ⟨start, stop, takes⟩ := run_completes List.drop_zero (by simp) (by simp) matched
  cases takes with
  | group takes => exact ⟨start, stop, takes⟩

/-! ## Widths -/

/-- What a pattern takes has no more than a number of characters. -/
def Node.NoWider (width : Nat) (node : Node) : Prop :=
  ∀ whole start stop, Takes whole node start stop → stop ≤ start + width

namespace Node.NoWider

variable {width wider most : Nat} {first second body : Node}

theorem mono (narrow : body.NoWider width) (le : width ≤ wider) : body.NoWider wider := by
  intro whole start stop takes
  have bound := narrow whole start stop takes
  omega

theorem empty : Node.empty.NoWider 0 := by
  rintro whole start stop ⟨⟩
  exact Nat.le_refl start

theorem set (members : CharSet) : (Node.set members).NoWider 1 := by
  rintro whole start stop ⟨⟩
  exact Nat.le_refl (start + 1)

theorem alt (left : first.NoWider width) (right : second.NoWider width) :
    (Node.alt first second).NoWider width := by
  intro whole start stop takes
  cases takes with
  | first takes => exact left whole start stop takes
  | second takes => exact right whole start stop takes

/-- A limited repetition takes no more than so many times what its body takes. -/
theorem repetition (narrow : body.NoWider width) (least most : Nat) (greedy : Bool) :
    (Node.repetition least (some most) greedy body).NoWider (most * width) := by
  intro whole start stop takes
  induction most generalizing least start with
  | zero =>
    cases takes with
    | enough may => exact Nat.le_add_right _ _
    | more may once rest => exact absurd rfl may
  | succ most ih =>
    cases takes with
    | enough may => exact Nat.le_add_right _ _
    | @more _ _ _ _ _ middle _ may once rest =>
      have round := narrow whole start middle once
      have rounds := ih (least - 1) middle rest
      rw [Nat.succ_mul]
      omega

theorem repeated (narrow : body.NoWider width) (least most : Nat) (greedy : Bool) :
    (Node.repeated least (some most) greedy body).NoWider (most * width) := by
  -- Something without width is repeated once at most.
  have fewer : (if body.isZeroWidth then (min least 1, some (min ((some most).getD 1) 1))
      else (least, some most)) = (if body.isZeroWidth then min least 1 else least,
        some (if body.isZeroWidth then min most 1 else most)) := by
    split <;> rfl
  have le : (if body.isZeroWidth then min most 1 else most) ≤ most := by
    split <;> omega
  rw [Node.repeated]
  simp only [fewer]
  generalize (if body.isZeroWidth then min most 1 else most) = rounds at le
  generalize (if body.isZeroWidth then min least 1 else least) = atLeast
  have wide : rounds * width ≤ most * width := Nat.mul_le_mul_right width le
  split
  next => exact empty.mono (Nat.zero_le _)
  next same =>
    cases same
    exact narrow.mono (by simpa using wide)
  next => exact (narrow.repetition _ _ greedy).mono wide

end Node.NoWider

/-- A pattern that has to take a whole text takes none that is too long. -/
theorem length_le_of_isMatch {body : Node} {width : Nat} (narrow : body.NoWider width)
    {names : List (String × Nat)} {text : String}
    (isMatch : isMatch ⟨.seq (.seq (.look .textStart) body) (.look .textEnd), names⟩ text = true) :
    text.length ≤ width := by
  obtain ⟨start, stop, takes⟩ := exists_takes_of_isMatch isMatch
  cases takes with
  | seq left right =>
    cases right with
    | look atEnd =>
      cases left with
      | @seq _ _ _ middle _ opening takes =>
        cases opening with
        | look atStart =>
          have bound := narrow _ _ _ takes
          rw [Assertion.holds, placeAt, Option.isNone_iff_eq_none, List.head?_eq_none_iff,
            List.drop_eq_nil_iff] at atEnd
          rw [Assertion.holds, placeAt, Option.isNone_iff_eq_none, List.getLast?_eq_none_iff,
            List.take_eq_nil_iff] at atStart
          rw [← String.length_toList]
          rcases atStart with rfl | none
          · omega
          · simp [none]

end EntityGraph.Pattern
