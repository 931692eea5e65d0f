import EntityGraph.Text.EditScript

/-!
# Line difference of two texts

A script with the fewest changes that turns the lines of one text into those of another. A run of
inserted lines may stand at several places: past a kept line at its border that equals the line at
its other border, the run can slide by one line. Every run slides as far as it can towards the
start, joining the runs it meets, and then as far as it can towards the end; deleted lines do not
hold it up. In the written form, the deletions between two kept lines stand before the insertions.
-/
namespace EntityGraph.Text.LineDiff

/-- The lines of a text, each with its line break if it has one. -/
def lines (text : String) : List String :=
  let rec go : List Char → List Char → List (List Char)
    | current, [] => if current.isEmpty then [] else [current.reverse]
    | current, '\n' :: rest => ('\n' :: current).reverse :: go [] rest
    | current, c :: rest => go (c :: current) rest
  (go [] text.toList).map String.ofList

/-! ## Sliding -/

/-- A run of inserted lines in a script, with the steps before it, the nearest first, and those
after it. -/
structure Slide where
  before : List Change
  run : List String
  after : List Change
  deriving Repr

/-- Slides a run towards the start. -/
def Slide.raise : List Change → List String → List Change → Slide
  | .keep line :: before, run, after =>
    if run.getLast? = some line then raise before (line :: run.dropLast) (.keep line :: after)
    else ⟨.keep line :: before, run, after⟩
  | .delete line :: before, run, after => raise before run (.delete line :: after)
  | .insert lines :: before, run, after => raise before (lines ++ run) after
  | [], run, after => ⟨[], run, after⟩

/-- Slides a run towards the end. -/
def Slide.lower : List Change → List String → List Change → Slide
  | before, run, .keep line :: after =>
    if run.head? = some line then lower (.keep line :: before) (run.drop 1 ++ [line]) after
    else ⟨before, run, .keep line :: after⟩
  | before, run, .delete line :: after => lower (.delete line :: before) run after
  | before, run, .insert lines :: after => lower before (run ++ lines) after
  | before, run, [] => ⟨before, run, []⟩

/-- Slides the run after some steps to its place. -/
def Slide.place (before : List Change) (run : List String) (after : List Change) : Slide :=
  let raised := raise before run after
  lower raised.before raised.run raised.after

/-- The number of runs. -/
def runCount (script : List Change) : Nat :=
  script.countP fun
    | .insert _ => true
    | _ => false

theorem Slide.runCount_raise (before : List Change) (run : List String) (after : List Change) :
    runCount (raise before run after).after = runCount after := by
  fun_induction raise before run after with
  | case1 line before run after _ ih => simpa [runCount] using ih
  | case2 => rfl
  | case3 line before run after ih => simpa [runCount] using ih
  | case4 lines before run after ih => exact ih
  | case5 => rfl

theorem Slide.runCount_lower (before : List Change) (run : List String) (after : List Change) :
    runCount (lower before run after).after ≤ runCount after := by
  fun_induction lower before run after with
  | case1 before run line after _ ih => simpa [runCount] using ih
  | case2 => exact Nat.le_refl _
  | case3 before run line after ih => simpa [runCount] using ih
  | case4 before run lines after ih => simp only [runCount, List.countP_cons] at ih ⊢; omega
  | case5 => exact Nat.le_refl _

theorem Slide.runCount_place (before : List Change) (run : List String) (after : List Change) :
    runCount (place before run after).after ≤ runCount after := by
  have raised := runCount_raise before run after
  have lowered := runCount_lower (raise before run after).before (raise before run after).run
    (raise before run after).after
  simp only [place]
  omega

/-- Slides the runs to their places, in their order. The steps before come the nearest first; every
placed run leaves fewer of them to be placed. -/
def settle (before : List Change) : List Change → List Change
  | [] => before.reverse
  | .keep line :: after => settle (.keep line :: before) after
  | .delete line :: after => settle (.delete line :: before) after
  | .insert run :: after =>
    let placed := Slide.place before run after
    settle (.insert placed.run :: placed.before) placed.after
termination_by after => (runCount after, after.length)
decreasing_by
  · simp [runCount, Prod.lex_def]
  · simp [runCount, Prod.lex_def]
  · have placed := Slide.runCount_place before run after
    simp only [runCount, List.countP_cons, Prod.lex_def] at placed ⊢
    left
    simp only [↓reduceIte]
    omega

/-! ## The written form -/

/-- The lines of steps, each behind a sign. `inserted` holds signed lines that wait for the end of
the deletions around them. -/
def signedLines (inserted : List String) : List Change → List String
  | [] => inserted
  | .keep line :: rest => inserted ++ (" " ++ line) :: signedLines [] rest
  | .delete line :: rest => ("-" ++ line) :: signedLines inserted rest
  | .insert lines :: rest => signedLines (inserted ++ lines.map ("+" ++ ·)) rest

/-- A line with a line break at its end. -/
def closed (line : String) : String := if line.endsWith "\n" then line else line ++ "\n"

/-- The whole difference as text. -/
def render (old new : String) : String :=
  String.join ((signedLines [] (settle [] (editScript (lines old) (lines new)))).map closed)

end EntityGraph.Text.LineDiff
