import EntityGraph.Proofs.Scalar.Memory
import EntityGraph.Scalar.Derive

/-!
# What a memory of scalars can be trusted for

Deriving a scalar gives notices about built-in types and no others, whatever the way down to the
built-in type is. A memory is honest if whatever it has under a name is what is derived for the name
without any memory. Deriving keeps it honest, whatever notices there are. Two honest memories
therefore give the same scalar for the same request, although each has been asked for other things
before; nor do the roots of the settings matter, which no derivation looks at.
-/
namespace EntityGraph.Scalar

/-! ## Notices -/

/-- All new notices are about built-in types. -/
def State.Continues (before after : State) : Prop :=
  ∀ notice ∈ after.diagnostics, notice ∈ before.diagnostics ∨ notice.code = .unknownBuiltin

theorem State.Continues.of_same {before after : State}
    (same : after.diagnostics = before.diagnostics) : before.Continues after :=
  fun _ member => .inl (same ▸ member)

theorem keep_diagnostics (name : String) (derivation : Derivation) :
    (keep name derivation).2.diagnostics = derivation.2.diagnostics := by
  obtain ⟨result, state⟩ := derivation
  cases result <;> rfl

/-- Remembering a scalar gives no notices. -/
theorem State.Continues.keep {before : State} {derivation : Derivation} (name : String)
    (continues : before.Continues derivation.2) : before.Continues (keep name derivation).2 := by
  intro notice member
  rw [keep_diagnostics] at member
  exact continues notice member

theorem namedWithin_continues (source : Source) (steps : Nat) (name : String) (state : State) :
    state.Continues (namedWithin source steps name state).2 := by
  induction steps generalizing name with
  | zero => exact .of_same rfl
  | succ steps ih =>
    simp only [namedWithin]
    split
    · exact .of_same rfl
    · split
      · exact .of_same rfl
      · split
        · split
          · exact .of_same rfl
          · -- The only place that gives a notice.
            intro notice member
            rcases List.mem_append.mp member with old | new
            · exact .inl old
            · exact .inr (List.mem_singleton.mp new ▸ rfl)
        · split
          next type _ =>
            have base := ih type.base
            split
            next derived => exact derived ▸ base
            next derived =>
              refine .keep name ?_
              rw [derived] at base
              exact base
          next =>
            split
            · exact .keep name (ih _)
            · exact .of_same rfl

theorem named_continues (source : Source) (name : String) (state : State) :
    state.Continues (named source name state).2 := namedWithin_continues _ _ _ _

theorem inline_continues (source : Source) (type : Schema.SimpleType) (state : State) :
    state.Continues (inline source type state).2 := by
  have base := named_continues source type.base state
  unfold inline
  split
  next derived =>
    rw [derived] at base
    exact base
  next => exact base

/-! ## Honest memories -/

variable {source : Source} {name : String} {state later : State} {repr : ScalarRepr} {steps : Nat}

/-- What is remembered of a name is derived for it without memory. -/
def State.IsHonest (source : Source) (state : State) : Prop :=
  ∀ name repr, state.find? name = some repr → ∃ bases, Derives source bases name (.ok repr)

namespace State.IsHonest

theorem empty : State.empty.IsHonest source := fun _ _ found => by cases found

theorem of_known (honest : state.IsHonest source) (same : later.known = state.known) :
    later.IsHonest source := by
  intro name repr found
  rw [State.find?, same] at found
  exact honest name repr found

theorem remember {bases : Nat} (honest : state.IsHonest source)
    (derives : Derives source bases name (.ok repr)) :
    (state.remember name repr).IsHonest source := by
  intro other otherRepr found
  rw [State.find?_remember] at found
  split at found
  next same =>
    cases found
    exact same ▸ ⟨bases, derives⟩
  next => exact honest other otherRepr found

/-- Keeping what has been derived for a name. -/
theorem keep {bases : Nat} {outcome : Result ScalarRepr} (honest : state.IsHonest source)
    (derives : Derives source bases name outcome)
    (kept : Scalar.keep name (outcome, state) = (.ok repr, later)) :
    outcome = .ok repr ∧ later.IsHonest source := by
  cases outcome with
  | error failure => cases kept
  | ok value =>
    cases kept
    exact ⟨rfl, honest.remember derives⟩

end State.IsHonest

/-- From an honest memory, the scalar of a name is what is derived for it without memory. -/
theorem namedWithin_honest (honest : state.IsHonest source)
    (derived : namedWithin source steps name state = (.ok repr, later)) :
    (∃ bases, Derives source bases name (.ok repr)) ∧ later.IsHonest source := by
  induction steps generalizing name repr later with
  | zero => cases derived
  | succ steps ih =>
    cases found : state.find? name with
    | some known =>
      rw [namedWithin_known found] at derived
      cases derived
      exact ⟨honest name _ found, honest⟩
    | none =>
      by_cases rests : ∃ base, RestsOn source.index source.settings name base
      · obtain ⟨base, rests⟩ := rests
        rw [namedWithin_above found rests] at derived
        rcases below : namedWithin source steps base state with ⟨failure | value, middle⟩
        · rw [below] at derived
          cases derived
        · rw [below] at derived
          obtain ⟨⟨bases, derives⟩, honestMiddle⟩ := ih below
          have above : Derives source (bases + 1) name (source.above name value) :=
            .above rests derives
          obtain ⟨same, honestLater⟩ := honestMiddle.keep above derived
          exact ⟨⟨_, same ▸ above⟩, honestLater⟩
      · have lowest : Derives source 0 name (source.bottom name) := .bottom (not_exists.mp rests)
        -- A notice comes first if the name is an unmapped type, and nothing is remembered of that.
        by_cases unmapped : Unmapped source.settings name
        · rw [namedWithin_unmapped found unmapped] at derived
          have noticed : State.IsHonest source
              { state with diagnostics := state.diagnostics ++ [unknownBuiltin name] } :=
            honest.of_known rfl
          obtain ⟨same, honestLater⟩ := noticed.keep lowest derived
          exact ⟨⟨_, same ▸ lowest⟩, honestLater⟩
        · rw [namedWithin_bottom found (not_exists.mp rests) unmapped] at derived
          obtain ⟨same, honestLater⟩ := honest.keep lowest derived
          exact ⟨⟨_, same ▸ lowest⟩, honestLater⟩

/-! ## Requests -/

/-- A request has an answer that no memory is needed for. -/
def Request.Gives (source : Source) (request : Request) (repr : ScalarRepr) : Prop :=
  ∃ bases base, Derives source bases request.start (.ok base) ∧
    request.finish source base = .ok repr

namespace Request

variable {request : Request}

theorem Gives.unique {other : ScalarRepr} (first : request.Gives source repr)
    (second : request.Gives source other) : repr = other := by
  obtain ⟨_, base, derives, finished⟩ := first
  obtain ⟨_, otherBase, otherDerives, otherFinished⟩ := second
  obtain rfl := Except.ok.inj (derives.unique otherDerives).2
  exact Except.ok.inj (finished.symm.trans otherFinished)

theorem answer_honest (honest : state.IsHonest source)
    (answered : request.answer source state = (.ok repr, later)) :
    request.Gives source repr ∧ later.IsHonest source := by
  rw [answer_eq] at answered
  obtain ⟨outcome, rfl⟩ := Prod.mk.inj answered
  obtain ⟨base, derived, finished⟩ := Result.bind_eq_ok.mp outcome
  obtain ⟨⟨bases, derives⟩, honestLater⟩ :=
    namedWithin_honest honest
      (Prod.ext derived rfl : named source request.start state = (.ok base, _))
  exact ⟨⟨bases, base, derives, finished⟩, honestLater⟩

end Request

/-! ## Roots -/

theorem Derives.withRoots {index : Schema.Index} {settings : Settings} {bases : Nat}
    {outcome : Result ScalarRepr} (derives : Derives ⟨index, settings⟩ bases name outcome)
    (roots : List String) : Derives ⟨index, settings.withRoots roots⟩ bases name outcome := by
  induction derives with
  | bottom lowest =>
    exact .bottom fun base rests => lowest base ⟨rests.notBuiltin, rests.kept, rests.base⟩
  | above rests _ ih => exact .above ⟨rests.notBuiltin, rests.kept, rests.base⟩ ih

theorem Request.Gives.withRoots {index : Schema.Index} {settings : Settings} {request : Request}
    (gives : request.Gives ⟨index, settings⟩ repr) (roots : List String) :
    request.Gives ⟨index, settings.withRoots roots⟩ repr := by
  obtain ⟨bases, base, derives, finished⟩ := gives
  refine ⟨bases, base, derives.withRoots roots, ?_⟩
  cases request <;> exact finished

end EntityGraph.Scalar
