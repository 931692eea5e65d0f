import EntityGraph.Error
import Mathlib.Data.List.Forall2

/-!
# Results that are not errors

How a computation that gave a value is taken apart: its steps gave values as well.
-/
namespace EntityGraph.Result

variable {α β : Type}

@[simp] theorem ok_bind (value : α) (next : α → Result β) :
    (Except.ok value : Result α) >>= next = next value := rfl

theorem bind_eq_ok {ε : Type} {first : Except ε α} {next : α → Except ε β} {value : β} :
    first >>= next = .ok value ↔ ∃ middle, first = .ok middle ∧ next middle = .ok value := by
  cases first <;> simp [bind, Except.bind]

theorem exists_bind_eq_ok {first : Result α} {next : α → Result β} :
    (∃ value, first >>= next = .ok value) ↔
      ∃ middle, first = .ok middle ∧ ∃ value, next middle = .ok value := by
  cases first <;> simp [bind, Except.bind]

theorem bind_eq_error {first : Result α} {next : α → Result β} {failure : Error} :
    first >>= next = .error failure ↔
      first = .error failure ∨ ∃ middle, first = .ok middle ∧ next middle = .error failure := by
  cases first <;> simp [bind, Except.bind]

@[simp] theorem pure_eq_ok {value other : α} :
    (pure value : Result α) = .ok other ↔ value = other := by
  simp [pure, Except.pure]

@[simp] theorem pure_ne_error {value : α} {failure : Error} :
    ¬(pure value : Result α) = .error failure := by
  simp [pure, Except.pure]

@[simp] theorem throw_ne_ok {failure : Error} {value : α} :
    ¬ (throw failure : Result α) = .ok value := by
  simp [throw, throwThe, MonadExceptOf.throw]

/-- What a computation is seen to give. -/
theorem exists_ok_of_map {result : Result α} {view : α → β} {seen : β}
    (evaluated : result.toOption.map view = some seen) :
    ∃ value, result = .ok value ∧ view value = seen := by
  cases result with
  | error failure => cases evaluated
  | ok value => exact ⟨value, rfl, Option.some.inj evaluated⟩

theorem isSome_toOption {result : Result α} :
    result.toOption.isSome = true ↔ ∃ value, result = .ok value := by
  cases result <;> simp [Except.toOption]

/-- The error with which a computation ends, if it does. -/
def failure? : Result α → Option Error
  | .error failure => some failure
  | .ok _ => none

theorem eq_error_of_failure? {result : Result α} {failure : Error}
    (evaluated : result.failure? = some failure) : result = .error failure := by
  cases result with
  | error other => rw [Option.some.inj evaluated]
  | ok value => cases evaluated

/-- If two computations both give a value, then the values are related. -/
def Related {γ : Type} (relation : α → γ → Prop) (first : Result α) (second : Result γ) : Prop :=
  ∀ value other, first = .ok value → second = .ok other → relation value other

/-- A computation gives one value at most. -/
theorem Related.same (result : Result α) : Related Eq result result :=
  fun _ _ given otherGiven => Except.ok.inj (given.symm.trans otherGiven)

theorem Related.bind {γ δ : Type} {relation : α → γ → Prop} {final : β → δ → Prop}
    {first : Result α} {second : Result γ} {next : α → Result β} {nextOther : γ → Result δ}
    (here : Related relation first second)
    (later : ∀ value other, relation value other → Related final (next value) (nextOther other)) :
    Related final (first >>= next) (second >>= nextOther) := by
  intro value other given otherGiven
  obtain ⟨middle, reached, given⟩ := bind_eq_ok.mp given
  obtain ⟨otherMiddle, otherReached, otherGiven⟩ := bind_eq_ok.mp otherGiven
  exact later middle otherMiddle (here _ _ reached otherReached) _ _ given otherGiven

theorem Related.returns {γ : Type} {relation : α → γ → Prop} {value : α} {other : γ}
    (holds : relation value other) :
    Related relation (pure value : Result α) (pure other : Result γ) := by
  intro given otherGiven same otherSame
  rw [pure_eq_ok] at same otherSame
  exact same ▸ otherSame ▸ holds

theorem Related.fails_left {γ : Type} {relation : α → γ → Prop} {failure : Error}
    {second : Result γ} : Related relation (.error failure) second := by
  intro _ _ given
  cases given

theorem Related.fails_right {γ : Type} {relation : α → γ → Prop} {first : Result α}
    {failure : Error} : Related relation first (.error failure) := by
  intro _ _ _ given
  cases given

/-- Nothing is known about two unrelated computations. -/
theorem Related.anyhow {γ : Type} (first : Result α) (second : Result γ) :
    Related (fun _ _ => True) first second :=
  fun _ _ _ _ => trivial

/-- What holds at the start of a fold, and after every step that had it before, holds at the end. -/
theorem foldlM_induction {step : β → α → Result β} (Holds : β → Prop) (items : List α)
    {start final : β} (folded : items.foldlM step start = .ok final) (init : Holds start)
    (keeps : ∀ item ∈ items, ∀ before after, step before item = .ok after → Holds before →
      Holds after) : Holds final := by
  induction items generalizing start with
  | nil =>
    rw [List.foldlM_nil, pure_eq_ok] at folded
    exact folded ▸ init
  | cons item rest ih =>
    rw [List.foldlM_cons] at folded
    obtain ⟨middle, stepped, folded⟩ := bind_eq_ok.mp folded
    exact ih folded (keeps item List.mem_cons_self start middle stepped init)
      fun other member => keeps other (List.mem_cons_of_mem _ member)

/-- A traversal gives one value for each item. -/
theorem forall₂_of_mapM {step : α → Result β} {items : List α} {values : List β}
    (mapped : items.mapM step = .ok values) :
    List.Forall₂ (fun item value => step item = .ok value) items values := by
  induction items generalizing values with
  | nil =>
    rw [List.mapM_nil, pure_eq_ok] at mapped
    exact mapped ▸ .nil
  | cons item rest ih =>
    rw [List.mapM_cons] at mapped
    obtain ⟨value, stepped, mapped⟩ := bind_eq_ok.mp mapped
    obtain ⟨others, restMapped, mapped⟩ := bind_eq_ok.mp mapped
    rw [pure_eq_ok] at mapped
    exact mapped ▸ .cons stepped (ih restMapped)

/-- A traversal gives values if each of its steps does. -/
theorem exists_mapM_eq_ok {step : α → Result β} {items : List α}
    (each : ∀ item ∈ items, ∃ value, step item = .ok value) :
    ∃ values, items.mapM step = .ok values := by
  induction items with
  | nil => exact ⟨[], rfl⟩
  | cons item rest ih =>
    obtain ⟨value, stepped⟩ := each item List.mem_cons_self
    obtain ⟨others, mapped⟩ := ih fun other member => each other (List.mem_cons_of_mem _ member)
    exact ⟨value :: others, by rw [List.mapM_cons, stepped, mapped]; rfl⟩

end EntityGraph.Result
