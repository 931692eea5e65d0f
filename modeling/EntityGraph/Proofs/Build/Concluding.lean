import EntityGraph.Proofs.Build.Nesting
import EntityGraph.Proofs.Faults
import EntityGraph.Proofs.Table

/-!
# Walks that come to an end

A walk concludes if it gives a result, or an error of its own: it is not cut off. What counts while
a build goes on is how many of the named type paths have not been built.
-/
namespace EntityGraph.Compile

open Result (avoids_ok avoids_error)

/-! ## Walks that conclude -/

/-- From every state as stated before, a walk is not cut off; and where it gives a result, the state
is as stated after. -/
def ConcludesIn {α : Type} (Before : State → Prop) (walk : Walk α) (After : α → State → Prop) :
    Prop :=
  ∀ state, Before state → (walk.run state).Ends ∧
    ∀ result final, walk.run state = .ok (result, final) → After result final

/-- The same of a walk that keeps a property, with what is known of its result. -/
def Concludes {α : Type} (Holds : State → Prop) (walk : Walk α) (ensures : α → Prop) : Prop :=
  ConcludesIn Holds walk fun result state => Holds state ∧ ensures result

variable {α β : Type} {Before Holds : State → Prop}

namespace ConcludesIn

theorem fails {After : α → State → Prop} {failure : Error} (own : failure.isOf .cutOff = false) :
    ConcludesIn Before (throw failure) After :=
  fun _ _ => ⟨avoids_error own, fun _ _ ran => by cases ran⟩

theorem returns {After : α → State → Prop} {value : α}
    (holds : ∀ state, Before state → After value state) :
    ConcludesIn Before (pure value) After := by
  refine fun state before => ⟨avoids_ok _, fun result final ran => ?_⟩
  cases ran
  exact holds state before

theorem bind {first : Walk α} {next : α → Walk β} {Middle : α → State → Prop}
    {After : β → State → Prop} (concludes : ConcludesIn Before first Middle)
    (continues : ∀ value, ConcludesIn (Middle value) (next value) After) :
    ConcludesIn Before (first >>= next) After := by
  intro state before
  obtain ⟨ends_, middle⟩ := concludes state before
  rw [StateT.run_bind]
  cases ran : first.run state with
  | error failure =>
    exact ⟨avoids_error (ends_ failure ran), fun _ _ ranNext => by cases ranNext⟩
  | ok reached => exact continues reached.1 reached.2 (middle reached.1 reached.2 ran)

theorem weaken {walk : Walk α} {Stronger : State → Prop} {After Weaker : α → State → Prop}
    (concludes : ConcludesIn Before walk After) (before : ∀ state, Stronger state → Before state)
    (after : ∀ value state, After value state → Weaker value state) :
    ConcludesIn Stronger walk Weaker := by
  intro state holds
  obtain ⟨ends_, ensured⟩ := concludes state (before state holds)
  exact ⟨ends_, fun result final ran => after result final (ensured result final ran)⟩

/-- Reading the state. -/
theorem reads {next : State → Walk β} {After : β → State → Prop}
    (continues : ∀ state, Before state → ConcludesIn (· = state) (next state) After) :
    ConcludesIn Before (get >>= next) After :=
  fun state before => continues state before state rfl

theorem changes {change : State → State} {After : State → Prop}
    (changed : ∀ state, Before state → After (change state)) :
    ConcludesIn Before (modify change) fun _ => After := by
  refine fun state before => ⟨avoids_ok _, fun result final ran => ?_⟩
  cases ran
  exact changed state before

end ConcludesIn

namespace Concludes

theorem returns {value : α} {ensures : α → Prop} (ensured : ensures value) :
    Concludes Holds (pure value) ensures :=
  ConcludesIn.returns fun _ holds => ⟨holds, ensured⟩

theorem fails {failure : Error} {ensures : α → Prop} (own : failure.isOf .cutOff = false) :
    Concludes Holds (throw failure) ensures :=
  ConcludesIn.fails own

theorem bind {first : Walk α} {next : α → Walk β} {ensures : α → Prop} {finally_ : β → Prop}
    (concludes : Concludes Holds first ensures)
    (continues : ∀ value, ensures value → Concludes Holds (next value) finally_) :
    Concludes Holds (first >>= next) finally_ :=
  ConcludesIn.bind concludes fun value state ⟨holds, ensured⟩ =>
    continues value ensured state holds

theorem weaken {walk : Walk α} {ensures weaker : α → Prop}
    (concludes : Concludes Holds walk ensures) (implies : ∀ value, ensures value → weaker value) :
    Concludes Holds walk weaker :=
  ConcludesIn.weaken concludes (fun _ => id) fun value _ => And.imp_right (implies value)

/-- A walk whose result does not matter. -/
theorem done {walk : Walk α} {ensures : α → Prop} (concludes : Concludes Holds walk ensures) :
    Concludes Holds walk fun _ => True :=
  concludes.weaken fun _ _ => trivial

/-- Reading the state, where it does not matter. -/
theorem reads {next : State → Walk β} {ensures : β → Prop}
    (continues : ∀ state, Concludes Holds (next state) ensures) :
    Concludes Holds (get >>= next) ensures :=
  fun state holds => continues state state holds

/-- A computation that does not look at the state. -/
theorem lifts {computation : Result α} (ends_ : computation.Ends) :
    Concludes Holds (liftM computation : Walk α) fun value => computation = .ok value := by
  intro state holds
  cases computation with
  | error failure => exact ⟨avoids_error (ends_ failure rfl), fun _ _ ran => by cases ran⟩
  | ok value =>
    refine ⟨avoids_ok _, fun result final ran => ?_⟩
    cases ran
    exact ⟨holds, rfl⟩

theorem changes {change : State → State} (keeps : ∀ state, Holds state → Holds (change state)) :
    Concludes Holds (modify change) fun _ => True :=
  ConcludesIn.changes fun state holds => ⟨keeps state holds, trivial⟩

/-- Doing the same for each item. -/
theorem repeats {items : List α} {walk : α → Walk Unit}
    (each : ∀ item ∈ items, Concludes Holds (walk item) fun _ => True) :
    Concludes Holds (items.forM walk) fun _ => True := by
  induction items with
  | nil => exact .returns trivial
  | cons item rest ih =>
    change Concludes Holds (walk item >>= fun _ => rest.forM walk) _
    exact (each item List.mem_cons_self).bind fun _ _ =>
      ih fun further member => each further (List.mem_cons_of_mem _ member)

end Concludes

/-! ## What remains to be built -/

/-- At most so many of the named type paths have not been built. Every path that has a name has been
built, and the naming rules take no other paths literally than the named ones. -/
structure Remains (context : Context) (count : Nat) (state : State) : Prop where
  unbuilt : remaining (namedPaths context.index context.settings) state.isBuilt ≤ count
  known : ∀ path ∈ state.resolver.known.names, state.isBuilt path = true
  literals : ∀ rule ∈ state.resolver.rules, ∀ path, rule.literal = some path →
    path ∈ namedPaths context.index context.settings

variable {context : Context} {count : Nat}

theorem Remains.more {state : State} (remains : Remains context count state) {larger : Nat}
    (le : count ≤ larger) : Remains context larger state :=
  ⟨Nat.le_trans remains.unbuilt le, remains.known, remains.literals⟩

/-- Whatever keeps the names and the entities keeps what remains. -/
theorem Remains.frame {state later : State} (remains : Remains context count state)
    (built : ∀ path, state.isBuilt path = true → later.isBuilt path = true)
    (same : later.resolver = state.resolver) : Remains context count later where
  unbuilt := Nat.le_trans (remaining_le built) remains.unbuilt
  known path member := built path (remains.known path (same ▸ member))
  literals rule member := remains.literals rule (same ▸ member)

theorem Remains.set {state : State} (remains : Remains context count state) (path : String)
    (entity : Entity) :
    Remains context count { state with entities := state.entities.set path entity } :=
  remains.frame (fun _ built => State.isBuilt_set.mpr (.inr built)) rfl

/-! ## Small walks -/

section Small

theorem notify_concludes (notice : Diagnostic) :
    Concludes (Remains context count) (notify notice) fun _ => True :=
  .changes fun _ remains => remains.frame (fun _ => id) rfl

theorem nextChoice_concludes : Concludes (Remains context count) nextChoice fun _ => True := by
  refine fun state remains => ⟨avoids_ok _, fun result final ran => ?_⟩
  cases ran
  exact ⟨remains.frame (fun _ => id) rfl, trivial⟩

theorem addToBag_concludes (path : String) (entries : Bag) :
    Concludes (Remains context count) (addToBag path entries) fun _ => True :=
  .changes fun _ remains => remains.frame (fun _ => id) rfl

theorem takeBag_concludes (path : String) :
    Concludes (Remains context count) (takeBag path) fun _ => True := by
  refine fun state remains => ⟨avoids_ok _, fun result final ran => ?_⟩
  cases ran
  exact ⟨remains.frame (fun _ => id) rfl, trivial⟩

theorem deriveScalar_concludes {derive : Scalar.State → Scalar.Derivation}
    (ends_ : ∀ scalars, (derive scalars).1.Ends) :
    Concludes (Remains context count) (deriveScalar derive) fun _ => True := by
  refine ConcludesIn.reads fun state remains => ?_
  have ends_ := ends_ state.scalars
  split
  next repr scalars _ =>
    refine fun reached _ => ⟨avoids_ok _, fun result final ran => ?_⟩
    cases ran
    exact ⟨remains.frame (fun _ => id) rfl, trivial⟩
  next failure scalars derived =>
    rw [derived] at ends_
    exact .fails (ends_ failure rfl)

theorem namedScalar_concludes (name : String) :
    Concludes (Remains context count) (namedScalar context name) fun _ => True :=
  deriveScalar_concludes fun scalars => Scalar.named_avoids _ name scalars

theorem entityAt_concludes (path : String) :
    Concludes (Remains context count) (entityAt context path) fun _ => True := by
  refine .reads fun state => ?_
  split
  · exact .returns trivial
  · exact .fails rfl

theorem modifyEntity_concludes (path : String) (change : Entity → Entity) :
    Concludes (Remains context count) (modifyEntity context path change) fun _ => True :=
  (entityAt_concludes path).bind fun _ _ => .changes fun _ remains => remains.set path _

/-- A field that is added is left out, or its name keeps within the limit. -/
def KeepsLimit (context : Context) (rules : FieldRules) (field : Field) : Prop :=
  field.isMaterialized = true → rules.dropAfterProcessing.contains field.name = false →
    field.name.length ≤ context.settings.compiler.identifierLimit

theorem addField_concludes (rules : FieldRules) (path : String) (field : Field) :
    Concludes (Remains context count) (addField context rules path field)
      fun _ => KeepsLimit context rules field := by
  refine (entityAt_concludes path).bind fun entity _ => ?_
  split
  next leftOut =>
    refine .returns fun materialized kept => ?_
    simp [kept] at leftOut
  next =>
    extract_lets limit proceed
    split
    · exact (Concludes.fails rfl).bind fun _ (impossible : False) => impossible.elim
    next short =>
      refine Concludes.reads fun state => ?_
      refine (Concludes.lifts (insertField_avoids _ _)).bind fun after _ => ?_
      refine ConcludesIn.changes fun reached remains =>
        ⟨remains.set path after, fun materialized _ => ?_⟩
      simpa [materialized] using short

theorem addFields_concludes (rules : FieldRules) (path : String) (fields : List Field) :
    Concludes (Remains context count) (addFields context rules path fields) fun _ => True :=
  .repeats fun field _ => (addField_concludes rules path field).done

theorem extendBuilt_concludes (path : String) (fields : List Field) :
    Concludes (Remains context count) (extendBuilt context path fields) fun _ => True := by
  unfold extendBuilt
  split
  · exact .returns trivial
  · refine (entityAt_concludes path).bind fun entity _ => ?_
    refine (Concludes.lifts (context.book.forType_avoids (by decide) _ _)).bind fun rules _ => ?_
    exact (addFields_concludes rules path fields).bind fun _ _ => modifyEntity_concludes path _

end Small

end EntityGraph.Compile
