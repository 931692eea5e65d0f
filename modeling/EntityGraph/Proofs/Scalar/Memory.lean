import EntityGraph.Proofs.Scalar.Primitive

/-!
# What is remembered of scalars

A name leads down to one that has no base. On the way back up, the scalar of each name is made from
that of its base and remembered before the next one is made, which may fail. What is remembered of a
name is therefore what is derived for it without any memory; so no answer depends on what was asked
before. The notice about a built-in type without a scalar of its own is given when a way first ends
there, and as the type is remembered from then on, it is not given again.

A way that never ends is cut off at the same name every time, and nothing on it is remembered.
-/
namespace EntityGraph.Scalar

open Relation (TransGen ReflTransGen)
open Schema (Index SimpleType)

/-! ## One name of a way -/

/-- Whether a name is a built-in type that has no scalar of its own and none from the settings. -/
structure Unmapped (settings : Settings) (name : String) : Prop where
  builtin : Schema.isBuiltin name = true
  kept : settings.typeOverride? name = none
  noKind : builtinKind? name = none

namespace Source

/-- The scalar of a name that rests on no other one. -/
def bottom (source : Source) (name : String) : Result ScalarRepr :=
  match source.settings.typeOverride? name with
  | some override => .ok (ofOverride override name)
  | none =>
    if Schema.isBuiltin name then .ok (.ofKind ((builtinKind? name).getD .text))
    else .error (.unresolved name source.index.complexTypes.names)

/-- The scalar of a name, given that of its base. -/
def above (source : Source) (name : String) (base : ScalarRepr) : Result ScalarRepr :=
  match source.index.simpleType? name with
  | some type => (restrict source type base).map fun repr => { repr with sourceType := some name }
  | none => .ok base

end Source

variable {source : Source} {name base : String} {state : State} {steps : Nat}

theorem RestsOn.unique {index : Index} {settings : Settings} {other : String}
    (rests : RestsOn index settings name base) (also : RestsOn index settings name other) :
    base = other :=
  Option.some.inj (rests.base.symm.trans also.base)

theorem Unmapped.not_restsOn {index : Index} {settings : Settings}
    (unmapped : Unmapped settings name) : ¬RestsOn index settings name base := by
  intro rests
  exact absurd (rests.notBuiltin.symm.trans unmapped.builtin) Bool.false_ne_true

theorem Unmapped.bottom (unmapped : Unmapped source.settings name) :
    source.bottom name = .ok (.ofKind .text) := by
  simp [Source.bottom, unmapped.kept, unmapped.builtin, unmapped.noKind]

theorem namedWithin_known {repr : ScalarRepr} (known : state.find? name = some repr) :
    namedWithin source (steps + 1) name state = (.ok repr, state) := by
  rw [namedWithin, known]

theorem namedWithin_unmapped (new : state.find? name = none)
    (unmapped : Unmapped source.settings name) :
    namedWithin source (steps + 1) name state = keep name (source.bottom name,
      { state with diagnostics := state.diagnostics ++ [unknownBuiltin name] }) := by
  rw [namedWithin, unmapped.bottom, new, unmapped.kept, unmapped.noKind]
  simp [unmapped.builtin]

/-- A name that rests on no other one gives no notice, unless it is unmapped. -/
theorem namedWithin_bottom (new : state.find? name = none)
    (lowest : ∀ base, ¬RestsOn source.index source.settings name base)
    (mapped : ¬Unmapped source.settings name) :
    namedWithin source (steps + 1) name state = keep name (source.bottom name, state) := by
  rw [namedWithin, Source.bottom, new]
  cases kept : source.settings.typeOverride? name with
  | some override => rfl
  | none =>
    dsimp only
    by_cases builtin : Schema.isBuiltin name = true
    · rw [if_pos builtin, if_pos builtin]
      cases stored : builtinKind? name with
      | some kind => rfl
      | none => exact absurd ⟨builtin, kept, stored⟩ mapped
    · rw [if_neg builtin, if_neg builtin]
      have notBuiltin := Bool.eq_false_iff.mpr builtin
      cases simple : source.index.simpleType? name with
      | some type =>
        exact absurd ⟨notBuiltin, kept, by rw [Index.scalarBase?, simple]⟩ (lowest type.base)
      | none =>
        cases wraps : (source.index.complexType? name).bind (·.simpleContent) with
        | some inner =>
          obtain ⟨type, complex, has⟩ := Option.bind_eq_some_iff.mp wraps
          have next : source.index.scalarBase? name = some inner.base := by
            simp [Index.scalarBase?, simple, complex, has]
          exact absurd ⟨notBuiltin, kept, next⟩ (lowest inner.base)
        | none => rfl

/-- A name that rests on another one is derived from its scalar, and fails where that one does. -/
theorem namedWithin_above (new : state.find? name = none)
    (rests : RestsOn source.index source.settings name base) :
    namedWithin source (steps + 1) name state =
      match namedWithin source steps base state with
      | (.ok repr, later) => keep name (source.above name repr, later)
      | failed => failed := by
  rw [namedWithin, new, rests.kept]
  simp only [rests.notBuiltin, Bool.false_eq_true, if_false]
  -- The base is that of a restriction, or else of the simple content of a complex type.
  have next := rests.base
  cases simple : source.index.simpleType? name with
  | some type =>
    rw [Index.scalarBase?, simple] at next
    obtain rfl := Option.some.inj next
    dsimp only
    rcases namedWithin source steps type.base state with ⟨failure | repr, later⟩
    · rfl
    · simp [Source.above, simple]
  | none =>
    simp only [Index.scalarBase?, simple] at next
    obtain ⟨type, complex, next⟩ := Option.bind_eq_some_iff.mp next
    obtain ⟨inner, has, next⟩ := Option.bind_eq_some_iff.mp next
    obtain rfl := Option.some.inj next
    simp only [complex, Option.bind_some, has]
    rcases namedWithin source steps inner.base state with ⟨failure | repr, later⟩
    · rfl
    · simp [Source.above, simple]

/-! ## Derivations without memory -/

/-- What is derived for a name without any memory, over a number of bases. -/
inductive Derives (source : Source) : Nat → String → Result ScalarRepr → Prop
  | bottom {name : String}
      (lowest : ∀ base, ¬RestsOn source.index source.settings name base) :
      Derives source 0 name (source.bottom name)
  | above {bases : Nat} {name base : String} {outcome : Result ScalarRepr}
      (rests : RestsOn source.index source.settings name base)
      (below : Derives source bases base outcome) :
      Derives source (bases + 1) name (outcome >>= source.above name)

variable {bases : Nat} {outcome : Result ScalarRepr}

theorem Derives.unique {others : Nat} {also : Result ScalarRepr}
    (first : Derives source bases name outcome) (second : Derives source others name also) :
    bases = others ∧ outcome = also := by
  induction first generalizing others also with
  | bottom lowest =>
    cases second with
    | bottom => exact ⟨rfl, rfl⟩
    | above rests => exact absurd rests (lowest _)
  | above rests _ ih =>
    cases second with
    | bottom lowest => exact absurd rests (lowest _)
    | above otherRests below =>
      obtain rfl := rests.unique otherRests
      obtain ⟨rfl, rfl⟩ := ih below
      exact ⟨rfl, rfl⟩

theorem Derives.of_restsOn (derives : Derives source bases name outcome)
    (rests : RestsOn source.index source.settings name base) :
    ∃ fewer < bases, ∃ below, Derives source fewer base below := by
  cases derives with
  | bottom lowest => exact absurd rests (lowest base)
  | above otherRests below =>
    obtain rfl := rests.unique otherRests
    exact ⟨_, Nat.lt_succ_self _, _, below⟩

/-- Whatever a name leads to is derived over fewer bases. -/
theorem Derives.of_transGen {low : String} (derives : Derives source bases name outcome)
    (leads : TransGen (RestsOn source.index source.settings) name low) :
    ∃ fewer < bases, ∃ below, Derives source fewer low below := by
  induction leads with
  | single rests => exact derives.of_restsOn rests
  | tail _ rests ih =>
    obtain ⟨fewer, less, _, below⟩ := ih
    obtain ⟨fewest, least, lowest⟩ := below.of_restsOn rests
    exact ⟨fewest, Nat.lt_trans least less, lowest⟩

theorem Derives.not_cyclic (derives : Derives source bases name outcome) :
    ¬TransGen (RestsOn source.index source.settings) name name := by
  intro cycle
  obtain ⟨fewer, less, _, again⟩ := derives.of_transGen cycle
  exact absurd (derives.unique again).1 (Nat.ne_of_gt less)

/-- A name that is derived rests on another one. -/
def LeadsDown (source : Source) (name base : String) : Prop :=
  RestsOn source.index source.settings name base ∧
    ∃ bases outcome, Derives source bases name outcome

theorem not_leadsDown_cyclic : ¬TransGen (LeadsDown source) name name := by
  intro cycle
  obtain ⟨_, ⟨_, _, _, derives⟩, _⟩ := TransGen.head'_iff.mp cycle
  exact derives.not_cyclic (cycle.lift id fun _ _ => And.left)

/-- The bases of a name that is derived are all different, so that the way down is not cut off. -/
theorem Derives.lt_wayDown (derives : Derives source bases name outcome) :
    bases < wayDown source.index := by
  -- Names that are never derived have no place in the ranking, so that there may be cycles of them.
  obtain ⟨rank, down, bound, _⟩ := exists_rank
    (fun _ _ (leads : LeadsDown source _ _) => Index.mem_scalarBases leads.1.base)
    fun _ _ => not_leadsDown_cyclic
  have below : bases ≤ rank name := by
    induction derives with
    | bottom => exact Nat.zero_le _
    | above rests below ih =>
      exact Nat.lt_of_le_of_lt ih (down _ _ ⟨rests, _, _, .above rests below⟩)
  calc bases
      ≤ rank name := below
    _ ≤ source.index.scalarBases.length := bound name
    _ ≤ source.index.simpleTypes.length + source.index.complexTypes.length :=
      Index.length_scalarBases_le
    _ < wayDown source.index := Nat.lt_add_of_pos_right (by decide)

/-- Where no base leads back to itself, something is derived for every name. -/
theorem exists_derives
    (noCycle : ∀ name, ¬TransGen (RestsOn source.index source.settings) name name) (name : String) :
    ∃ bases outcome, Derives source bases name outcome := by
  obtain ⟨rank, down, _⟩ := exists_rank
    (fun _ _ rests => Index.mem_scalarBases (RestsOn.base rests)) fun name _ => noCycle name
  induction ranked : rank name using Nat.strongRecOn generalizing name with
  | ind height ih =>
    by_cases rests : ∃ base, RestsOn source.index source.settings name base
    · obtain ⟨base, rests⟩ := rests
      obtain ⟨bases, outcome, below⟩ := ih (rank base) (ranked ▸ down name base rests) base rfl
      exact ⟨bases + 1, _, .above rests below⟩
    · exact ⟨0, _, .bottom (not_exists.mp rests)⟩

/-! ## Unmapped types -/

/-- The way of a name ends at a built-in type without a scalar. -/
def EndsUnmapped (source : Source) (name low : String) : Prop :=
  Unmapped source.settings low ∧ ReflTransGen (RestsOn source.index source.settings) name low

theorem endsUnmapped_bottom {low : String}
    (lowest : ∀ base, ¬RestsOn source.index source.settings name base) :
    EndsUnmapped source name low ↔ Unmapped source.settings name ∧ low = name := by
  constructor
  · rintro ⟨unmapped, leads⟩
    rcases ReflTransGen.cases_head leads with rfl | ⟨base, rests, _⟩
    · exact ⟨unmapped, rfl⟩
    · exact absurd rests (lowest base)
  · rintro ⟨unmapped, rfl⟩
    exact ⟨unmapped, .refl⟩

theorem endsUnmapped_above {low : String}
    (rests : RestsOn source.index source.settings name base) :
    EndsUnmapped source name low ↔ EndsUnmapped source base low := by
  refine and_congr_right fun unmapped => ⟨fun leads => ?_, fun leads => .head rests leads⟩
  rcases ReflTransGen.cases_head leads with rfl | ⟨other, otherRests, leads⟩
  · exact absurd rests unmapped.not_restsOn
  · rwa [rests.unique otherRests]

/-- A way that ends at an unmapped type comes to an end. -/
theorem EndsUnmapped.derives {low : String} (ends_ : EndsUnmapped source name low) :
    ∃ bases outcome, Derives source bases name outcome := by
  obtain ⟨unmapped, leads⟩ := ends_
  induction leads using ReflTransGen.head_induction_on with
  | refl => exact ⟨0, _, .bottom fun _ => unmapped.not_restsOn⟩
  | head rests _ ih =>
    obtain ⟨bases, outcome, below⟩ := ih
    exact ⟨bases + 1, _, .above rests below⟩

/-! ## What a state tells -/

@[simp] theorem State.find?_remember {other : String} {repr : ScalarRepr} :
    (state.remember name repr).find? other =
      if name = other then some repr else state.find? other := by
  unfold State.find? State.remember
  by_cases same : name = other <;> simp [same]

/-- What is remembered was derived without memory, and the notices are those of some unmapped types,
one for each. They are just the types at which the remembered names end. -/
structure Tells (source : Source) (state : State) (names : List String) : Prop where
  honest : ∀ name repr, state.find? name = some repr → ∃ bases, Derives source bases name (.ok repr)
  notices : state.diagnostics = names.map unknownBuiltin
  nodup : names.Nodup
  known : ∀ name ∈ names, (state.find? name).isSome = true
  told : ∀ name low, (state.find? name).isSome = true → EndsUnmapped source name low → low ∈ names

theorem tells_empty : Tells source .empty [] where
  honest := fun _ _ found => by cases found
  notices := rfl
  nodup := .nil
  known := nofun
  told := fun _ _ found => by cases found

variable {names : List String}

/-- A name is remembered, and with it the notices that are due if it is its own end. -/
theorem Tells.grow (tells : Tells source state names) {more : List String} {repr : ScalarRepr}
    (derives : Derives source bases name (.ok repr)) (nodup : (names ++ more).Nodup)
    (own : ∀ low ∈ more, low = name)
    (told : ∀ low, EndsUnmapped source name low → low ∈ names ++ more) :
    Tells source (State.remember
      { state with diagnostics := state.diagnostics ++ more.map unknownBuiltin } name repr)
      (names ++ more) := by
  -- What is new in the state belongs to the name; everything else was there before.
  constructor
  case honest =>
    intro other otherRepr found
    rw [State.find?_remember] at found
    split at found
    next same =>
      cases found
      exact same ▸ ⟨bases, derives⟩
    next => exact tells.honest other otherRepr found
  case notices => simp [State.remember, tells.notices]
  case nodup => exact nodup
  case known =>
    intro low member
    rw [State.find?_remember]
    split
    · rfl
    next different =>
      rcases List.mem_append.mp member with old | new
      · exact tells.known low old
      · exact absurd (own low new).symm different
  case told =>
    intro other low found ends_
    rw [State.find?_remember] at found
    split at found
    next same => exact told low (same ▸ ends_)
    next => exact List.mem_append_left _ (tells.told other low found ends_)

theorem Tells.remember (tells : Tells source state names) {repr : ScalarRepr}
    (derives : Derives source bases name (.ok repr))
    (told : ∀ low, EndsUnmapped source name low → low ∈ names) :
    Tells source (state.remember name repr) names := by
  rw [← List.append_nil names] at told
  have grown := tells.grow derives (by simpa using tells.nodup) (by simp) told
  simpa using grown

/-- The notice about a type that was not known, and is known from now on. -/
theorem Tells.notify (tells : Tells source state names) (new : state.find? name = none)
    (unmapped : Unmapped source.settings name) :
    Tells source (State.remember { state with
      diagnostics := state.diagnostics ++ [unknownBuiltin name] } name (.ofKind .text))
      (names ++ [name]) := by
  have lowest (base : String) : ¬RestsOn source.index source.settings name base :=
    unmapped.not_restsOn
  have fresh : name ∉ names := by
    intro member
    have known := tells.known name member
    rw [new] at known
    cases known
  have nodup : (names ++ [name]).Nodup := List.concat_eq_append ▸ tells.nodup.concat fresh
  have derives : Derives source 0 name (.ok (.ofKind .text)) :=
    unmapped.bottom ▸ .bottom lowest
  refine tells.grow derives nodup (fun low => List.mem_singleton.mp) fun low ends_ => ?_
  obtain ⟨_, rfl⟩ := (endsUnmapped_bottom lowest).mp ends_
  exact List.mem_append_right _ (List.mem_singleton_self _)

/-! ## One derivation -/

/-- A derivation gives the outcome, and tells of the unmapped type at which the name ends. -/
def Follows (source : Source) (names : List String) (name : String) (outcome : Result ScalarRepr)
    (derivation : Derivation) : Prop :=
  derivation.1 = outcome ∧ ∃ later, Tells source derivation.2 later ∧
    ∀ low, low ∈ later ↔ low ∈ names ∨ EndsUnmapped source name low

/-- What was told already is told still. -/
theorem Tells.follows (tells : Tells source state names)
    (told : ∀ low, EndsUnmapped source name low → low ∈ names) :
    Follows source names name outcome (outcome, state) := by
  refine ⟨rfl, names, tells, fun low => ?_⟩
  rw [or_iff_left_of_imp (told low)]

theorem Tells.follows_keep (tells : Tells source state names)
    (derives : Derives source bases name outcome)
    (told : ∀ low, EndsUnmapped source name low → low ∈ names) :
    Follows source names name outcome (keep name (outcome, state)) := by
  cases outcome with
  | error failure => exact tells.follows told
  | ok repr => exact (tells.remember derives told).follows told

theorem Tells.follows_known (tells : Tells source state names) {repr : ScalarRepr}
    (found : state.find? name = some repr) (derives : Derives source bases name outcome) :
    Follows source names name outcome (.ok repr, state) := by
  obtain ⟨others, known⟩ := tells.honest name repr found
  obtain ⟨-, rfl⟩ := derives.unique known
  exact tells.follows fun low ends_ => tells.told name low (by rw [found]; rfl) ends_

theorem Tells.follows_bottom (tells : Tells source state names) (new : state.find? name = none)
    (lowest : ∀ base, ¬RestsOn source.index source.settings name base) :
    Follows source names name (source.bottom name)
      (namedWithin source (steps + 1) name state) := by
  by_cases unmapped : Unmapped source.settings name
  · rw [namedWithin_unmapped new unmapped, unmapped.bottom]
    refine ⟨rfl, names ++ [name], tells.notify new unmapped, fun low => ?_⟩
    rw [endsUnmapped_bottom lowest, List.mem_append, List.mem_singleton, and_iff_right unmapped]
  · rw [namedWithin_bottom new lowest unmapped]
    apply tells.follows_keep (.bottom lowest)
    intro low ends_
    exact absurd ((endsUnmapped_bottom lowest).mp ends_).1 unmapped

theorem Follows.above {repr : ScalarRepr} {later : State}
    (rests : RestsOn source.index source.settings name base)
    (derives : Derives source bases base (.ok repr))
    (follows : Follows source names base (.ok repr) (.ok repr, later)) :
    Follows source names name (source.above name repr)
      (keep name (source.above name repr, later)) := by
  obtain ⟨-, more, tells, same⟩ := follows
  have reached (low : String) : EndsUnmapped source name low → low ∈ more := fun ends_ =>
    (same low).mpr (.inr ((endsUnmapped_above rests).mp ends_))
  obtain ⟨given, last, tells, members⟩ := tells.follows_keep (.above rests derives) reached
  refine ⟨given, last, tells, fun low => ?_⟩
  rw [members, same, or_assoc, endsUnmapped_above rests, or_self]

/-- With enough steps the memory changes nothing about what is derived. -/
theorem namedWithin_follows (derives : Derives source bases name outcome) (enough : bases < steps)
    (tells : Tells source state names) :
    Follows source names name outcome (namedWithin source steps name state) := by
  -- What is remembered of a name is right at once; otherwise its base is derived first.
  induction derives generalizing steps with
  | @bottom name lowest =>
    obtain ⟨left, rfl⟩ := Nat.exists_eq_add_one.mpr enough
    cases found : state.find? name with
    | some repr =>
      rw [namedWithin_known found]
      exact tells.follows_known found (.bottom lowest)
    | none => exact tells.follows_bottom found lowest
  | @above bases name base outcome rests below ih =>
    obtain ⟨left, rfl⟩ := Nat.exists_eq_add_one.mpr (Nat.zero_lt_of_lt enough)
    cases found : state.find? name with
    | some repr =>
      rw [namedWithin_known found]
      exact tells.follows_known found (.above rests below)
    | none =>
      rw [namedWithin_above found rests]
      have follows := ih (Nat.lt_of_succ_lt_succ enough)
      rcases derived : namedWithin source left base state with ⟨failure | repr, later⟩
      · -- The failure of a base is that of the name.
        rw [derived] at follows
        obtain ⟨rfl, more, told, same⟩ := follows
        refine ⟨rfl, more, told, fun low => ?_⟩
        rw [same, endsUnmapped_above rests]
      · rw [derived] at follows
        obtain rfl := follows.1
        exact follows.above rests below

/-- A way without end is cut off at the same name every time, and leaves no trace. -/
theorem namedWithin_endless (endless : ∀ bases outcome, ¬Derives source bases name outcome) :
    ∃ failure, ∀ state names, Tells source state names →
      namedWithin source steps name state = (.error failure, state) := by
  induction steps generalizing name with
  | zero => exact ⟨_, fun _ _ _ => rfl⟩
  | succ steps ih =>
    have rests : ∃ base, RestsOn source.index source.settings name base := by
      by_contra lowest
      exact endless 0 _ (.bottom (not_exists.mp lowest))
    obtain ⟨base, rests⟩ := rests
    obtain ⟨failure, cut⟩ := ih fun bases outcome below => endless _ _ (.above rests below)
    refine ⟨failure, fun state names tells => ?_⟩
    -- Were it remembered, it would have been derived.
    have new : state.find? name = none := by
      rw [Option.eq_none_iff_forall_ne_some]
      intro repr found
      obtain ⟨bases, derives⟩ := tells.honest name repr found
      exact endless bases _ derives
    rw [namedWithin_above new rests, cut state names tells]

/-! ## Sequences of requests -/

/-- What a deriver is asked for: the scalar of a named type, or of one that stands where it is
used. -/
inductive Request where
  | byName (name : String)
  | inPlace (type : SimpleType)

namespace Request

/-- The name that is derived first. -/
def start : Request → String
  | .byName name => name
  | .inPlace type => type.base

/-- The outcome of a request, given the scalar of the name that is derived first. -/
def finish (source : Source) : Request → ScalarRepr → Result ScalarRepr
  | .byName _, repr => .ok repr
  | .inPlace type, repr => restrict source type repr

def answer (source : Source) : Request → State → Derivation
  | .byName name => named source name
  | .inPlace type => inline source type

end Request

/-- The outcomes of requests, one after the other, and the state after them. -/
def answers (source : Source) : List Request → State → List (Result ScalarRepr) × State
  | [], state => ([], state)
  | request :: rest, state =>
    let (outcome, state) := request.answer source state
    let (outcomes, state) := answers source rest state
    (outcome :: outcomes, state)

theorem Request.answer_eq (request : Request) (state : State) :
    request.answer source state =
      ((named source request.start state).1 >>= request.finish source,
        (named source request.start state).2) := by
  cases request with
  | byName name =>
    rcases derived : named source name state with ⟨failure | repr, later⟩
    · simp [answer, start, derived, bind, Except.bind]
    · simp [answer, start, finish, derived]
  | inPlace type =>
    rcases derived : named source type.base state with ⟨failure | repr, later⟩
    · simp [answer, start, inline, derived, bind, Except.bind]
    · simp [answer, start, finish, inline, derived]

theorem named_fresh (tells : Tells source state names) (name : String) :
    Follows source names name (named source name .empty).1 (named source name state) := by
  -- A way that ends is short enough; one that does not is cut off with and without memory.
  by_cases derives : ∃ bases outcome, Derives source bases name outcome
  · obtain ⟨bases, outcome, derives⟩ := derives
    have fresh := namedWithin_follows derives derives.lt_wayDown tells_empty
    rw [named, named, fresh.1]
    exact namedWithin_follows derives derives.lt_wayDown tells
  · have endless : ∀ bases outcome, ¬Derives source bases name outcome :=
      fun bases outcome given => derives ⟨bases, outcome, given⟩
    obtain ⟨failure, cut⟩ := @namedWithin_endless source name (wayDown source.index) endless
    rw [named, named, cut _ _ tells_empty, cut _ _ tells]
    exact tells.follows fun low ends_ => absurd ends_.derives derives

/-- One request is answered as the first one is. -/
theorem Request.answer_fresh (tells : Tells source state names) (request : Request) :
    (request.answer source state).1 = (request.answer source .empty).1 ∧
      ∃ later, Tells source (request.answer source state).2 later ∧
        ∀ low, low ∈ later ↔ low ∈ names ∨ EndsUnmapped source request.start low := by
  obtain ⟨same, told⟩ := named_fresh tells request.start
  rw [answer_eq, answer_eq, same]
  exact ⟨rfl, told⟩

theorem answers_told (tells : Tells source state names) (requests : List Request) :
    (answers source requests state).1 =
        requests.map (fun request => (request.answer source .empty).1) ∧
      ∃ later, Tells source (answers source requests state).2 later ∧
        ∀ low, low ∈ later ↔ low ∈ names ∨
          ∃ request ∈ requests, EndsUnmapped source request.start low := by
  induction requests generalizing state names with
  | nil => exact ⟨rfl, names, tells, fun low => by simp⟩
  | cons request rest ih =>
    obtain ⟨first, names, tells, told⟩ := request.answer_fresh tells
    obtain ⟨others, last, tells, toldRest⟩ := ih tells
    refine ⟨congrArg₂ List.cons first others, last, tells, fun low => ?_⟩
    rw [toldRest, told, or_assoc, List.exists_mem_cons_iff]

/-- Each of the requests to one deriver is answered as if it were the first one. There is one notice
for every unmapped type at which one of them ends, whether it fails or not. And if no base leads
back to itself, then the answers are what is derived without memory, so that none is cut off. -/
theorem answers_fresh (source : Source) (requests : List Request) :
    (answers source requests .empty).1 =
        requests.map (fun request => (request.answer source .empty).1) ∧
      (∃ names : List String, names.Nodup ∧
        (answers source requests .empty).2.diagnostics = names.map unknownBuiltin ∧
        ∀ name, name ∈ names ↔ Unmapped source.settings name ∧ ∃ request ∈ requests,
          ReflTransGen (RestsOn source.index source.settings) request.start name) ∧
      ((∀ name, ¬TransGen (RestsOn source.index source.settings) name name) →
        ∀ request ∈ requests, ∃ bases outcome, Derives source bases request.start outcome ∧
          (request.answer source .empty).1 = outcome >>= request.finish source) := by
  obtain ⟨same, names, tells, told⟩ := answers_told (tells_empty : Tells source _ _) requests
  refine ⟨same, ⟨names, tells.nodup, tells.notices, fun name => ?_⟩, fun noCycle request _ => ?_⟩
  · rw [told, or_iff_right List.not_mem_nil]
    constructor
    · rintro ⟨request, asked, unmapped, leads⟩
      exact ⟨unmapped, request, asked, leads⟩
    · rintro ⟨unmapped, request, asked, leads⟩
      exact ⟨request, asked, unmapped, leads⟩
  · obtain ⟨bases, outcome, derives⟩ := exists_derives noCycle request.start
    have follows := namedWithin_follows derives derives.lt_wayDown tells_empty
    refine ⟨bases, outcome, derives, ?_⟩
    rw [Request.answer_eq, named, follows.1]

/-- Spans of time may be longer than any column. -/
def spanType : SimpleType :=
  ⟨some "Span", none, "xs:duration", { Schema.Facets.none with maxLength := some Decimal.maxCount }⟩

def spanSource : Source where
  index := { (default : Index) with simpleTypes := [("Span", spanType)] }
  settings := { Settings.standard with
    compiler := { CompilerSettings.standard with maxLengthFactor := 2 } }

/-- A span fails, then a duration does not, and then a span fails again. -/
def spanRequests : List Request := [.byName "Span", .byName "xs:duration", .inPlace spanType]

theorem answers_fresh_of_spans :
    (∀ name, ¬TransGen (RestsOn spanSource.index spanSource.settings) name name) ∧
      (answers spanSource spanRequests .empty).1.map (·.toOption.isSome) = [false, true, false] ∧
      (answers spanSource spanRequests .empty).2.diagnostics = [unknownBuiltin "xs:duration"] ∧
      ∀ request ∈ spanRequests, ∃ bases outcome, Derives spanSource bases request.start outcome ∧
        (request.answer spanSource .empty).1 = outcome >>= request.finish spanSource := by
  have noCycle : ∀ name, ¬TransGen (RestsOn spanSource.index spanSource.settings) name name := by
    intro name cycle
    obtain ⟨_, rests, _⟩ := TransGen.head'_iff.mp cycle
    obtain ⟨_, _, last⟩ := TransGen.tail'_iff.mp cycle
    -- The only base is built in, and so rests on nothing.
    obtain rfl : name = "xs:duration" := List.mem_singleton.mp (Index.mem_scalarBases last.base)
    exact absurd rests.notBuiltin (by decide +kernel)
  obtain ⟨_, _, derived⟩ := answers_fresh spanSource spanRequests
  exact ⟨noCycle, by decide +kernel, by decide +kernel, derived noCycle⟩

end EntityGraph.Scalar
