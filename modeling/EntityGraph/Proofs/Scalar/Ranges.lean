import EntityGraph.Proofs.Calendar.Order
import EntityGraph.Proofs.Decimal.Numerals
import EntityGraph.Proofs.Lists
import EntityGraph.Proofs.Scalar.Memory

/-!
# Ranges of scalars

A chain of restrictions bounds the values of a built-in type at each of its steps. The scalar that
is derived for it lets an integer or a day through if and only if every step does: a bound that
excludes its own value becomes the neighbour of that value, and bounds of earlier steps are kept. A
step fails only for a bound that names no value, or excludes the last value of its side.

Decimals are kept as they are written, after the test of a double: so a text is taken as a default
value or as a bound of a decimal if it is a decimal number, but also if it has an exponent, or names
infinity or what is no number.
-/
namespace EntityGraph

namespace Literal

/-- The order of integers, and that of days. -/
def Before : Literal → Literal → Prop
  | integer value, integer other => value < other
  | date value, date other => value < other
  | _, _ => False

/-- Integers have to fit a 64-bit word; days are in range by their type. -/
def InRange : Literal → Prop
  | integer value => Decimal.isSigned value = true
  | _ => True

end Literal

/-- A value is on the inner side of a limit, or the limit itself, unless that is excluded. -/
def Scalar.End.Admits (side : End) (exclusive : Bool) (limit value : Literal) : Prop :=
  exclusive = false ∧ value = limit ∨
    match side with
    | .lower => limit.Before value
    | .upper => value.Before limit

/-- A validator lets a value through, as far as it checks a range. -/
def Validator.Admits (value : Literal) : Validator → Prop
  | minValue limit exclusive => Scalar.End.lower.Admits exclusive limit value
  | maxValue limit exclusive => Scalar.End.upper.Admits exclusive limit value
  | minLength _ | regex _ => True

namespace Scalar

open Schema (Facets SimpleType)

/-- A facet that bounds the values of a type at one end. -/
structure RangeFacet where
  side : End
  exclusive : Bool
  text : String

def rangeFacets (facets : Facets) : List RangeFacet :=
  facets.minInclusive.toList.map (⟨.lower, false, ·⟩) ++
    facets.minExclusive.toList.map (⟨.lower, true, ·⟩) ++
    facets.maxInclusive.toList.map (⟨.upper, false, ·⟩) ++
    facets.maxExclusive.toList.map (⟨.upper, true, ·⟩)

namespace RangeFacet

/-- The integer or the day that a facet names. -/
def limit? (type : LiteralType) (facet : RangeFacet) : Option Literal :=
  match type with
  | .integer => (Decimal.parseInteger? (Text.trim facet.text)).map .integer
  | .date => (Date.parse? .strict (firstTen (Text.trim facet.text))).map .date
  | _ => none

def Admits (type : LiteralType) (facet : RangeFacet) (value : Literal) : Prop :=
  ∃ limit, facet.limit? type = some limit ∧ facet.side.Admits facet.exclusive limit value

/-- A facet names no value, or excludes one beyond which there is no other. -/
def Fails (type : LiteralType) (facet : RangeFacet) : Prop :=
  facet.limit? type = none ∨ facet.exclusive = true ∧ ∃ limit, facet.limit? type = some limit ∧
    ∀ value : Literal, value.type = type → value.InRange → ¬facet.side.Admits true limit value

end RangeFacet

/-! ## Neighbours -/

/-- The value next to a limit, on its inner side. -/
def End.step? (side : End) : Literal → Option Literal
  | .integer value => (stepInteger? side value).map .integer
  | .date value => (stepDate? side value).map .date
  | _ => none

variable {side : End} {limit value : Literal}

/-- The integer next to another one, on the inner side. -/
def End.neighbour (side : End) (value : Int) : Int :=
  match side with
  | .lower => value + 1
  | .upper => value - 1

theorem stepInteger?_eq (side : End) (value : Int) : stepInteger? side value =
    if Decimal.isSigned (side.neighbour value) then some (side.neighbour value) else none := by
  cases side <;> rfl

theorem isSigned_iff {value : Int} :
    Decimal.isSigned value = true ↔ Decimal.minSigned ≤ value ∧ value ≤ Decimal.maxSigned := by
  simp [Decimal.isSigned]

theorem le_step_iff {day next other : Date} (found : stepDate? .lower day = some next) :
    next ≤ other ↔ day < other :=
  (Date.succeeds_of_next? found).covBy.lt_iff_le_right.symm

theorem step_le_iff {day previous other : Date} (found : stepDate? .upper day = some previous) :
    other ≤ previous ↔ other < day :=
  (Date.succeeds_of_previous? found).covBy.lt_iff_le_left.symm

/-- To exclude a limit is to start from its neighbour. -/
theorem admits_step {next : Literal} (found : side.step? limit = some next) :
    side.Admits false next value ↔ side.Admits true limit value := by
  cases limit with
  | integer limit =>
    obtain ⟨stepped, step, rfl⟩ := Option.map_eq_some_iff.mp found
    rw [stepInteger?_eq, Option.ite_none_right_eq_some, Option.some.injEq] at step
    obtain ⟨-, rfl⟩ := step
    cases value with
    | integer value =>
      cases side <;> simp only [End.Admits, End.neighbour, Literal.Before, Literal.integer.injEq,
        true_and, Bool.true_eq_false, false_and, false_or] <;> omega
    | _ => cases side <;> simp [End.Admits, Literal.Before]
  | date limit =>
    obtain ⟨stepped, step, rfl⟩ := Option.map_eq_some_iff.mp found
    cases value with
    | date value =>
      cases side with
      | lower => simp [End.Admits, Literal.Before, ← le_step_iff step, le_iff_eq_or_lt, eq_comm]
      | upper => simp [End.Admits, Literal.Before, ← step_le_iff step, le_iff_eq_or_lt]
    | _ => cases side <;> simp [End.Admits, Literal.Before]
  | _ => cases found

theorem step?_type {next : Literal} (found : side.step? limit = some next) :
    next.type = limit.type ∧ next.InRange := by
  cases limit with
  | integer limit =>
    obtain ⟨stepped, step, rfl⟩ := Option.map_eq_some_iff.mp found
    rw [stepInteger?_eq, Option.ite_none_right_eq_some, Option.some.injEq] at step
    obtain ⟨inRange, rfl⟩ := step
    exact ⟨rfl, inRange⟩
  | date limit =>
    obtain ⟨stepped, _, rfl⟩ := Option.map_eq_some_iff.mp found
    exact ⟨rfl, trivial⟩
  | _ => cases found

/-- Nothing in range is beyond a limit that has no neighbour. -/
theorem not_admits_of_step (limitInRange : limit.InRange) (none : side.step? limit = none)
    (ordered : limit.type = .integer ∨ limit.type = .date) (valueInRange : value.InRange) :
    ¬side.Admits true limit value := by
  cases limit with
  | integer limit =>
    have noStep := Option.map_eq_none_iff.mp none
    simp only [stepInteger?_eq, ite_eq_right_iff, reduceCtorEq, imp_false, isSigned_iff] at noStep
    cases value with
    | integer value =>
      simp only [Literal.InRange, isSigned_iff] at limitInRange valueInRange
      cases side <;> simp [End.Admits, End.neighbour, Literal.Before] at noStep ⊢ <;> omega
    | _ => cases side <;> simp [End.Admits, Literal.Before]
  | date limit =>
    have noStep := Option.map_eq_none_iff.mp none
    cases value with
    | date value =>
      cases side with
      | lower => simpa [End.Admits, Literal.Before] using (Date.isMax_of_next? noStep).isTop value
      | upper =>
        simpa [End.Admits, Literal.Before] using (Date.isMin_of_previous? noStep).isBot value
    | _ => cases side <;> simp [End.Admits, Literal.Before]
  | _ => simp [Literal.type] at ordered

/-! ## Bounds -/

/-- The kinds whose ranges are of integers or of days. -/
def IsOrdered (type : LiteralType) : Prop := type = .integer ∨ type = .date

variable {type : LiteralType} {kind : ScalarKind} {facet : RangeFacet}

theorem boundType_eq_of_isOrdered (ordered : IsOrdered kind.defaultType) :
    kind.boundType = kind.defaultType := by
  cases kind <;> first | rfl | simp [IsOrdered, ScalarKind.defaultType] at ordered

theorem limit?_type (named : facet.limit? type = some limit) :
    limit.type = type ∧ limit.InRange := by
  unfold RangeFacet.limit? at named
  split at named
  · obtain ⟨value, read, rfl⟩ := Option.map_eq_some_iff.mp named
    exact ⟨rfl, (Option.filter_eq_some_iff.mp read).2⟩
  · obtain ⟨value, _, rfl⟩ := Option.map_eq_some_iff.mp named
    exact ⟨rfl, trivial⟩
  · cases named

/-- The inclusive limit of the same range: the one that is named, or its neighbour. -/
def RangeFacet.inclusive? (type : LiteralType) (facet : RangeFacet) : Option Literal :=
  (facet.limit? type).bind fun limit =>
    if facet.exclusive then facet.side.step? limit else some limit

theorem boundLiteral?_eq (ordered : IsOrdered type) (stored : kind.boundType = type)
    (facet : RangeFacet) :
    boundLiteral? kind facet.side facet.exclusive (Text.trim facet.text) =
      (facet.inclusive? type).map (·, false) := by
  rcases ordered with rfl | rfl
  · have whole : kind.isInteger = true := by
      cases kind <;> first | rfl | cases stored
    unfold boundLiteral? RangeFacet.inclusive? RangeFacet.limit?
    rw [if_pos whole]
    cases Decimal.parseInteger? (Text.trim facet.text) with
    | none => rfl
    | some value =>
      cases facet.exclusive with
      | false => rfl
      | true => cases step : stepInteger? facet.side value <;> simp [End.step?, step]
  · obtain rfl : kind = .date := by
      cases kind <;> first | rfl | cases stored
    unfold boundLiteral? RangeFacet.inclusive? RangeFacet.limit?
    simp only [ScalarKind.isInteger, Bool.false_eq_true, if_false]
    cases Date.parse? .strict (firstTen (Text.trim facet.text)) with
    | none => rfl
    | some value =>
      cases facet.exclusive with
      | false => rfl
      | true => cases step : stepDate? facet.side value <;> simp [End.step?, step]

/-- A facet fails if there is no such limit. -/
theorem fails_iff (ordered : IsOrdered type) :
    facet.Fails type ↔ facet.inclusive? type = none := by
  unfold RangeFacet.Fails RangeFacet.inclusive?
  cases named : facet.limit? type with
  | none => simp
  | some limit =>
    obtain ⟨rfl, inRange⟩ := limit?_type named
    cases facet.exclusive with
    | false => simp
    | true =>
      have beyond : (∀ value : Literal, value.type = limit.type → value.InRange →
          ¬facet.side.Admits true limit value) ↔ facet.side.step? limit = none := by
        refine ⟨fun noValue => ?_, fun noStep value _ valueInRange =>
          not_admits_of_step inRange noStep ordered valueInRange⟩
        -- If there is a neighbour, it is a value beyond the limit.
        rw [Option.eq_none_iff_forall_ne_some]
        intro next step
        obtain ⟨sameType, nextInRange⟩ := step?_type step
        exact noValue next sameType nextInRange ((admits_step step).mp (.inl ⟨rfl, rfl⟩))
      simpa using beyond

/-- Such a limit lets through what the facet does. -/
theorem admits_inclusive (found : facet.inclusive? type = some limit) :
    facet.side.Admits false limit value ↔ facet.Admits type value := by
  obtain ⟨named, has, found⟩ := Option.bind_eq_some_iff.mp found
  have given : facet.Admits type value ↔ facet.side.Admits facet.exclusive named value := by
    simp [RangeFacet.Admits, has]
  rw [given]
  split at found
  next exclusive => rw [exclusive, admits_step found]
  next inclusive =>
    obtain rfl := Option.some.inj found
    rw [Bool.eq_false_iff.mpr inclusive]

/-! ## Steps -/

/-- The validator of a limit that is let through. -/
def End.validator (side : End) (limit : Literal) : Validator :=
  match side with
  | .lower => .minValue limit false
  | .upper => .maxValue limit false

theorem admits_validator : (side.validator limit).Admits value ↔ side.Admits false limit value := by
  cases side <;> rfl

theorem bound_eq (ordered : IsOrdered type) (stored : kind.boundType = type) (facet : RangeFacet)
    (label : String) :
    bound kind facet.text facet.exclusive facet.side label =
      match facet.inclusive? type with
      | some limit => .ok (facet.side.validator limit)
      | none => .error (.invalidDefault label facet.text kind.name) := by
  rw [bound, boundLiteral?_eq ordered stored]
  cases facet.inclusive? type with
  | none => rfl
  | some limit => cases facet.side <;> rfl

/-- The range bounds of a step are those of its facets, one after the other. -/
theorem rangeValidators_eq (kind : ScalarKind) (facets : Facets) (label : String) :
    rangeValidators kind facets label = (rangeFacets facets).mapM fun facet =>
      bound kind facet.text facet.exclusive facet.side label := by
  have one (raw : Option String) (exclusive : Bool) (side : End) :
      (raw.toList.map fun text => RangeFacet.mk side exclusive text).mapM
        (fun facet => bound kind facet.text facet.exclusive facet.side label) =
          boundIfAny kind raw exclusive side label := by
    cases raw with
    | none => rfl
    | some text =>
      simp only [Option.toList_some, List.map_cons, List.map_nil, List.mapM_cons, List.mapM_nil,
        boundIfAny, bind_pure_comp, map_pure]
      rfl
  simp only [rangeFacets, List.mapM_append, one, rangeValidators, bind_assoc, pure_bind]

/-- A step lets a value through if its facets do. -/
def StepAdmits (type : LiteralType) (facets : Facets) (value : Literal) : Prop :=
  ∀ facet ∈ rangeFacets facets, facet.Admits type value

def StepFails (type : LiteralType) (facets : Facets) : Prop :=
  ∃ facet ∈ rangeFacets facets, facet.Fails type

variable {facets : Facets} {label : String}

theorem exists_bound_iff (ordered : IsOrdered type) (stored : kind.boundType = type) :
    (∃ validator, bound kind facet.text facet.exclusive facet.side label = .ok validator) ↔
      ¬facet.Fails type := by
  rw [bound_eq ordered stored, fails_iff ordered]
  cases facet.inclusive? type <;> simp

theorem admits_of_bound (ordered : IsOrdered type) (stored : kind.boundType = type)
    {validator : Validator}
    (bounded : bound kind facet.text facet.exclusive facet.side label = .ok validator) :
    validator.Admits value ↔ facet.Admits type value := by
  rw [bound_eq ordered stored] at bounded
  split at bounded
  next limit found =>
    obtain rfl := Except.ok.inj bounded
    rw [admits_validator, admits_inclusive found]
  next => cases bounded

theorem rangeValidators_admit (ordered : IsOrdered type) (stored : kind.boundType = type)
    {validators : List Validator} (given : rangeValidators kind facets label = .ok validators) :
    (∀ validator ∈ validators, validator.Admits value) ↔ StepAdmits type facets value := by
  rw [rangeValidators_eq] at given
  -- Each facet has its validator, and each validator comes from a facet.
  have pairs := Result.forall₂_of_mapM given
  constructor
  · intro all facet member
    obtain ⟨validator, among, bounded⟩ := Pointwise.exists_right pairs member
    exact (admits_of_bound ordered stored bounded).mp (all validator among)
  · intro all validator member
    obtain ⟨facet, among, bounded⟩ := Pointwise.exists_left pairs member
    exact (admits_of_bound ordered stored bounded).mpr (all facet among)

theorem exists_rangeValidators_iff (ordered : IsOrdered type) (stored : kind.boundType = type) :
    (∃ validators, rangeValidators kind facets label = .ok validators) ↔
      ¬StepFails type facets := by
  rw [rangeValidators_eq]
  constructor
  · rintro ⟨validators, given⟩ ⟨facet, member, fails⟩
    obtain ⟨validator, -, bounded⟩ :=
      Pointwise.exists_right (Result.forall₂_of_mapM given) member
    exact (exists_bound_iff ordered stored).mp ⟨validator, bounded⟩ fails
  · intro sound
    refine Result.exists_mapM_eq_ok fun facet member => ?_
    exact (exists_bound_iff ordered stored).mpr fun fails => sound ⟨facet, member, fails⟩

/-! ## Chains of restrictions -/

/-- The scalar has the storage of the type, and lets through what all the steps do. -/
structure Bounds (type : LiteralType) (steps : List Facets) (repr : ScalarRepr) : Prop where
  stored : repr.kind.boundType = type
  admits : ∀ value : Literal, (∀ validator ∈ repr.validators, validator.Admits value) ↔
    ∀ facets ∈ steps, StepAdmits type facets value

theorem admits_textValidators {kind : ScalarKind} {validator : Validator}
    (member : validator ∈ textValidators kind facets) : validator.Admits value := by
  have unbounded := textValidators_bound? member
  cases validator with
  | minLength | regex => trivial
  | minValue | maxValue => cases unbounded

variable {repr : ScalarRepr} {factor : Nat} {steps : List Facets}

theorem not_isTextual (ordered : IsOrdered type) (stored : kind.boundType = type) :
    kind.isTextual = false := by
  rcases ordered with rfl | rfl
  all_goals cases kind <;> first | rfl | cases stored

/-- A step on top of others bounds the values once more. -/
theorem Bounds.step (ordered : IsOrdered type) (bounds : Bounds type steps repr)
    {restricted : ScalarRepr} (applied : applyFacets repr facets factor label = .ok restricted) :
    Bounds type (steps ++ [facets]) restricted := by
  obtain ⟨ranges, ranged, applied⟩ := Result.bind_eq_ok.mp applied
  obtain ⟨maxLength, _, applied⟩ := Result.bind_eq_ok.mp applied
  obtain rfl := Result.pure_eq_ok.mp applied
  refine ⟨(ScalarKind.boundType_eq_of_defaultType (widenedKind_defaultType _ facets)).trans
    bounds.stored, fun value => ?_⟩
  have here : (∀ validator ∈ ranges, validator.Admits value) ↔ StepAdmits type facets value :=
    rangeValidators_admit ordered bounds.stored ranged
  simp only [List.forall_mem_append, List.forall_mem_singleton, ← bounds.admits value, ← here,
    and_iff_left (fun _ => admits_textValidators)]

/-- A step fails just where one of its bounds does. -/
theorem Bounds.exists_step_iff (ordered : IsOrdered type) (bounds : Bounds type steps repr) :
    (∃ restricted, applyFacets repr facets factor label = .ok restricted) ↔
      ¬StepFails type facets := by
  have length : scaledLength repr facets factor label = .ok repr.maxLength := by
    rw [scaledLength, not_isTextual ordered bounds.stored]
    rfl
  have ranges : (∃ validators, rangeValidators repr.kind facets label = .ok validators) ↔
      ¬StepFails type facets := exists_rangeValidators_iff ordered bounds.stored
  rw [← ranges, applyFacets, length]
  simp [Result.exists_bind_eq_ok]

/-- What is known of a chain of restrictions: the scalar has the ranges of all its steps, and there
is one unless a step fails. -/
structure Exact (type : LiteralType) (steps : List Facets) (outcome : Result ScalarRepr) :
    Prop where
  bounds : ∀ repr, outcome = .ok repr → Bounds type steps repr
  succeeds : (∃ repr, outcome = .ok repr) ↔ ∀ facets ∈ steps, ¬StepFails type facets

variable {source : Source} {outcome : Result ScalarRepr}

theorem exact_ofKind (stored : kind.boundType = type) : Exact type [] (.ok (.ofKind kind)) := by
  refine ⟨?_, by simp⟩
  rintro _ ⟨⟩
  exact ⟨stored, fun value => by simp [ScalarRepr.ofKind]⟩

theorem Bounds.of_same {other : ScalarRepr} (bounds : Bounds type steps repr)
    (kind : other.kind = repr.kind) (validators : other.validators = repr.validators) :
    Bounds type steps other := by
  refine ⟨kind ▸ bounds.stored, ?_⟩
  rw [validators]
  exact bounds.admits

theorem Bounds.exists_restrict_iff (ordered : IsOrdered type) (bounds : Bounds type steps repr)
    (step : SimpleType) :
    (∃ restricted, restrict source step repr = .ok restricted) ↔ ¬StepFails type step.facets :=
  Bounds.exists_step_iff ordered (bounds.of_same rfl rfl)

/-- One more restriction. -/
theorem Exact.restrict (ordered : IsOrdered type) (exact : Exact type steps outcome)
    (step : SimpleType) :
    Exact type (steps ++ [step.facets]) (outcome >>= restrict source step) := by
  constructor
  · intro restricted given
    obtain ⟨repr, reached, applied⟩ := Result.bind_eq_ok.mp given
    have unnamed : Bounds type steps { repr with sourceType := none } :=
      (exact.bounds repr reached).of_same rfl rfl
    exact unnamed.step ordered applied
  · rw [Result.exists_bind_eq_ok, List.forall_mem_append, List.forall_mem_singleton,
      ← exact.succeeds]
    constructor
    · rintro ⟨repr, rfl, given⟩
      exact ⟨⟨repr, rfl⟩, ((exact.bounds repr rfl).exists_restrict_iff ordered step).mp given⟩
    · rintro ⟨⟨repr, rfl⟩, sound⟩
      exact ⟨repr, rfl, ((exact.bounds repr rfl).exists_restrict_iff ordered step).mpr sound⟩

theorem Exact.rename (exact : Exact type steps outcome) (name : String) :
    Exact type steps (outcome.map fun repr => { repr with sourceType := some name }) := by
  constructor
  · intro named given
    cases outcome with
    | error failure => cases given
    | ok repr =>
      cases given
      exact (exact.bounds repr rfl).of_same rfl rfl
  · rw [← exact.succeeds]
    cases outcome <;> simp [Except.map]

/-- The steps by which a name restricts a built-in type that the settings leave alone, from the
built-in type outwards. -/
inductive Restricts (source : Source) (primitive : String) : String → List Facets → Prop
  | builtin (is : Schema.isBuiltin primitive = true)
      (kept : source.settings.typeOverride? primitive = none) :
      Restricts source primitive primitive []
  /-- A simple type is one step. -/
  | step {name : String} {type : SimpleType} {steps : List Facets}
      (rests : RestsOn source.index source.settings name type.base)
      (simple : source.index.simpleType? name = some type)
      (below : Restricts source primitive type.base steps) :
      Restricts source primitive name (steps ++ [type.facets])
  /-- A complex type only wraps the scalar of its simple content. -/
  | wrapped {name base : String} {steps : List Facets}
      (rests : RestsOn source.index source.settings name base)
      (complex : source.index.simpleType? name = none)
      (below : Restricts source primitive base steps) : Restricts source primitive name steps

variable {primitive name : String}

theorem Restricts.exact (ordered : IsOrdered type) (typed : primitiveType primitive = type)
    (chain : Restricts source primitive name steps) :
    ∃ bases outcome, Derives source bases name outcome ∧ Exact type steps outcome := by
  induction chain with
  | builtin is kept =>
    refine ⟨0, _, .bottom fun base rests => ?_, ?_⟩
    · exact absurd (rests.notBuiltin.symm.trans is) Bool.false_ne_true
    · rw [Source.bottom, kept]
      simp only [is, if_true]
      refine exact_ofKind ?_
      rw [← typed] at ordered ⊢
      exact boundType_eq_of_isOrdered ordered
  | @step name restriction steps rests simple _ ih =>
    obtain ⟨bases, outcome, below, exact⟩ := ih
    refine ⟨bases + 1, _, .above rests below, ?_⟩
    have above : outcome >>= source.above name =
        (outcome >>= restrict source restriction).map
          fun repr => { repr with sourceType := some name } := by
      cases outcome <;> simp [Source.above, simple, bind, Except.bind, Except.map]
    rw [above]
    exact (exact.restrict ordered restriction).rename name
  | @wrapped name base steps rests complex _ ih =>
    obtain ⟨bases, outcome, below, exact⟩ := ih
    refine ⟨bases + 1, _, .above rests below, ?_⟩
    have above : outcome >>= source.above name = outcome := by
      cases outcome <;> simp [Source.above, complex, bind, Except.bind]
    rwa [above]

namespace Request

/-- The steps that a request adds to those of the name that is derived first. -/
def ownSteps : Request → List Facets
  | .byName _ => []
  | .inPlace type => [type.facets]

end Request

theorem Exact.finish (ordered : IsOrdered type) (exact : Exact type steps outcome)
    (request : Request) :
    Exact type (steps ++ request.ownSteps) (outcome >>= request.finish source) := by
  cases request with
  | byName name =>
    have same : outcome >>= Request.finish source (.byName name) = outcome := by
      cases outcome <;> rfl
    rw [same, Request.ownSteps, List.append_nil]
    exact exact
  | inPlace step => exact exact.restrict ordered step

/-- Whatever was asked for before, the scalar of a chain of restrictions of an integer or a day lets
through just the values that every step lets through. There is such a scalar unless a step fails,
and a further step on top of it fails just where one of its facets does: a facet that names no
value, or that excludes one beyond which there is no other. -/
theorem ranges_exact {source : Source} {primitive : String} {type : LiteralType}
    {request : Request} {steps : List Facets} (typed : primitiveType primitive = type)
    (ordered : type = .integer ∨ type = .date)
    (chain : Restricts source primitive request.start steps) (earlier : List Request) :
    let answer := (request.answer source (answers source earlier .empty).2).1
    let steps := steps ++ request.ownSteps
    (∀ repr, answer = .ok repr →
      (∀ value : Literal, (∀ validator ∈ repr.validators, validator.Admits value) ↔
        ∀ facets ∈ steps, ∀ facet ∈ rangeFacets facets, facet.Admits type value) ∧
      ∀ step : SimpleType, (∃ failure, restrict source step repr = .error failure) ↔
        ∃ facet ∈ rangeFacets step.facets, facet.Fails type) ∧
    ((∃ repr, answer = .ok repr) ↔
      ∀ facets ∈ steps, ∀ facet ∈ rangeFacets facets, ¬facet.Fails type) := by
  intro answer steps
  obtain ⟨bases, outcome, derives, exact⟩ := chain.exact ordered typed
  obtain ⟨-, later, tells, -⟩ := answers_told (tells_empty : Tells source _ _) earlier
  -- What was asked for before makes no difference.
  have given : answer = outcome >>= request.finish source := by
    rw [← (namedWithin_follows derives derives.lt_wayDown tells).1]
    exact congrArg Prod.fst (request.answer_eq _)
  have exact : Exact type steps (outcome >>= request.finish source) := exact.finish ordered request
  rw [given]
  refine ⟨fun repr reached => ⟨(exact.bounds repr reached).admits, fun step => ?_⟩, ?_⟩
  · have passes : (∃ restricted, restrict source step repr = .ok restricted) ↔
        ¬StepFails type step.facets := (exact.bounds repr reached).exists_restrict_iff ordered step
    rw [← StepFails, ← not_iff_not, ← passes]
    cases restrict source step repr <;> simp
  · simpa only [StepFails, not_exists, not_and] using exact.succeeds

/-- A count of at most six digits, which are too many for a small integer. -/
def countType : SimpleType :=
  ⟨some "Count", none, "xs:short",
    { Facets.none with minExclusive := some "0", totalDigits := some 6 }⟩

def ageType : SimpleType :=
  ⟨some "Age", none, "Count", { Facets.none with maxExclusive := some " 150 " }⟩

/-- An age that counts as that of an adult. -/
def adultType : SimpleType :=
  ⟨none, none, "Age", { Facets.none with minInclusive := some "+18" }⟩

def ageSource : Source where
  index := { (default : Schema.Index) with
    simpleTypes := [("Count", countType), ("Age", ageType)] }
  settings := Settings.standard

theorem ranges_exact_of_ages :
    primitiveType "xs:short" = .integer ∧
      Restricts ageSource "xs:short" "Age" [countType.facets, ageType.facets] ∧
      ∃ repr, ((Request.inPlace adultType).answer ageSource
          (answers ageSource [.byName "Count"] .empty).2).1 = .ok repr ∧
        repr.kind = .integer ∧ repr.validators.length = 3 ∧
        ∀ value : Literal, (∀ validator ∈ repr.validators, validator.Admits value) ↔
          ∀ facets ∈ [countType.facets, ageType.facets, adultType.facets],
            ∀ facet ∈ rangeFacets facets, facet.Admits .integer value := by
  have typed : primitiveType "xs:short" = .integer := by decide
  have short : Restricts ageSource "xs:short" "xs:short" [] :=
    .builtin (by decide +kernel) (by decide +kernel)
  have count : Restricts ageSource "xs:short" "Count" [countType.facets] :=
    @Restricts.step ageSource "xs:short" "Count" countType []
      ⟨by decide +kernel, by decide, by decide⟩ (by decide) short
  have age : Restricts ageSource "xs:short" "Age" [countType.facets, ageType.facets] :=
    @Restricts.step ageSource "xs:short" "Age" ageType [countType.facets]
      ⟨by decide +kernel, by decide, by decide⟩ (by decide) count
  have evaluated : ((Request.inPlace adultType).answer ageSource
      (answers ageSource [.byName "Count"] .empty).2).1.toOption.map
        (fun repr => (repr.kind, repr.validators.length)) = some (.integer, 3) := by
    decide +kernel
  obtain ⟨repr, reached, seen⟩ := Result.exists_ok_of_map evaluated
  obtain ⟨kind, validators⟩ := Prod.mk.inj seen
  obtain ⟨scalar, -⟩ := @ranges_exact ageSource "xs:short" .integer (.inPlace adultType)
    [countType.facets, ageType.facets] typed (.inl rfl) age [.byName "Count"]
  exact ⟨typed, age, repr, reached, kind, validators, (scalar repr reached).1⟩

end Scalar

end EntityGraph

namespace EntityGraph.Scalar

open Decimal (IsDecimal IsDouble)

/-! ## Decimals -/

/-- A bound on a side of a range. -/
def End.limit (side : End) (value : Literal) (exclusive : Bool) : Validator :=
  match side with
  | .lower => .minValue value exclusive
  | .upper => .maxValue value exclusive

theorem decimalLiteral?_eq_some {text : String} {literal : Literal} :
    decimalLiteral? text = some literal ↔ IsDouble text.toList ∧ literal = .decimal text := by
  rw [← Decimal.parse?_isSome, decimalLiteral?, Option.map_eq_some_iff, Option.isSome_iff_exists]
  constructor
  · rintro ⟨value, read, rfl⟩
    exact ⟨⟨value, read⟩, rfl⟩
  · rintro ⟨⟨value, read⟩, rfl⟩
    exact ⟨value, read, rfl⟩

theorem decimalLiteral?_eq_none {text : String} :
    decimalLiteral? text = none ↔ ¬IsDouble text.toList := by
  rw [← Decimal.parse?_isSome, decimalLiteral?, Option.map_eq_none_iff,
    Option.not_isSome_iff_eq_none]

/-- A decimal, as a default value and as a bound, is the trimmed text, and that is the text of a
double; every other text is an error that names it. What is kept is a decimal number if and only if
it has no letters, as exponents and the words for infinity and for what is no number have. -/
theorem decimals_kept_as_written (raw path label : String) (side : End) (exclusive : Bool) :
    (∀ literal, parseDefault "xs:decimal" raw path = .ok literal ↔
      IsDouble (Text.trim raw).toList ∧ literal = .decimal (Text.trim raw)) ∧
    (∀ error, parseDefault "xs:decimal" raw path = .error error ↔
      ¬IsDouble (Text.trim raw).toList ∧ error = .invalidDefault path raw "xs:decimal") ∧
    (∀ validator, bound .decimal raw exclusive side label = .ok validator ↔
      IsDouble (Text.trim raw).toList ∧
        validator = side.limit (.decimal (Text.trim raw)) exclusive) ∧
    (∀ error, bound .decimal raw exclusive side label = .error error ↔
      ¬IsDouble (Text.trim raw).toList ∧ error = .invalidDefault label raw "decimal") ∧
    (IsDecimal (Text.trim raw).toList ↔
      IsDouble (Text.trim raw).toList ∧ ∀ c ∈ (Text.trim raw).toList, c.isAlpha = false) := by
  have given : literal? "xs:decimal" raw = decimalLiteral? (Text.trim raw) := rfl
  have limit : boundLiteral? .decimal side exclusive (Text.trim raw) =
      (decimalLiteral? (Text.trim raw)).map (·, exclusive) := rfl
  unfold parseDefault bound
  rw [given, limit]
  cases read : decimalLiteral? (Text.trim raw) with
  | none =>
    have noDouble := decimalLiteral?_eq_none.mp read
    refine ⟨by simp [noDouble], by simp [noDouble, eq_comm], by simp [noDouble], ?_,
      Decimal.isDecimal_iff⟩
    simp [noDouble, ScalarKind.name, eq_comm]
  | some literal =>
    obtain ⟨isDouble, rfl⟩ := decimalLiteral?_eq_some.mp read
    refine ⟨by simp [isDouble, eq_comm], by simp [isDouble], ?_, ?_, Decimal.isDecimal_iff⟩
    · cases side <;> simp [isDouble, End.limit, eq_comm]
    · cases side <;> simp [isDouble]

/-- A number with an exponent is a default value of a decimal, and what is no number bounds one. -/
theorem exponent_taken_for_decimal :
    parseDefault "xs:decimal" "1e3" "a" = .ok (.decimal "1e3") ∧ ¬IsDecimal "1e3".toList ∧
      bound .decimal "NaN" false .lower "Price" = .ok (.minValue (.decimal "NaN") false) ∧
      ¬IsDecimal "NaN".toList := by
  refine ⟨rfl, fun isDecimal => ?_, rfl, fun isDecimal => ?_⟩
  · exact absurd ((Decimal.isDecimal_iff.mp isDecimal).2 'e' (by decide)) (by decide)
  · exact absurd ((Decimal.isDecimal_iff.mp isDecimal).2 'N' (by decide)) (by decide)

end EntityGraph.Scalar
