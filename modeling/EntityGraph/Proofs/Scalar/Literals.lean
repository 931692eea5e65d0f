import EntityGraph.Proofs.Field
import EntityGraph.Proofs.Result
import EntityGraph.Scalar.Facets

/-!
# Literals of scalars

The type of a literal, and the one that the storage of a scalar asks for: that of its default, and
that of the ends of its range, which differ for truth values only. A default is read as a value of a
built-in type, and has the type that belongs to the storage of that. Restricting a scalar keeps the
types of its literals, as it never changes the storage to that of another type.
-/
namespace EntityGraph

/-- The types of literals. -/
inductive LiteralType where
  | boolean
  | integer
  | decimal
  | float
  | date
  | dateTime
  | text
  deriving DecidableEq, Repr

def Literal.type : Literal → LiteralType
  | boolean _ => .boolean
  | integer _ => .integer
  | decimal _ => .decimal
  | float _ => .float
  | date _ => .date
  | dateTime _ => .dateTime
  | text _ => .text

namespace ScalarKind

/-- The type of the defaults of a column. -/
def defaultType : ScalarKind → LiteralType
  | smallInteger | integer | bigInteger | positiveInteger => .integer
  | boolean => .boolean
  | decimal => .decimal
  | float => .float
  | date => .date
  | dateTime => .dateTime
  | binary | char | text | custom _ => .text

/-- The type of the ends of the range of a column. Truth values have no order, so that a range of
them is kept as it is written. -/
def boundType : ScalarKind → LiteralType
  | boolean => .text
  | kind => kind.defaultType

theorem boundType_eq_of_defaultType {kind other : ScalarKind}
    (same : kind.defaultType = other.defaultType) : kind.boundType = other.boundType := by
  cases kind <;> cases other <;> first | rfl | cases same

end ScalarKind

@[simp] theorem FieldKind.repr?_mapRepr (change : ScalarRepr → ScalarRepr) (kind : FieldKind) :
    (kind.mapRepr change).repr? = kind.repr?.map change := by
  cases kind <;> rfl

@[simp] theorem FieldKind.repr?_setRelatedName (relatedName : Option String) (kind : FieldKind) :
    (Compile.setRelatedName relatedName kind).repr? = kind.repr? := by
  cases relatedName <;> cases kind <;> rfl

/-- The end of a range that a validator checks. -/
def Validator.bound? : Validator → Option Literal
  | minValue value _ | maxValue value _ => some value
  | minLength _ | regex _ => none

namespace ScalarRepr

/-- The ends of the range are of the type that the storage asks for. -/
def BoundsAgree (repr : ScalarRepr) : Prop :=
  ∀ validator ∈ repr.validators, ∀ literal, validator.bound? = some literal →
    literal.type = repr.kind.boundType

/-- The default and the ends of the range are of the types that the storage asks for. -/
structure LiteralsAgree (repr : ScalarRepr) : Prop where
  default : ∀ literal, repr.defaultValue = some literal → literal.type = repr.kind.defaultType
  bounds : repr.BoundsAgree

theorem boundsAgree_of_same {repr other : ScalarRepr}
    (type : repr.kind.defaultType = other.kind.defaultType)
    (validators : repr.validators = other.validators) (agree : other.BoundsAgree) :
    repr.BoundsAgree := by
  intro validator member literal bound
  rw [agree validator (validators ▸ member) literal bound]
  exact (ScalarKind.boundType_eq_of_defaultType type).symm

theorem literalsAgree_ofKind (kind : ScalarKind) (maxLength : Option Nat) :
    LiteralsAgree { ofKind kind with maxLength } := by
  refine ⟨fun _ has => ?_, fun _ member => ?_⟩
  · cases has
  · cases member

end ScalarRepr

namespace Scalar

/-! ## Defaults -/

/-- The type of the values of a built-in type. -/
def primitiveType (primitive : String) : LiteralType :=
  ((builtinKind? primitive).getD .text).defaultType

theorem decimalLiteral?_type {text : String} {literal : Literal}
    (read : decimalLiteral? text = some literal) : literal.type = .decimal := by
  obtain ⟨value, _, rfl⟩ := Option.map_eq_some_iff.mp read
  rfl

theorem booleanLiteral?_type {text : String} {literal : Literal}
    (read : booleanLiteral? text = some literal) : literal.type = .boolean := by
  unfold booleanLiteral? at read
  split at read <;> cases read <;> rfl

/-- A default is of the type that belongs to the built-in type as whose value it is read. -/
theorem literal?_type {primitive raw : String} {literal : Literal}
    (read : literal? primitive raw = some literal) : literal.type = primitiveType primitive := by
  unfold literal? at read
  extract_lets text at read
  split at read
  case h_1 => exact booleanLiteral?_type read
  case h_7 => exact decimalLiteral?_type read
  case h_15 =>
    cases read
    rfl
  case h_16 =>
    -- What is not listed there is stored as text, or as octets.
    cases read
    unfold primitiveType builtinKind?
    split
    all_goals first | rfl | contradiction
  all_goals
    obtain ⟨value, _, rfl⟩ := Option.map_eq_some_iff.mp read
    rfl

theorem parseDefault_type {primitive raw path : String} {literal : Literal}
    (parsed : parseDefault primitive raw path = .ok literal) :
    literal.type = primitiveType primitive := by
  unfold parseDefault at parsed
  split at parsed
  next found read => exact Except.ok.inj parsed ▸ literal?_type read
  next => cases parsed

/-! ## Ranges -/

/-- A value that is stepped over if it is exclusive. -/
theorem exists_of_stepped {α β : Type} {exclusive : Bool} {step value : Option α}
    {next : α → Option β} {result : β}
    (read : (if exclusive = true then step >>= next else value >>= next) = some result) :
    ∃ stepped, next stepped = some result := by
  split at read
  all_goals
    obtain ⟨stepped, _, read⟩ := Option.bind_eq_some_iff.mp read
    exact ⟨stepped, read⟩

/-- A bound is of the type that the storage asks for. -/
theorem boundLiteral?_type {kind : ScalarKind} {side : End} {exclusive still : Bool}
    {text : String} {literal : Literal}
    (read : boundLiteral? kind side exclusive text = some (literal, still)) :
    literal.type = kind.boundType := by
  unfold boundLiteral? at read
  -- All integer kinds read a bound alike, and the others each in their own way.
  split at read
  next whole =>
    obtain ⟨value, _, read⟩ := Option.bind_eq_some_iff.mp read
    obtain ⟨stepped, read⟩ := exists_of_stepped read
    cases read
    cases kind <;> first | rfl | cases whole
  next =>
    split at read
    · obtain ⟨value, _, read⟩ := Option.bind_eq_some_iff.mp read
      obtain ⟨stepped, read⟩ := exists_of_stepped read
      cases read
      rfl
    · obtain ⟨value, _, read⟩ := Option.bind_eq_some_iff.mp read
      obtain ⟨stepped, read⟩ := exists_of_stepped read
      cases read
      rfl
    · obtain ⟨value, known, read⟩ := Option.map_eq_some_iff.mp read
      cases read
      exact decimalLiteral?_type known
    · obtain ⟨value, _, read⟩ := Option.map_eq_some_iff.mp read
      cases read
      rfl
    · cases read
      cases kind <;> first | rfl | contradiction

theorem bound_type {kind : ScalarKind} {raw label : String} {exclusive : Bool} {side : End}
    {validator : Validator} (given : bound kind raw exclusive side label = .ok validator)
    {literal : Literal} (has : validator.bound? = some literal) :
    literal.type = kind.boundType := by
  unfold bound at given
  split at given
  · cases given
  next value still read =>
    cases side with
    | lower | upper =>
      cases given
      cases has
      exact boundLiteral?_type read

theorem boundIfAny_type {kind : ScalarKind} {raw : Option String} {label : String}
    {exclusive : Bool} {side : End} {validators : List Validator}
    (given : boundIfAny kind raw exclusive side label = .ok validators) :
    ∀ validator ∈ validators, ∀ literal, validator.bound? = some literal →
      literal.type = kind.boundType := by
  intro validator member literal has
  unfold boundIfAny at given
  split at given
  next raw =>
    cases bounded : bound kind raw exclusive side label with
    | error failure =>
      rw [bounded] at given
      cases given
    | ok only =>
      rw [bounded] at given
      cases given
      rw [List.mem_singleton.mp member] at has
      exact bound_type bounded has
  next =>
    cases given
    cases member

theorem rangeValidators_type {kind : ScalarKind} {facets : Schema.Facets} {label : String}
    {validators : List Validator} (given : rangeValidators kind facets label = .ok validators) :
    ∀ validator ∈ validators, ∀ literal, validator.bound? = some literal →
      literal.type = kind.boundType := by
  obtain ⟨first, firstGiven, given⟩ := Result.bind_eq_ok.mp given
  obtain ⟨second, secondGiven, given⟩ := Result.bind_eq_ok.mp given
  obtain ⟨third, thirdGiven, given⟩ := Result.bind_eq_ok.mp given
  obtain ⟨fourth, fourthGiven, given⟩ := Result.bind_eq_ok.mp given
  obtain rfl := Result.pure_eq_ok.mp given
  intro validator member
  simp only [List.mem_append] at member
  rcases member with ((member | member) | member) | member
  · exact boundIfAny_type firstGiven validator member
  · exact boundIfAny_type secondGiven validator member
  · exact boundIfAny_type thirdGiven validator member
  · exact boundIfAny_type fourthGiven validator member

/-- The validators of texts check no range. -/
theorem textValidators_bound? {kind : ScalarKind} {facets : Schema.Facets} {validator : Validator}
    (member : validator ∈ textValidators kind facets) : validator.bound? = none := by
  simp only [textValidators, List.mem_append] at member
  rcases member with least | pattern
  · split at least
    · split at least
      · rw [List.mem_singleton.mp least]
        rfl
      · cases least
    · cases least
  · split at pattern
    · cases pattern
    · rw [List.mem_singleton.mp pattern]
      rfl

/-! ## Restrictions -/

theorem widen_defaultType (kind : ScalarKind) (digits : Nat) :
    (widen kind digits).defaultType = kind.defaultType := by
  unfold widen
  split
  · split
    · rfl
    · split <;> rfl
  · split <;> rfl
  · split <;> rfl
  · rfl

theorem widenedKind_defaultType (kind : ScalarKind) (facets : Schema.Facets) :
    (widenedKind kind facets).defaultType = kind.defaultType := by
  unfold widenedKind
  split
  · exact widen_defaultType kind _
  · rfl

/-- A restriction keeps the type of the values, and adds no bound of another type. -/
theorem applyFacets_agrees {repr restricted : ScalarRepr} {facets : Schema.Facets} {factor : Nat}
    {label : String} (applied : applyFacets repr facets factor label = .ok restricted)
    (agree : repr.BoundsAgree) :
    restricted.kind.defaultType = repr.kind.defaultType ∧
      restricted.defaultValue = repr.defaultValue ∧ restricted.BoundsAgree := by
  obtain ⟨ranges, ranged, applied⟩ := Result.bind_eq_ok.mp applied
  obtain ⟨maxLength, _, applied⟩ := Result.bind_eq_ok.mp applied
  obtain rfl := Result.pure_eq_ok.mp applied
  have type := widenedKind_defaultType repr.kind facets
  refine ⟨type, rfl, fun validator member literal has => ?_⟩
  have expected : literal.type = repr.kind.boundType := by
    simp only [List.mem_append] at member
    rcases member with (old | ranged') | text
    · exact agree validator old literal has
    · exact rangeValidators_type ranged validator ranged' literal has
    · rw [textValidators_bound? text] at has
      cases has
  exact expected.trans (ScalarKind.boundType_eq_of_defaultType type).symm

theorem finalize_agrees (threshold : Nat) (repr : ScalarRepr) :
    (finalize threshold repr).kind.defaultType = repr.kind.defaultType ∧
      (finalize threshold repr).defaultValue = repr.defaultValue ∧
      (finalize threshold repr).validators = repr.validators := by
  simp only [finalize]
  split
  next sized =>
    have char : repr.kind = .char := by
      simp only [Bool.and_eq_true, beq_iff_eq] at sized
      exact sized.1
    exact ⟨by rw [char]; rfl, rfl, rfl⟩
  next => exact ⟨rfl, rfl, rfl⟩

end Scalar

end EntityGraph
