import EntityGraph.Proofs.Rank
import EntityGraph.Proofs.Scalar.Literals
import EntityGraph.Proofs.Table
import EntityGraph.Scalar.Derive
import Mathlib.Data.List.Perm.Subperm
import Mathlib.Data.Option.Basic

/-!
# The way down to a built-in type

A scalar and the primitive type of its defaults are found on two separate walks down the bases of a
type. The first one stops at whatever it remembers; the second one counts its steps. Both follow the
same bases, so that a scalar which has been derived tells that the primitive type is found as well,
and the storage of the scalar is of the type that belongs to it. Where no base leads back to itself,
neither walk is ever cut off.
-/
namespace EntityGraph

namespace Schema.Index

variable {index : Index}

/-- A name comes down to a built-in type in a number of steps. -/
inductive ComesDown (index : Index) : Nat → String → String → Prop
  | builtin {name : String} (is : isBuiltin name = true) : ComesDown index 0 name name
  | base {steps : Nat} {name base primitive : String} (is : isBuiltin name = false)
      (next : index.scalarBase? name = some base) (rest : ComesDown index steps base primitive) :
      ComesDown index (steps + 1) name primitive

/-- Every name comes down to one built-in type, in one number of steps. -/
theorem ComesDown.unique {steps other : Nat} {name primitive target : String}
    (first : ComesDown index steps name primitive) (second : ComesDown index other name target) :
    steps = other ∧ primitive = target := by
  induction first generalizing other with
  | builtin is =>
    cases second with
    | builtin => exact ⟨rfl, rfl⟩
    | base isNot => rw [is] at isNot; cases isNot
  | base isNot next _ ih =>
    cases second with
    | builtin is => rw [is] at isNot; cases isNot
    | base _ otherNext rest =>
      obtain rfl := Option.some.inj (next.symm.trans otherNext)
      obtain ⟨rfl, rfl⟩ := ih rest
      exact ⟨rfl, rfl⟩

/-- The bases of all types that are scalars or wrap one. -/
def scalarBases (index : Index) : List String :=
  index.simpleTypes.map (·.2.base)
    ++ index.complexTypes.filterMap fun entry => entry.2.simpleContent.map (·.base)

theorem length_scalarBases_le :
    index.scalarBases.length ≤ index.simpleTypes.length + index.complexTypes.length := by
  have wrapped : (index.complexTypes.filterMap fun entry =>
      entry.2.simpleContent.map (·.base)).length ≤ index.complexTypes.length :=
    List.length_filterMap_le _ _
  rw [scalarBases, List.length_append, List.length_map]
  omega

theorem mem_of_lookup? {α : Type} {table : Table α} {name : String} {value : α}
    (found : index.lookup? table name = some value) : ∃ key, (key, value) ∈ table := by
  rcases (Option.orElse_eq_some _ _ _).mp found with written | ⟨_, canonical⟩
  · exact ⟨_, Table.mem_of_get? written⟩
  · exact ⟨_, Table.mem_of_get? canonical⟩

theorem mem_scalarBases {name base : String} (found : index.scalarBase? name = some base) :
    base ∈ index.scalarBases := by
  unfold scalarBase? at found
  rw [scalarBases, List.mem_append]
  split at found
  next type simple =>
    obtain ⟨key, member⟩ := mem_of_lookup? simple
    exact .inl (List.mem_map.mpr ⟨_, member, Option.some.inj found⟩)
  next =>
    obtain ⟨type, complex, found⟩ := Option.bind_eq_some_iff.mp found
    obtain ⟨inner, has, found⟩ := Option.bind_eq_some_iff.mp found
    obtain ⟨key, member⟩ := mem_of_lookup? complex
    refine .inr (List.mem_filterMap.mpr ⟨_, member, ?_⟩)
    rw [has, ← Option.some.inj found]
    rfl

/-- The names on the way below the first one are bases, and no two of them are the same. -/
theorem ComesDown.exists_way {steps : Nat} {name primitive : String}
    (down : ComesDown index steps name primitive) :
    ∃ way : List String, way.length = steps ∧ way.Nodup ∧ way ⊆ index.scalarBases ∧
      ∀ below ∈ way, ∃ fewer < steps, ComesDown index fewer below primitive := by
  induction down with
  | builtin => exact ⟨[], rfl, List.nodup_nil, List.nil_subset _, nofun⟩
  | @base steps name base primitive _ next rest ih =>
    obtain ⟨way, length, nodup, bases, lower⟩ := ih
    refine ⟨base :: way, by rw [List.length_cons, length], List.nodup_cons.mpr ⟨?_, nodup⟩,
      List.cons_subset.mpr ⟨mem_scalarBases next, bases⟩, ?_⟩
    -- A base that came again would come down in fewer steps than it does.
    · intro again
      obtain ⟨fewer, less, down⟩ := lower base again
      exact absurd (down.unique rest).1 (Nat.ne_of_lt less)
    · intro below member
      rcases List.mem_cons.mp member with rfl | member
      · exact ⟨steps, Nat.lt_succ_self steps, rest⟩
      · obtain ⟨fewer, less, down⟩ := lower below member
        exact ⟨fewer, Nat.lt_succ_of_lt less, down⟩

theorem ComesDown.steps_le {steps : Nat} {name primitive : String}
    (down : ComesDown index steps name primitive) :
    steps ≤ index.simpleTypes.length + index.complexTypes.length := by
  obtain ⟨way, rfl, nodup, bases, _⟩ := down.exists_way
  exact Nat.le_trans (List.subperm_of_subset nodup bases).length_le length_scalarBases_le

/-- With enough steps the primitive type is found, as none of the names before comes down in fewer
steps. -/
theorem ComesDown.primitiveBaseWithin {steps room : Nat} {name primitive : String}
    (down : ComesDown index steps name primitive) (enough : steps < room) {seen : List String}
    (above : ∀ before ∈ seen, ∃ more target, steps < more ∧ ComesDown index more before target) :
    index.primitiveBaseWithin room seen name = .ok primitive := by
  induction down generalizing room seen with
  | builtin is =>
    obtain ⟨left, rfl⟩ := Nat.exists_eq_add_one.mpr enough
    rw [Index.primitiveBaseWithin, if_pos is]
  | @base steps name base primitive isNot next rest ih =>
    obtain ⟨left, rfl⟩ := Nat.exists_eq_add_one.mpr (Nat.zero_lt_of_lt enough)
    have down : ComesDown index (steps + 1) name primitive := .base isNot next rest
    have fresh : ¬seen.contains name = true := by
      rw [List.contains_iff_mem]
      intro again
      obtain ⟨more, target, less, other⟩ := above name again
      exact absurd (down.unique other).1 (Nat.ne_of_lt less)
    rw [Index.primitiveBaseWithin, if_neg (Bool.eq_false_iff.mp isNot), if_neg fresh, next]
    -- The name joins those above: it comes down in one step more than what is next.
    refine ih (Nat.lt_of_succ_lt_succ enough) fun before member => ?_
    rcases List.mem_cons.mp member with rfl | member
    · exact ⟨steps + 1, primitive, Nat.lt_succ_self steps, down⟩
    · obtain ⟨more, target, less, other⟩ := above before member
      exact ⟨more, target, Nat.lt_of_succ_lt less, other⟩

theorem ComesDown.primitiveBase {steps : Nat} {name primitive : String}
    (down : ComesDown index steps name primitive) : index.primitiveBase name = .ok primitive := by
  have bound := down.steps_le
  exact down.primitiveBaseWithin (by omega) nofun

end Schema.Index

namespace Scalar

open Schema (Index)

/-- What is known of a scalar that has been derived for a type: it has no default yet, its bounds
agree with its storage, and its storage with the primitive type of its defaults. -/
structure Agrees (primitive : String) (repr : ScalarRepr) : Prop where
  plain : repr.defaultValue = none
  bounds : repr.BoundsAgree
  type : repr.kind.defaultType = primitiveType primitive

theorem agrees_ofKind {primitive : String} {kind : ScalarKind}
    (type : kind.defaultType = primitiveType primitive) : Agrees primitive (.ofKind kind) :=
  ⟨rfl, (fun _ member => by cases member), type⟩

/-- The scalar belongs to a name, which comes down to the primitive type. -/
def DerivedFor (index : Index) (name : String) (repr : ScalarRepr) : Prop :=
  ∃ steps primitive, index.ComesDown steps name primitive ∧ Agrees primitive repr

/-- Whatever is remembered has been derived for its name. -/
def State.Remembers (index : Index) (state : State) : Prop :=
  ∀ entry ∈ state.known, DerivedFor index entry.1 entry.2

/-- A derivation keeps to what is remembered, and gives a scalar for the name. -/
def Sound (index : Index) (name : String) (derivation : Derivation) : Prop :=
  derivation.2.Remembers index ∧ ∀ repr, derivation.1 = .ok repr → DerivedFor index name repr

variable {source : Source}

theorem Sound.keep {name : String} {derivation : Derivation}
    (sound : Sound source.index name derivation) :
    Sound source.index name (keep name derivation) := by
  obtain ⟨result, state⟩ := derivation
  cases result with
  | error failure => exact sound
  | ok repr =>
    refine ⟨fun entry member => ?_, sound.2⟩
    rcases List.mem_cons.mp member with rfl | old
    · exact sound.2 repr rfl
    · exact sound.1 entry old

theorem agrees_restrict {type : Schema.SimpleType} {base repr : ScalarRepr} {primitive : String}
    (restricted : restrict source type base = .ok repr) (agrees : Agrees primitive base) :
    Agrees primitive repr := by
  obtain ⟨kind, default, bounds⟩ := applyFacets_agrees restricted agrees.bounds
  exact ⟨default.trans agrees.plain, bounds, kind.trans agrees.type⟩

theorem derivedFor_of_find? {state : State} (remembers : state.Remembers source.index)
    {name : String} {repr : ScalarRepr} (found : state.find? name = some repr) :
    DerivedFor source.index name repr := by
  obtain ⟨entry, known, rfl⟩ := Option.map_eq_some_iff.mp found
  have same : entry.1 = name := by simpa using List.find?_some known
  exact same ▸ remembers entry (List.mem_of_find?_eq_some known)

/-! ## One name at a time

A name is looked up, is built in, restricts another one, or stands for the simple content of a type.
-/

section Names

variable {name : String} {state : State}

theorem sound_found (remembers : state.Remembers source.index) {repr : ScalarRepr}
    (found : state.find? name = some repr) : Sound source.index name (.ok repr, state) := by
  refine ⟨remembers, ?_⟩
  rintro _ ⟨⟩
  exact derivedFor_of_find? remembers found

theorem sound_failed (remembers : state.Remembers source.index) (failure : Error) :
    Sound source.index name (.error failure, state) :=
  ⟨remembers, fun _ given => by cases given⟩

theorem sound_builtin (is : Schema.isBuiltin name = true) {kind : ScalarKind}
    (type : kind.defaultType = primitiveType name) (remembers : state.Remembers source.index) :
    Sound source.index name (keep name (.ok (.ofKind kind), state)) := by
  refine Sound.keep ⟨remembers, ?_⟩
  rintro _ ⟨⟩
  exact ⟨0, name, .builtin is, agrees_ofKind type⟩

/-- The scalar of a restriction agrees as that of its base does, wherever it comes from. -/
theorem sound_restricted (notBuiltin : Schema.isBuiltin name = false) {type : Schema.SimpleType}
    (simple : source.index.simpleType? name = some type) {base : ScalarRepr}
    (remembers : state.Remembers source.index)
    (derived : DerivedFor source.index type.base base) :
    Sound source.index name (keep name
      ((restrict source type base).map fun repr => { repr with sourceType := some name },
        state)) := by
  refine Sound.keep ⟨remembers, fun final given => ?_⟩
  obtain ⟨below, primitive, down, agrees⟩ := derived
  have next_ : source.index.scalarBase? name = some type.base := by
    rw [Index.scalarBase?, simple]
  cases restricted : restrict source type base with
  | error failure =>
    rw [restricted] at given
    cases given
  | ok narrowed =>
    rw [restricted] at given
    cases given
    have narrow := agrees_restrict restricted agrees
    exact ⟨below + 1, primitive, .base notBuiltin next_ down, narrow.plain, narrow.bounds,
      narrow.type⟩

theorem sound_wrapped (notBuiltin : Schema.isBuiltin name = false)
    (noSimple : source.index.simpleType? name = none) {inner : Schema.SimpleContent}
    (wraps : (source.index.complexType? name).bind (·.simpleContent) = some inner)
    {derivation : Derivation} (sound : Sound source.index inner.base derivation) :
    Sound source.index name (keep name derivation) := by
  have next_ : source.index.scalarBase? name = some inner.base := by
    obtain ⟨type, complex, has⟩ := Option.bind_eq_some_iff.mp wraps
    simp [Index.scalarBase?, noSimple, complex, has]
  refine Sound.keep ⟨sound.1, fun repr given => ?_⟩
  obtain ⟨below, primitive, down, agrees⟩ := sound.2 repr given
  exact ⟨below + 1, primitive, .base notBuiltin next_ down, agrees⟩

end Names

/-- Deriving the scalar of a name follows the way down to its primitive type. -/
theorem namedWithin_sound (plain : source.settings.typeOverrides = []) (steps : Nat) (name : String)
    {state : State} (remembers : state.Remembers source.index) :
    Sound source.index name (namedWithin source steps name state) := by
  induction steps generalizing name with
  | zero => exact sound_failed remembers _
  | succ steps ih =>
    rw [namedWithin]
    split
    next repr found => exact sound_found remembers found
    next =>
      have none : source.settings.typeOverride? name = none := by
        rw [Settings.typeOverride?, plain]
        rfl
      rw [none]
      dsimp only
      split
      next is =>
        split
        next kind stored =>
          exact sound_builtin is (by rw [primitiveType, stored]; rfl) remembers
        next unknown =>
          -- The notice about an unknown name leaves what is remembered alone.
          exact sound_builtin is (by rw [primitiveType, unknown]; rfl) remembers
      next isNot =>
        have notBuiltin := Bool.eq_false_iff.mpr isNot
        split
        next type simple =>
          have base := ih type.base
          split
          next failure later derived =>
            rw [derived] at base
            exact sound_failed base.1 failure
          next repr later derived =>
            rw [derived] at base
            exact sound_restricted notBuiltin simple base.1 (base.2 repr rfl)
        next noSimple =>
          split
          next inner wraps => exact sound_wrapped notBuiltin noSimple wraps (ih inner.base)
          next => exact sound_failed remembers _

theorem named_sound (plain : source.settings.typeOverrides = []) (name : String) {state : State}
    (remembers : state.Remembers source.index) :
    Sound source.index name (named source name state) :=
  namedWithin_sound plain _ name remembers

end Scalar

end EntityGraph

namespace EntityGraph.Scalar

open Relation (TransGen)
open Schema (Index)

/-! ## Bases without cycles -/

/-- The scalar of a name is derived from that of another one: the base of the type for which it
stands. A built-in name has no base, and neither has one that the settings replace. -/
structure RestsOn (index : Index) (settings : Settings) (name base : String) : Prop where
  notBuiltin : Schema.isBuiltin name = false
  kept : settings.typeOverride? name = none
  base : index.scalarBase? name = some base

variable {source : Source}

theorem namedWithin_eq {rank : String → Nat}
    (down : ∀ name base, RestsOn source.index source.settings name base → rank base < rank name)
    {steps other : Nat} {name : String} (enough : rank name < steps) (also : rank name < other)
    (state : State) :
    namedWithin source steps name state = namedWithin source other name state := by
  induction steps generalizing other name state with
  | zero => cases enough
  | succ steps ih =>
    obtain ⟨left, rfl⟩ := Nat.exists_eq_add_one.mpr (Nat.zero_lt_of_lt also)
    have below {base : String} (rests : RestsOn source.index source.settings name base)
        (state : State) :
        namedWithin source steps base state = namedWithin source left base state := by
      have lower := down name base rests
      exact ih (by omega) (by omega) state
    rw [namedWithin, namedWithin]
    cases state.find? name with
    | some repr => rfl
    | none =>
      cases kept : source.settings.typeOverride? name with
      | some override => rfl
      | none =>
        dsimp only
        split
        · rfl
        next notBuiltin =>
          have notBuiltin := Bool.eq_false_iff.mpr notBuiltin
          cases simple : source.index.simpleType? name with
          | some type =>
            have rests : RestsOn source.index source.settings name type.base :=
              ⟨notBuiltin, kept, by rw [Index.scalarBase?, simple]⟩
            dsimp only
            rw [below rests state]
          | none =>
            cases wraps : (source.index.complexType? name).bind (·.simpleContent) with
            | some inner =>
              obtain ⟨type, complex, has⟩ := Option.bind_eq_some_iff.mp wraps
              have rests : RestsOn source.index source.settings name inner.base :=
                ⟨notBuiltin, kept, by simp [Index.scalarBase?, simple, complex, has]⟩
              dsimp only
              rw [below rests state]
            | none => rfl

/-- Where no base leads back to itself, the way down is not cut off. -/
theorem namedWithin_of_le
    (noCycle : ∀ name, ¬TransGen (RestsOn source.index source.settings) name name) {steps : Nat}
    (enough : wayDown source.index ≤ steps) (name : String) (state : State) :
    namedWithin source steps name state = named source name state := by
  obtain ⟨rank, down, bound, _⟩ := exists_rank
    (fun _ _ rests => Index.mem_scalarBases (RestsOn.base rests)) fun name _ => noCycle name
  have room : rank name < wayDown source.index := by
    have way := bound name
    have few := @Index.length_scalarBases_le source.index
    unfold wayDown
    omega
  exact namedWithin_eq down (by omega) room state

end EntityGraph.Scalar
