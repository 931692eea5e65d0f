import EntityGraph.Proofs.Build.ConcludingMembers
import EntityGraph.Proofs.Build.LawfulEntities

/-!
# Entities that are built to an end

The entity of a type path is built to an end if the walks that leave its place conclude. By
induction on the levels they do: every new path is a named one, of which fewer remain then, or its
type has a lower rank; and in between only the extensions of one entity are inside each other.
-/
namespace EntityGraph.Compile

open Schema (ComplexType Element Extension Index Particle)

variable {context : Context} {count : Nat} {outer : Option ComplexType} {onward : Onward}
  {scope : Scope} {type : ComplexType}

/-! ## The outer parts of a type -/

/-- The walks that leave the outermost place of a type conclude, also into the members of a type
that is walked in its place. -/
structure LeavesType (context : Context) (count : Nat) (outer : Option ComplexType)
    (onward : Onward) : Prop extends Leaves context count outer 0 onward where
  members : ∀ scope type, scope.IsPlace context 0 →
    (∀ base ∈ context.index.lineage type,
      Contributes context.index context.settings outer base) →
    Concludes (Remains context count) (onward.members scope type) fun _ => True

/-- The type at a place is one of the index. -/
def Known (context : Context) (outer : Option ComplexType) : Prop :=
  ∀ type, outer = some type → type ∈ context.index.types

/-- The content of an outline consists of elements that are met, and its parent is that of the
type. -/
structure Outline.IsMet (context : Context) (outer : Option ComplexType) (rules : FieldRules)
    (outline : Outline) : Prop where
  content : ∀ particle, outline.content = some particle → ∀ declaration ∈ particle.elements,
    Met context.index context.settings outer declaration
  parent : ∀ path, outline.parent = some path → ParentPath rules outer path

theorem Outline.IsMet.empty (rules : FieldRules) :
    Outline.IsMet context outer rules ⟨none, none⟩ :=
  ⟨fun _ has => (by cases has), fun _ has => (by cases has)⟩

/-- The content that an outline leaves is content of the type. -/
def Outline.IsPartOf (type : ComplexType) (outline : Outline) : Prop :=
  ∀ particle, outline.content = some particle → particle ∈ type.contents

theorem ParentPath.mem_namedPaths (known : Known context outer)
    (given : scope.IsGiven context.settings) {path : String}
    (leads : ParentPath scope.rules outer path) :
    path ∈ namedPaths context.index context.settings := by
  cases leads with
  | configured configured =>
    exact given.mem_namedPaths context.index (by simp [EntityOptions.targets, configured])
  | base own extends_ =>
    exact mem_namedPaths_of_typeName (Index.mem_typeNames_of_base (known _ own) extends_)
  | selected own _ has inside names =>
    have met : context.index.HasElement _ :=
      ⟨_, known _ own, _, has, List.mem_of_find?_eq_some inside⟩
    exact mem_namedPaths_of_typeName (met.mem_typeNames names)

theorem outline_concludes (terminating : Terminating context)
    (leaves : LeavesType context count outer onward) (place : scope.IsPlace context 0)
    (own : outer = some type) (known : Known context outer) :
    Concludes (Remains context count) (outline context onward scope type)
      fun outline => outline.IsMet context outer scope.rules ∧ outline.IsPartOf type := by
  have gives : Contributes context.index context.settings outer type := .own own (known _ own)
  have attributes : ∀ part, part ⊆ type.attributeItems →
      Concludes (Remains context count) (walkAttributes context onward scope part)
        fun _ => True := fun part inside =>
    walkAttributes_concludes terminating leaves.toLeaves place fun _ member =>
      .of_attribute gives.mem_types (inside member)
  have empty : Outline.IsPartOf type ⟨none, none⟩ := fun _ has => by cases has
  unfold outline
  split
  next content _ _ has =>
    have inside := ComplexType.mem_contents_of_content has
    refine .returns ⟨⟨?_, fun _ adds => by cases adds⟩, ?_⟩
    · rintro _ ⟨⟩ declaration
      exact .member gives inside
    · rintro _ ⟨⟩
      exact inside
  next extension _ _ has =>
    -- A notice may come first; the walk is the same either way.
    extract_lets proceed
    have goesOn : Concludes (Remains context count) (proceed ())
        fun outline => outline.IsMet context outer scope.rules ∧ outline.IsPartOf type := by
      refine (attributes _ fun item member => ?_).bind fun _ _ =>
        .returns ⟨⟨fun particle adds declaration => ?_, ?_⟩, fun particle adds => ?_⟩
      · simp [ComplexType.attributeItems, has, member]
      · exact .member gives (ComplexType.mem_contents_of_extension has adds)
      · rintro _ ⟨⟩
        exact .base own has
      · exact ComplexType.mem_contents_of_extension has adds
    split
    · exact (notify_concludes _).bind fun _ _ => goesOn
    · exact goesOn
  next inner _ _ has =>
    refine (attributes _ fun item member => ?_).bind fun _ _ => ?_
    · simp [ComplexType.attributeItems, has, member]
    · refine (namedScalar_concludes inner.base).bind fun repr _ => ?_
      exact (addField_concludes _ _ _).bind fun _ _ => .returns ⟨.empty _, empty⟩
  next => exact (notify_concludes _).bind fun _ _ => .returns ⟨.empty _, empty⟩

theorem walkOutline_concludes (terminating : Terminating context)
    (leaves : LeavesType context count outer onward) (place : scope.IsPlace context 0)
    (own : outer = some type) (known : Known context outer) :
    Concludes (Remains context count) (walkOutline context onward scope type)
      (Outline.IsMet context outer scope.rules) := by
  refine (modifyEntity_concludes _ _).bind fun _ _ => ?_
  refine (walkAttributes_concludes terminating leaves.toLeaves place fun held member =>
    .of_attribute (known _ own) (by simp [ComplexType.attributeItems, member])).bind fun _ _ => ?_
  refine (outline_concludes terminating leaves place own known).bind fun outline ensured => ?_
  obtain ⟨met, part⟩ := ensured
  split
  next field _ selects =>
    refine (Concludes.lifts (parentByField_avoids _ _ _)).bind fun parent selected =>
      .returns ⟨met.content, ?_⟩
    rintro path rfl
    obtain ⟨particle, declaration, has, inside, named⟩ := parentByField_eq_ok selected
    exact .selected own selects (part particle has) inside named.symm
  next => exact .returns met

theorem outlineOf_concludes (terminating : Terminating context)
    (leaves : LeavesType context count outer onward) (place : scope.IsPlace context 0)
    {type : Option ComplexType} (own : outer = (type <|> context.index.complexType? scope.typePath))
    (known : Known context outer) :
    Concludes (Remains context count) (outlineOf context onward scope type)
      (Outline.IsMet context outer scope.rules) := by
  unfold outlineOf
  split
  · exact .returns (.empty _)
  · extract_lets proceed
    split
    · exact walkOutline_concludes terminating leaves place own known
    · refine (Concludes.lifts (context.index.complexType_avoids _)).bind fun found given => ?_
      refine walkOutline_concludes terminating leaves place (own.trans ?_) known
      exact complexType?_of_complexType given

theorem inherit_concludes (leaves : LeavesType context count outer onward)
    (place : scope.IsPlace context 0) (known : Known context outer) {parent : String}
    (leads : ParentPath scope.rules outer parent) :
    Concludes (Remains context count) (inherit context onward scope parent) fun _ => True := by
  unfold inherit
  split
  next includes =>
    refine (Concludes.lifts (context.index.complexType_avoids parent)).bind fun found given => ?_
    exact leaves.members scope found place fun base above =>
      .inherited place.given includes leads (complexType?_of_complexType given) above
  next =>
    have asked : Asked context outer parent none :=
      .named (leads.mem_namedPaths known place.given) fun _ absent => by cases absent
    exact (leaves.asked _ _ _ asked).bind fun name _ => modifyEntity_concludes _ _

/-! ## What the settings add -/

theorem addBag_concludes (scope : Scope) :
    Concludes (Remains context count) (addBag context scope) fun _ => True := by
  refine (takeBag_concludes _).bind fun bag _ => ?_
  split
  · exact .returns trivial
  · exact (addField_concludes _ _ _).done

/-- An extra field leads to a named path, or to one that has been built. -/
theorem extraTarget_concludes {length : Nat} (leaves : Leaves context count outer length onward)
    (target : String) :
    Concludes (Remains context count) (extraTarget context onward target) fun _ => True := by
  refine ConcludesIn.reads fun state remains => ?_
  have stays : ConcludesIn (· = state) (pure target : Walk String)
      fun _ state => Remains context count state ∧ True :=
    .returns fun _ same => ⟨same ▸ remains, trivial⟩
  split
  next path found =>
    split
    · rcases NameResolver.cases_of_reverse? found with ⟨rule, member, literal⟩ | known
      · have named : Asked context outer path none :=
          .named (remains.literals rule member path literal) fun _ absent => by cases absent
        exact ConcludesIn.weaken (leaves.asked path none [] named) (fun _ same => same ▸ remains)
          fun _ _ => id
      · exact (leaves.built path).weaken (fun _ same => same ▸ ⟨remains, remains.known path known⟩)
          fun _ _ => id
    · exact stays
  next => exact stays

theorem addExtra_concludes {length : Nat} (leaves : Leaves context count outer length onward)
    (scope : Scope) (extra : ExtraField) :
    Concludes (Remains context count) (addExtra context onward scope extra) fun _ => True := by
  have kinds : Concludes (Remains context count) (extraKind context onward extra)
      fun _ => True := by
    unfold extraKind
    split
    · refine (extraTarget_concludes leaves _).bind fun entity _ => ?_
      split
      · exact .returns trivial
      · exact .returns trivial
    · exact .returns trivial
  exact kinds.bind fun kind _ => (addField_concludes _ _ _).done

theorem fill_concludes (terminating : Terminating context)
    (leaves : LeavesType context count outer onward) (place : scope.IsPlace context 0)
    {content : Option Particle}
    (met : ∀ particle, content = some particle → ∀ declaration ∈ particle.elements,
      Met context.index context.settings outer declaration) (fields : List Field) :
    Concludes (Remains context count) (fill context onward scope content fields)
      fun _ => True := by
  refine (walkContent_concludes terminating leaves.toLeaves place met).bind fun _ _ => ?_
  refine (addBag_concludes scope).bind fun _ _ => ?_
  refine (Concludes.repeats fun extra _ =>
    addExtra_concludes leaves.toLeaves scope extra).bind fun _ _ => ?_
  refine (addFields_concludes _ _ fields).bind fun _ _ => ?_
  exact .reads fun state => modifyEntity_concludes _ _

/-! ## Whole entities -/

/-- The rest of what is done for a new entity, once it is in its place. -/
theorem buildNew_concludes (terminating : Terminating context)
    (leaves : LeavesType context count outer onward) {path : String} (entity : String)
    {type : Option ComplexType} (own : outer = (type <|> context.index.complexType? path))
    (known : Known context outer) (fields : List Field) {Before : State → Prop}
    (opened : ∀ state, Before state → Remains context count
      { state with entities := state.entities.set path (.ofTypePath entity path) }) :
    ConcludesIn Before (buildNew context onward path entity type fields)
      fun _ state => Remains context count state ∧ True := by
  refine ConcludesIn.bind (ConcludesIn.changes opened) fun _ => ?_
  refine (Concludes.lifts (context.book.forType_avoids (by decide) _ _)).bind fun rules given => ?_
  extract_lets scope
  have place : scope.IsPlace context 0 := ⟨⟨_, terminating.read, given⟩, Nat.zero_le _⟩
  refine (outlineOf_concludes terminating leaves place own known).bind fun outline met => ?_
  extract_lets proceed
  have goesOn : Concludes (Remains context count) (proceed ()) fun _ => True :=
    fill_concludes terminating leaves place met.content fields
  split
  next parent chosen =>
    refine (inherit_concludes leaves place known ?_).bind fun _ _ => goesOn
    rcases (Option.orElse_eq_some _ _ _).mp chosen with configured | ⟨_, outlined⟩
    · exact .configured configured
    · exact met.parent parent outlined
  next => exact goesOn

/-- Whatever names a path and builds it keeps what remains. -/
theorem Remains.named {state later : State} (remains : Remains context count state) {path : String}
    (grown : ∀ other, state.isBuilt other = true → later.isBuilt other = true)
    (built : later.isBuilt path = true)
    (same : later.resolver = (state.resolver.resolve path).2.2) : Remains context count later where
  unbuilt := Nat.le_trans (remaining_le grown) remains.unbuilt
  known other member := by
    rw [same] at member
    rcases NameResolver.mem_names_resolve member with rfl | old
    · exact built
    · exact grown other (remains.known other old)
  literals rule member := by
    rw [same, NameResolver.resolve_rules] at member
    exact remains.literals rule member

/-- A path has been given a name, and nothing else has changed that counts. -/
def State.NamedSince (path : String) (before state : State) : Prop :=
  state.entities = before.entities ∧ state.resolver = (before.resolver.resolve path).2.2

theorem State.NamedSince.isBuilt {path : String} {before state : State}
    (named : State.NamedSince path before state) (other : String) :
    state.isBuilt other = before.isBuilt other := by
  rw [State.isBuilt, State.isBuilt, named.1]

theorem resolveName_concludes (path : String) {Before : State → Prop} :
    ConcludesIn Before (resolveName path)
      fun _ state => ∃ before, Before before ∧ State.NamedSince path before state := by
  refine fun state before => ⟨Result.avoids_ok _, fun result final ran => ?_⟩
  cases ran
  exact ⟨state, before, rfl, rfl⟩

/-- A path that is built is extended, and a new one is built where its name is not taken. -/
theorem buildEntity_concludes {path : String} {type : Option ComplexType} {fields : List Field}
    {Before : State → Prop} (remains : ∀ state, Before state → Remains context count state)
    (new : ∀ before state, Before before → State.NamedSince path before state →
      before.isBuilt path = false → ∀ entity, ConcludesIn (· = state)
        (buildNew context onward path entity type fields)
          fun _ state => Remains context count state ∧ True) :
    ConcludesIn Before (buildEntity context onward path type fields)
      fun _ state => Remains context count state ∧ True := by
  refine ConcludesIn.bind (resolveName_concludes path) fun name => ?_
  refine ConcludesIn.reads fun state ⟨before, holds, named⟩ => ?_
  extract_lets proceed
  have goesOn : Concludes (Remains context count) (proceed ()) fun _ => True := .returns trivial
  split
  next built =>
    have wasBuilt : before.isBuilt path = true := (named.isBuilt path).symm.trans built
    have later : Remains context count state :=
      (remains before holds).named (fun other => (named.isBuilt other).trans) built named.2
    have extends_ : Concludes (Remains context count)
        (do extendBuilt context path fields; proceed ()) fun _ => True :=
      (extendBuilt_concludes path fields).bind fun _ _ => goesOn
    exact ConcludesIn.weaken extends_ (fun _ same => same ▸ later) fun _ _ => id
  next unbuilt =>
    have fresh : before.isBuilt path = false :=
      (named.isBuilt path).symm.trans (Bool.eq_false_iff.mpr unbuilt)
    have opens : ConcludesIn (· = state)
        (do buildNew context onward path name.entity type fields; proceed ())
        fun _ state => Remains context count state ∧ True :=
      (new before state holds named fresh name.entity).bind fun _ =>
        ConcludesIn.weaken goesOn (fun _ => And.left) fun _ _ => id
    split
    · split
      · exact opens
      · exact ConcludesIn.bind (ConcludesIn.fails rfl) fun _ => goesOn
    · exact opens

/-- A path that is built concludes at any level. -/
theorem buildEntity_of_built (path : String) (type : Option ComplexType) (fields : List Field) :
    ConcludesIn (fun state => Remains context count state ∧ state.isBuilt path = true)
      (buildEntity context onward path type fields)
      fun _ state => Remains context count state ∧ True :=
  buildEntity_concludes (fun _ => And.left) fun before state ⟨_, built⟩ _ fresh =>
    by simp [built] at fresh

/-- A new path is one of the named ones that remain, or it does not count. -/
theorem Remains.opened {state before : State} {path : String} {smaller : Nat}
    (remains : Remains context count before) (named : State.NamedSince path before state)
    (fresh : before.isBuilt path = false)
    (fewer : count ≤ smaller ∨
      path ∈ namedPaths context.index context.settings ∧ count ≤ smaller + 1)
    (entity : Entity) :
    Remains context smaller { state with entities := state.entities.set path entity } := by
  let after : State := { state with entities := state.entities.set path entity }
  have built : after.isBuilt path = true := State.isBuilt_set.mpr (.inl rfl)
  have grown : ∀ other, before.isBuilt other = true → after.isBuilt other = true := fun other old =>
    State.isBuilt_set.mpr (.inr ((named.isBuilt other).trans old))
  have kept := remains.named grown built named.2
  refine ⟨?_, kept.known, kept.literals⟩
  rcases fewer with same | ⟨member, less⟩
  · exact Nat.le_trans kept.unbuilt same
  · have lost := remaining_lt grown member fresh built
    have bound := remains.unbuilt
    change remaining _ after.isBuilt ≤ smaller
    omega

theorem buildEntity_of_leaves (terminating : Terminating context) {smaller : Nat}
    (le : smaller ≤ count) (leaves : LeavesType context smaller outer onward) {path : String}
    (fewer : count ≤ smaller ∨
      path ∈ namedPaths context.index context.settings ∧ count ≤ smaller + 1)
    {type : Option ComplexType} (own : outer = (type <|> context.index.complexType? path))
    (known : Known context outer) (fields : List Field) :
    Concludes (Remains context count) (buildEntity context onward path type fields)
      fun _ => True := by
  refine buildEntity_concludes (fun _ => id) fun before state remains named fresh entity => ?_
  have opened : ∀ other, other = state → Remains context smaller
      { other with entities := other.entities.set path (.ofTypePath entity path) } := by
    rintro _ rfl
    exact remains.opened named fresh fewer _
  exact (buildNew_concludes terminating leaves entity own known fields opened).weaken (fun _ => id)
    fun _ _ ⟨left, done⟩ => ⟨left.more le, done⟩

/-! ## Levels -/

section Levels

/-- How many levels lie below the place of a type of a rank, while so many named paths remain: below
each rank there is one for the request, one for the members of a parent, and one for each extension
inside of another, of which there are not more than the limit on names. -/
def levelsBelow (context : Context) (count rank : Nat) : Nat :=
  (count * (context.index.types.length + 1) + rank)
    * (context.settings.compiler.identifierLimit + 3)

theorem levelsBelow_add_le (context : Context) {count smaller rank lower : Nat}
    (less : smaller * (context.index.types.length + 1) + lower <
      count * (context.index.types.length + 1) + rank) :
    levelsBelow context smaller lower + (context.settings.compiler.identifierLimit + 3) ≤
      levelsBelow context count rank := by
  have product := Nat.mul_le_mul_right (context.settings.compiler.identifierLimit + 3)
    (Nat.succ_le_of_lt less)
  rw [Nat.succ_mul] at product
  exact product

/-- A named path leaves fewer of them, whatever the ranks are. -/
theorem levelsBelow_named (context : Context) {lower : Nat}
    (bound : lower ≤ context.index.types.length) (smaller rank : Nat) :
    levelsBelow context smaller lower + (context.settings.compiler.identifierLimit + 3) ≤
      levelsBelow context (smaller + 1) rank := by
  refine levelsBelow_add_le context ?_
  rw [Nat.succ_mul]
  omega

/-- Enough levels for the place of a type, where the ancestors have a length. -/
def Suffices (context : Context) (count rank length levels : Nat) : Prop :=
  levelsBelow context count rank
    + (context.settings.compiler.identifierLimit + 1 - length) < levels

/-- At a number of levels, all places for which they suffice are left to an end. -/
def LeavesWithin (context : Context) (rank : Option ComplexType → Nat) (levels : Nat) : Prop :=
  ∀ count outer length, Suffices context count (rank outer) length levels →
    Leaves context count outer length (Compile.onward context levels)

variable {rank : Option ComplexType → Nat}

/-- One level more gives the members of a type as well. -/
theorem leavesType_of_leavesWithin (terminating : Terminating context) {levels : Nat}
    (within : ∀ fewer ≤ levels, LeavesWithin context rank fewer)
    (enough : levelsBelow context count (rank outer)
      + (context.settings.compiler.identifierLimit + 3) ≤ levels) :
    LeavesType context count outer (Compile.onward context levels) := by
  obtain ⟨fewer, rfl⟩ : ∃ fewer, levels = fewer + 1 := ⟨levels - 1, by omega⟩
  refine ⟨within _ (Nat.le_refl _) _ _ _ ?_, fun scope type place gives => ?_⟩
  · unfold Suffices
    omega
  · refine walkMembers_concludes terminating (within fewer (Nat.le_succ _) _ _ 0 ?_) place gives
    unfold Suffices
    omega

theorem leavesWithin (terminating : Terminating context)
    (down : ∀ outer inner, Encloses context.index context.settings outer inner →
      rank (some inner) < rank outer)
    (bound : ∀ outer, rank outer ≤ context.index.types.length) (levels : Nat) :
    LeavesWithin context rank levels := by
  induction levels using Nat.strongRecOn with
  | ind levels ih =>
    intro count outer length enough
    obtain ⟨fewer, rfl⟩ : ∃ fewer, levels = fewer + 1 :=
      Nat.exists_eq_add_one.mpr (Nat.zero_lt_of_lt enough)
    have within : ∀ less ≤ fewer, LeavesWithin context rank less := fun less le =>
      ih less (Nat.lt_succ_of_le le)
    unfold Suffices at enough
    refine ⟨fun path type fields asked => ?_, fun path => ?_, ?_⟩
    · -- A named path is built, or fewer of them remain; an anonymous type has a lower rank.
      cases asked with
      | named member given =>
        cases count with
        | zero =>
          refine ConcludesIn.weaken (buildEntity_of_built path type fields)
            (fun state remains => ⟨remains, ?_⟩) fun _ _ => id
          exact done_of_remaining_eq_zero (Nat.le_zero.mp remains.unbuilt) member
        | succ smaller =>
          have known : Known context (type <|> context.index.complexType? path) := by
            intro found same
            rcases (Option.orElse_eq_some _ _ _).mp same with own | ⟨_, declared⟩
            · exact given found own
            · exact Index.mem_types_of_complexType? declared
          have step := levelsBelow_named context
            (bound (type <|> context.index.complexType? path)) smaller (rank outer)
          refine buildEntity_of_leaves terminating (Nat.le_succ smaller)
            (leavesType_of_leavesWithin terminating within ?_) (.inr ⟨member, Nat.le_refl _⟩) rfl
            known fields
          omega
      | @enclosed inner _ encloses =>
        have step := levelsBelow_add_le context
          (Nat.add_lt_add_left (down outer inner encloses)
            (count * (context.index.types.length + 1)))
        have leaves : LeavesType context count (some inner) (Compile.onward context fewer) :=
          leavesType_of_leavesWithin terminating within (by omega)
        refine buildEntity_of_leaves terminating (Nat.le_refl count) leaves (.inl (Nat.le_refl _))
          rfl ?_ fields
        rintro _ ⟨⟩
        exact encloses.mem_types
    · exact buildEntity_of_built path none []
    · intro scope type extension place longer short known has met
      refine walkExtension_concludes terminating
        (within fewer (Nat.le_refl _) count outer scope.ancestors.length ?_)
        ⟨place, Nat.le_refl _⟩ known has met
      unfold Suffices
      omega

end Levels

end EntityGraph.Compile
