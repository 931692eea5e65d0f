import EntityGraph.Compile.Graph
import EntityGraph.Proofs.Build.Lawful

/-!
# Builds under a law

The parts of an entity keep to a law, and so does the entity itself if the law says what a new
entity may be. By induction on the levels, a whole build keeps to the law.
-/
namespace EntityGraph.Compile

open Schema (ComplexType Extension Index Particle)

variable {context : Context} {onward other : Onward} {scope : Scope}

section Parts

variable {law : WalkLaw context}

theorem entityAt_keeps (path : String) :
    law.Keeps (entityAt context path) (entityAt context path) fun _ => True := by
  refine .of_run fun state entity final holds ran => ?_
  rw [← bind_pure (entityAt context path)] at ran
  obtain ⟨found, _, ran⟩ := entityAt_bind_eq_ok ran
  cases ran
  exact ⟨holds, trivial⟩

theorem extendBuilt_keeps (path : String) {fields : List Field} (backs : AllBack fields) :
    law.Keeps (extendBuilt context path fields) (extendBuilt context path fields)
      fun _ => True := by
  unfold extendBuilt
  split
  · exact .returns trivial
  · refine (entityAt_keeps path).bind fun entity _ => ?_
    refine (Follows.lifts _).bind fun rules _ => ?_
    refine (addFields_keeps law backs).bind fun _ _ => ?_
    exact modifyEntity_reshapes law

/-! ## The outer parts of a type -/

/-- The content of an outline consists of members that may be met, and its parent is asked for at
the place. -/
structure Outline.Allowed (law : WalkLaw context) (scope : Scope) (outline : Outline) : Prop where
  content : ∀ particle, outline.content = some particle →
    ∀ declaration ∈ particle.elements, law.words.member (.element declaration)
  parent : ∀ path, outline.parent = some path → Request law.words scope path none

variable {type : ComplexType}

theorem outline_keeps (keeps : OnwardKeeps law onward other) (place : law.At scope)
    (known : law.words.type type) :
    law.Keeps (outline context onward scope type) (outline context other scope type)
      (Outline.Allowed law scope) := by
  have empty : Outline.Allowed law scope ⟨none, none⟩ :=
    ⟨fun _ has => (by cases has), fun _ has => (by cases has)⟩
  unfold outline
  split
  next content _ _ has =>
    refine .returns ⟨?_, fun _ adds => by cases adds⟩
    rintro _ ⟨⟩ declaration
    exact law.words.element known (Schema.ComplexType.mem_contents_of_content has)
  next extension _ _ has =>
    -- A notice may come first; the walk is the same either way.
    extract_lets proceed proceedOther
    have goesOn : law.Keeps (proceed ()) (proceedOther ()) (Outline.Allowed law scope) := by
      refine (walkAttributes_keeps keeps place fun declaration member => ?_).bind fun _ _ =>
        .returns ⟨fun particle adds declaration => ?_, ?_⟩
      · exact law.words.attrib known (by simp [ComplexType.attributeItems, has, member])
      · exact law.words.element known (Schema.ComplexType.mem_contents_of_extension has adds)
      · rintro _ ⟨⟩
        exact .base known has
    split
    · exact (notify_keeps law _).bind fun _ _ => goesOn
    · exact goesOn
  next inner _ _ has =>
    refine (walkAttributes_keeps keeps place fun declaration member => ?_).bind fun _ _ => ?_
    · exact law.words.attrib known (by simp [ComplexType.attributeItems, has, member])
    · refine (namedScalar_keeps inner.base).bind fun repr found => ?_
      exact (addField_keeps law place (.content found)).bind fun _ _ => .returns empty
  next => exact (notify_keeps law _).bind fun _ _ => .returns empty

theorem parentByField_eq_ok {field : String} {content : Option Particle} {parent : Option String}
    (selected : parentByField scope field content = .ok parent) :
    ∃ particle declaration, content = some particle ∧ particle.element? field = some declaration ∧
      parent = Index.effectiveTypeName declaration := by
  unfold parentByField at selected
  split at selected
  next declaration found =>
    obtain ⟨particle, has, inside⟩ := Option.bind_eq_some_iff.mp found
    exact ⟨particle, declaration, has, inside, (Except.ok.inj selected).symm⟩
  next => cases selected

theorem walkOutline_keeps (keeps : OnwardKeeps law onward other) (place : law.At scope)
    (known : law.words.type type) :
    law.Keeps (walkOutline context onward scope type) (walkOutline context other scope type)
      (Outline.Allowed law scope) := by
  refine (modifyEntity_reshapes law).bind
    fun _ _ => ?_
  refine (walkAttributes_keeps keeps place fun declaration member => ?_).bind fun _ _ => ?_
  · exact law.words.attrib known (by simp [ComplexType.attributeItems, member])
  refine (outline_keeps keeps place known).bind fun outline allowed => ?_
  split
  next field _ _ =>
    -- The element behind the parent is one of the content, so its type may be asked for.
    refine (Follows.lifts _).bind fun parent selected => .returns ⟨allowed.content, ?_⟩
    rintro path rfl
    obtain ⟨particle, declaration, has, inside, named⟩ := parentByField_eq_ok selected
    have member := allowed.content particle has declaration (List.mem_of_find?_eq_some inside)
    exact .selected member named.symm
  next => exact .returns allowed

theorem outlineOf_keeps (keeps : OnwardKeeps law onward other) (place : law.At scope)
    {type : Option ComplexType} (known : ∀ given, type = some given → law.words.type given) :
    law.Keeps (outlineOf context onward scope type) (outlineOf context other scope type)
      (Outline.Allowed law scope) := by
  unfold outlineOf
  split
  · exact .returns ⟨(fun _ has => by cases has), fun _ has => by cases has⟩
  · extract_lets proceed proceedOther
    split
    next given => exact walkOutline_keeps keeps place (known given rfl)
    next =>
      exact (Follows.lifts _).bind fun type found =>
        walkOutline_keeps keeps place (law.words.named (complexType?_of_complexType found))

theorem inherit_keeps (keeps : OnwardKeeps law onward other) (place : law.At scope)
    (adopted : ∀ state entity, law.Holds state →
      state.entities.get? scope.typePath = some entity → ∀ parent : String,
        law.Holds { state with
          entities := state.entities.set scope.typePath { entity with parent := some parent } })
    {parent : String} (asked : law.Asks parent none) :
    law.Keeps (inherit context onward scope parent) (inherit context other scope parent)
      fun _ => True := by
  unfold inherit
  split
  · exact (Follows.lifts _).bind fun type found =>
      keeps.members scope type place (law.words.named (complexType?_of_complexType found))
  · refine (keeps.build _ _ _ asked allBack_nil).bind fun name _ => ?_
    exact modifyEntity_keeps law fun state entity holds found =>
      adopted state entity holds found name

/-! ## What the settings add -/

theorem addBag_keeps (place : law.At scope) :
    law.Keeps (addBag context scope) (addBag context scope) fun _ => True := by
  refine (takeBag_keeps law place).bind fun bag _ => ?_
  split
  · exact .returns trivial
  · exact addField_keeps law place .bag

theorem extraTarget_keeps (keeps : OnwardKeeps law onward other) (target : String) :
    law.Keeps (extraTarget context onward target) (extraTarget context other target)
      fun _ => True := by
  refine .reads fun state holds => ?_
  split
  next path found =>
    split
    next there =>
      refine keeps.build _ _ _ (law.asks_named holds found ?_) allBack_nil
      simpa using there
    next => exact .returns trivial
  next => exact .returns trivial

theorem addExtra_keeps (keeps : OnwardKeeps law onward other) (place : law.At scope)
    (extra : ExtraField) :
    law.Keeps (addExtra context onward scope extra) (addExtra context other scope extra)
      fun _ => True := by
  have kinds : law.Keeps (extraKind context onward extra) (extraKind context other extra)
      fun kind => kind.isMaterialized = true ∧ ∀ repr, kind.repr? = some repr →
        repr = { ScalarRepr.ofKind (extra.kind.getD .text) with maxLength := extra.maxLength } := by
    unfold extraKind
    split
    · refine (extraTarget_keeps keeps _).bind fun entity _ => ?_
      split
      · exact .returns ⟨rfl, fun _ bare => by cases bare⟩
      · exact .returns ⟨rfl, fun _ bare => by cases bare⟩
    · refine .returns ⟨rfl, ?_⟩
      rintro _ ⟨⟩
      rfl
  exact kinds.bind fun kind ⟨materialized, plain⟩ =>
    addField_keeps law place (.extra materialized plain)

/-- What is done for a new entity once its parent is settled. -/
def fill (context : Context) (onward : Onward) (scope : Scope) (content : Option Particle)
    (fields : List Field) : Walk Unit := do
  walkContent context onward scope content
  addBag context scope
  scope.rules.options.addFields.forM (addExtra context onward scope)
  addFields context scope.rules scope.typePath fields
  let inherited := inheritedNumber? (← get) scope.typePath
  modifyEntity context scope.typePath (complete scope.rules inherited)

theorem fill_keeps (keeps : OnwardKeeps law onward other) (place : law.At scope)
    {content : Option Particle} (allowed : ∀ particle, content = some particle →
      ∀ declaration ∈ particle.elements, law.words.member (.element declaration))
    {fields : List Field} (backs : AllBack fields) :
    law.Keeps (fill context onward scope content fields) (fill context other scope content fields)
      fun _ => True := by
  refine (walkContent_keeps keeps place allowed).bind fun _ _ => ?_
  refine (addBag_keeps place).bind fun _ _ => ?_
  refine (Follows.repeats fun extra _ => addExtra_keeps keeps place extra).bind fun _ _ => ?_
  refine (addFields_keeps law backs).bind fun _ _ => ?_
  exact .reads fun state _ => modifyEntity_reshapes law

end Parts

/-! ## Whole entities -/

/-- A law that also holds of new entities, and of those that get a parent: wherever an entity may be
asked for, it may be opened. -/
structure BuildLaw (context : Context) extends WalkLaw context where
  adopted : ∀ {state scope entity}, Holds state → At scope →
    state.entities.get? scope.typePath = some entity → ∀ parent : String,
      Holds { state with
        entities := state.entities.set scope.typePath { entity with parent := some parent } }
  opened : ∀ {state path type}, Holds state → Asks path type → ∀ entity,
    Holds { state with entities := state.entities.set path (.ofTypePath entity path) }
  outermost : ∀ {path type entity rules}, Asks path type →
    context.book.forType entity path = .ok rules → At (.outermost path entity rules)
  asked : ∀ {path type}, Asks path (some type) → words.type type

variable {law : BuildLaw context} {type : Option ComplexType} {fields : List Field}

theorem buildNew_keeps (keeps : OnwardKeeps law.toWalkLaw onward other) {path : String}
    (entity : String) (asked : law.Asks path type) (backs : AllBack fields) :
    law.Keeps (buildNew context onward path entity type fields)
      (buildNew context other path entity type fields) fun _ => True := by
  refine (Follows.changes fun _ holds => law.opened holds asked entity).bind fun _ _ => ?_
  refine (Follows.lifts _).bind fun rules given => ?_
  extract_lets scope
  have place : law.At scope := law.outermost asked given
  refine (outlineOf_keeps keeps place fun _ same => law.asked (same ▸ asked)).bind
    fun outline allowed => ?_
  extract_lets proceed proceedOther
  have goesOn : law.Keeps (proceed ()) (proceedOther ()) fun _ => True :=
    fill_keeps keeps place allowed.content backs
  -- The parent is one that the rules name, or else that of the outline.
  split
  next parent given =>
    refine (inherit_keeps keeps place (fun _ _ holds found => law.adopted holds place found)
      (law.asks place ?_)).bind fun _ _ => goesOn
    rcases (Option.orElse_eq_some _ _ _).mp given with own | ⟨_, outlined⟩
    · exact .configured (by simp [scope, Scope.outermost, EntityOptions.targets, own])
    · exact allowed.parent parent outlined
  next => exact goesOn

theorem buildEntity_keeps (keeps : OnwardKeeps law.toWalkLaw onward other) {path : String}
    (asked : law.Asks path type) (backs : AllBack fields) :
    law.Keeps (buildEntity context onward path type fields)
      (buildEntity context other path type fields) fun _ => True := by
  refine (resolveName_keeps law.toWalkLaw asked).bind fun name _ => ?_
  refine .reads fun state _ => ?_
  extract_lets proceed
  have new : law.Keeps
      (do buildNew context onward path name.entity type fields; proceed ())
      (do buildNew context other path name.entity type fields; proceed ()) fun _ => True :=
    (buildNew_keeps keeps name.entity asked backs).bind fun _ _ => Follows.returns trivial
  -- A path that is built takes the fields; a name that is taken needs the permission to merge.
  split
  · exact (extendBuilt_keeps path backs).bind fun _ _ => Follows.returns trivial
  · split
    · split
      · exact new
      · exact Follows.fails.bind fun _ (impossible : False) => impossible.elim
    · exact new

/-- One level deeper. -/
def Onward.deeper (context : Context) (onward : Onward) : Onward where
  build := buildEntity context onward
  members := walkMembers context onward
  extension := walkExtension context onward

theorem deeper_keeps (keeps : OnwardKeeps law.toWalkLaw onward other) :
    OnwardKeeps law.toWalkLaw (onward.deeper context) (other.deeper context) where
  build _ _ _ asked backs := buildEntity_keeps keeps asked backs
  members _ _ place known := walkMembers_keeps keeps place known
  extension _ _ _ place known has := walkExtension_keeps keeps place known has

theorem onward_zero_keeps (law : WalkLaw context) :
    OnwardKeeps law (Compile.onward context 0) (Compile.onward context 0) where
  build _ _ _ _ _ := .fails
  members _ _ _ _ := .fails
  extension _ _ _ _ _ _ := .fails

theorem onward_keeps (law : BuildLaw context) (levels : Nat) :
    OnwardKeeps law.toWalkLaw (Compile.onward context levels) (Compile.onward context levels) := by
  induction levels with
  | zero => exact onward_zero_keeps law.toWalkLaw
  | succ levels ih => exact deeper_keeps ih

theorem buildRoots_keeps_of {levels more : Nat}
    (keeps : OnwardKeeps law.toWalkLaw (Compile.onward context levels)
      (Compile.onward context more))
    (roots : List (String × ComplexType)) (asked : ∀ root ∈ roots, law.Asks root.1 (some root.2)) :
    law.Keeps (buildRoots context levels roots) (buildRoots context more roots) fun _ => True :=
  .repeats fun root member =>
    (keeps.build _ _ _ (asked root member) allBack_nil).bind fun _ _ => .returns trivial

/-- A build of roots that may be asked for keeps to the law. -/
theorem buildRoots_keeps (law : BuildLaw context) (levels : Nat)
    (roots : List (String × ComplexType)) (asked : ∀ root ∈ roots, law.Asks root.1 (some root.2)) :
    law.Keeps (buildRoots context levels roots) (buildRoots context levels roots) fun _ => True :=
  buildRoots_keeps_of (onward_keeps law levels) roots asked

/-! ## More levels -/

/-- Nothing is asked of a state, and a walk may go on where another one is cut off. -/
def patientLaw (context : Context) : BuildLaw context where
  Holds _ := True
  At _ := True
  words := .all context.index
  Asks _ _ := True
  Found _ _ := True
  Excused failure := ∃ path, failure = .endlessNesting path
  moved _ _ := trivial
  asks _ _ := trivial
  asks_named _ _ _ := trivial
  frame _ _ _ _ _ := trivial
  naming _ _ := trivial
  derives _ _ _ := ⟨trivial, trivial⟩
  added _ _ _ _ _ := trivial
  referredBack _ _ _ := trivial
  reshaped _ _ _ := trivial
  adopted _ _ _ _ := trivial
  opened _ _ _ := trivial
  outermost _ _ := trivial
  asked _ := trivial

theorem onward_keeps_of_le {levels more : Nat} (le : levels ≤ more) :
    OnwardKeeps (patientLaw context).toWalkLaw (Compile.onward context levels)
      (Compile.onward context more) := by
  induction levels generalizing more with
  -- Without a level every step is cut off, and then the other walk may do anything.
  | zero =>
    exact ⟨fun path _ _ _ _ => .of_excused ⟨path, rfl⟩,
      fun scope _ _ _ => .of_excused ⟨scope.typePath, rfl⟩,
      fun scope _ _ _ _ _ => .of_excused ⟨scope.typePath, rfl⟩⟩
  | succ levels ih =>
    obtain ⟨more, rfl⟩ : ∃ below, more = below + 1 := Nat.exists_eq_add_one_of_ne_zero (by omega)
    exact deeper_keeps (ih (Nat.le_of_succ_le_succ le))

/-- A build that is not cut off does the same when it is given more levels. -/
theorem build_of_le {index : Index} {settings : Settings} {levels more : Nat}
    (le : levels ≤ more) :
    build index settings more = build index settings levels ∨
      ∃ path, build index settings levels = .error (.endlessNesting path) := by
  unfold build
  -- The rules and the roots are read without levels.
  cases NameResolver.ofRules settings.typeMap with
  | error failure => exact .inl rfl
  | ok resolver =>
    cases RuleBook.ofSettings settings with
    | error failure => exact .inl rfl
    | ok book =>
      cases settings.compiler.roots.mapM index.resolveRoot with
      | error failure => exact .inl rfl
      | ok roots =>
        let context : Context := ⟨index, settings, book, roots.map (·.1)⟩
        have keeps : (patientLaw context).Keeps (buildRoots context levels roots)
            (buildRoots context more roots) fun _ => True :=
          buildRoots_keeps_of (onward_keeps_of_le le) roots fun _ _ => trivial
        obtain ⟨same | ⟨_, ran, path, rfl⟩, _⟩ := keeps (.start resolver) trivial
        · refine .inl ?_
          change ((buildRoots context more roots).run _ >>= _) =
            ((buildRoots context levels roots).run _ >>= _)
          rw [same]
        · refine .inr ⟨path, ?_⟩
          change ((buildRoots context levels roots).run _ >>= _) = _
          rw [ran]
          rfl

/-- A build that succeeds has read the naming rules, the rules of fields and the roots, and has
built the entities of the roots. -/
theorem build_eq_ok {index : Index} {settings : Settings} {levels : Nat} {book : RuleBook}
    {state : State} (built : build index settings levels = .ok (book, state)) :
    ∃ resolver roots, NameResolver.ofRules settings.typeMap = .ok resolver ∧
      RuleBook.ofSettings settings = .ok book ∧
      settings.compiler.roots.mapM index.resolveRoot = .ok roots ∧
      (buildRoots ⟨index, settings, book, roots.map (·.1)⟩ levels roots).run (.start resolver) =
        .ok ((), state) := by
  obtain ⟨resolver, named, built⟩ := Result.bind_eq_ok.mp built
  obtain ⟨read, rules, built⟩ := Result.bind_eq_ok.mp built
  obtain ⟨roots, selected, built⟩ := Result.bind_eq_ok.mp built
  obtain ⟨⟨_, final⟩, ran, built⟩ := Result.bind_eq_ok.mp built
  obtain ⟨rfl, rfl⟩ := Prod.mk.inj (Result.pure_eq_ok.mp built)
  exact ⟨resolver, roots, named, rules, selected, ran⟩

end EntityGraph.Compile
