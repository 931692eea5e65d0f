import EntityGraph.Proofs.Build.Histories

/-!
# How an entity inherits

The run behind an entity finds the parent in the type: the rules may name an element of the content,
and the type of that element is what the entity inherits from. What the run has settled outlasts it,
so the same holds at the end of a build.
-/
namespace EntityGraph.Compile

open Schema (ComplexType Index Particle)

/-! ## Lasting -/

theorem Outlasts.of_undisturbed {context : Context} {pending later : List String}
    {state final : State} (steps : Steps context ⟨pending, state⟩ ⟨later, final⟩)
    (undisturbed : Undisturbed [] state final) (path : String) : Outlasts path state final := by
  constructor
  · intro other built
    obtain ⟨entity, found⟩ := State.isBuilt_iff.mp built
    obtain ⟨last, foundLast, _⟩ := steps.keeps found
    exact State.isBuilt_iff.mpr ⟨last, foundLast⟩
  · intro entity found
    obtain ⟨last, foundLast, toLast⟩ := steps.keeps found
    obtain ⟨same, foundSame, parent⟩ := undisturbed.parents path List.not_mem_nil entity found
    obtain rfl : last = same := Option.some.inj (foundLast.symm.trans foundSame)
    exact ⟨last, foundLast, toLast, parent⟩

/-- Small changes let the entity of a path grow. -/
def lastingLaw (context : Context) (path : String) (base : State) : WalkLaw context where
  Holds := Outlasts path base
  At _ := True
  words := .all context.index
  Asks _ _ := True
  Found _ _ := True
  moved _ _ := trivial
  asks _ _ := trivial
  asks_named _ _ _ := trivial
  frame holds same _ _ _ := holds.trans (.of_same same)
  naming holds _ := holds.trans (.of_same rfl)
  derives holds _ _ := ⟨holds.trans (.of_same rfl), trivial⟩
  added holds _ found _ inserted := holds.trans (.set_grown found (.of_insertField inserted))
  referredBack holds found inserted := holds.trans (.set_grown found (.of_insertField inserted))
  reshaped holds found same := holds.trans (.set_grown found (.of_same same))

section Runs

variable {context : Context} {names : List NameRule} {pending : List String} {state final : State}
  {scope : Scope} {levels : Nat} {fields : List Field}

/-- Filling an entity leaves its parent alone. -/
theorem fill_outlasts (fits : scope.Fits context ⟨pending, state⟩) (wellFormed : state.WellFormed)
    {content : Option Particle} (backs : AllBack fields)
    (ran : (fill context (Compile.onward context levels) scope content fields).run state =
      .ok ((), final)) : Outlasts scope.typePath state final := by
  have onwardRuns := onward_runs context levels
  obtain ⟨_, walked, ranContent, ran⟩ := run_bind_eq_ok.mp ran
  obtain ⟨toWalked, lastsWalked, _⟩ :=
    walkContent_runs onwardRuns fits content wellFormed _ _ ranContent
  obtain ⟨_, bagged, ranBag, ran⟩ := run_bind_eq_ok.mp ran
  have fitsWalked := toWalked.fits fits
  have wellFormedWalked := toWalked.wellFormed wellFormed
  obtain ⟨toBagged, _⟩ := addBag_runs fitsWalked wellFormedWalked _ _ ranBag
  obtain ⟨_, extended, ranExtras, ran⟩ := run_bind_eq_ok.mp ran
  have extras : Runs context pending pending
      (scope.rules.options.addFields.forM (addExtra context (Compile.onward context levels) scope))
      bagged fun _ _ => True :=
    .repeats (fun _ => True) trivial fun extra configured _ steps _ =>
      addExtra_runs onwardRuns (steps.fits (toBagged.fits fitsWalked)) configured
  obtain ⟨toExtended, lastsExtended, _⟩ :=
    extras (toBagged.wellFormed wellFormedWalked) _ _ ranExtras
  -- The bag is made a field by small changes, under each of which the entity grows.
  let law := lastingLaw context scope.typePath state
  have untilWalked := Outlasts.of_undisturbed toWalked lastsWalked scope.typePath
  have untilBagged : Outlasts scope.typePath state bagged :=
    ((@addBag_keeps context scope law trivial walked untilWalked).2 _ _ ranBag).1
  have lasts := untilBagged.trans (.of_undisturbed toExtended lastsExtended scope.typePath)
  -- So is what is left.
  obtain ⟨_, referred, ranFields, ran⟩ := run_bind_eq_ok.mp ran
  have lastsReferred : Outlasts scope.typePath state referred :=
    ((addFields_keeps law backs extended lasts).2 _ _ ranFields).1
  obtain ⟨_, _, read, ran⟩ := run_bind_eq_ok.mp ran
  cases read
  have completes := @modifyEntity_reshapes context law scope.typePath
    (complete scope.rules (inheritedNumber? referred scope.typePath)) fun _ => rfl
  exact ((completes referred lastsReferred).2 _ _ ran).1

/-! ## The outline -/

/-- The outline of a type with content of its own leaves that content, and its parent is that of the
element that the rules name. -/
structure Outline.ReadsContent (rules : FieldRules) (content : Particle) (outline : Outline) :
    Prop where
  leaves : outline.content = some content
  parent : ∀ field, rules.options.parentField = some field →
    ∃ declaration, content.element? field = some declaration ∧
      outline.parent = Index.effectiveTypeName declaration

theorem walkOutline_readsContent {onward : Onward} {type : ComplexType} {content : Particle}
    {outline : Outline} (has : type.content = some content)
    (ran : (walkOutline context onward scope type).run state = .ok (outline, final)) :
    outline.ReadsContent scope.rules content := by
  obtain ⟨_, described, _, ran⟩ := run_bind_eq_ok.mp ran
  obtain ⟨_, walked, _, ran⟩ := run_bind_eq_ok.mp ran
  -- Content of its own gives the outline no parent, which leaves the choice to the rules.
  obtain ⟨plain, _, ranOutline, ran⟩ := run_bind_eq_ok.mp ran
  rw [Compile.outline, has] at ranOutline
  cases ranOutline
  dsimp only at ran
  cases selected : scope.rules.options.parentField with
  | none =>
    rw [selected] at ran
    cases ran
    exact ⟨rfl, by rw [selected]; nofun⟩
  | some field =>
    rw [selected] at ran
    obtain ⟨parent, _, ranChoice, ran⟩ := run_bind_eq_ok.mp ran
    obtain ⟨chosen, rfl⟩ := run_lift_eq_ok ranChoice
    cases ran
    obtain ⟨particle, declaration, same, inside, named⟩ := parentByField_eq_ok chosen
    cases same
    refine ⟨rfl, fun other same => ?_⟩
    obtain rfl : field = other := Option.some.inj (selected.symm.trans same)
    exact ⟨declaration, inside, named⟩

/-- The definition of a type path is the type that comes with the request, or else the one that the
index has under it. -/
def Defines (index : Index) (path : String) (given : Option ComplexType) (type : ComplexType) :
    Prop :=
  given = some type ∨ given = none ∧ index.complexType? path = some type

theorem Defines.unique {index : Index} {path : String} {given : Option ComplexType}
    {type other : ComplexType} (first : Defines index path given type)
    (second : Defines index path given other) : type = other := by
  rcases first with rfl | ⟨rfl, found⟩
  · rcases second with same | ⟨missing, _⟩
    · exact Option.some.inj same
    · cases missing
  · rcases second with missing | ⟨_, foundOther⟩
    · cases missing
    · exact Option.some.inj (found.symm.trans foundOther)

theorem outlineOf_eq_ok {onward : Onward} {given : Option ComplexType} {outline : Outline}
    (typed : scope.rules.isCustom = false)
    (ran : (outlineOf context onward scope given).run state = .ok (outline, final)) :
    ∃ type, Defines context.index scope.typePath given type ∧
      (walkOutline context onward scope type).run state = .ok (outline, final) := by
  unfold outlineOf at ran
  rw [typed] at ran
  cases given with
  | some type => exact ⟨type, .inl rfl, ran⟩
  | none =>
    obtain ⟨type, _, read, ran⟩ := run_bind_eq_ok.mp ran
    obtain ⟨found, rfl⟩ := run_lift_eq_ok read
    exact ⟨type, .inr ⟨rfl, complexType?_of_complexType found⟩, ran⟩

/-! ## The parent -/

/-- An entity inherits from a type path: it has the entity of that path as its parent; or, if the
rules include the fields of parents, the members of the type have been walked into it. -/
inductive Inherits (context : Context) (names : List NameRule) (rules : FieldRules)
    (path parent : String) (state : State) : Prop
  | linked {entity : Entity} (links : rules.includesParentFields = false)
      (found : state.entities.get? path = some entity)
      (hasParent : entity.parent = some (nameOf names parent).entity)
      (built : state.isBuilt parent = true) : Inherits context names rules path parent state
  | included {type : ComplexType} {levels : Nat} {before after : State} {walked entity : Entity}
      (includes : rules.includesParentFields = true)
      (isType : context.index.complexType? parent = some type)
      (ran : (walkMembers context (Compile.onward context levels)
        (.outermost path (nameOf names path).entity rules) type).run before = .ok ((), after))
      (left : after.entities.get? path = some walked)
      (found : state.entities.get? path = some entity) (kept : Extends walked entity) :
      Inherits context names rules path parent state

theorem Inherits.mono {rules : FieldRules} {path parent : String} {later : State}
    (inherits : Inherits context names rules path parent state)
    (outlasts : Outlasts path state later) : Inherits context names rules path parent later := by
  cases inherits with
  | linked links found hasParent built =>
    obtain ⟨last, foundLast, toLast⟩ := outlasts.grown _ found
    exact .linked links foundLast (toLast.parent.trans hasParent) (outlasts.stays _ built)
  | included includes isType ran left found kept =>
    obtain ⟨last, foundLast, toLast⟩ := outlasts.grown _ found
    exact .included includes isType ran left foundLast (kept.trans toLast.toExtends)

theorem inherit_inherits {path parent : String} {rules : FieldRules}
    (fits : (Scope.outermost path (nameOf names path).entity rules).Fits context ⟨pending, state⟩)
    (wellFormed : state.WellFormed) (named : state.resolver.rules = names)
    (ran : (inherit context (Compile.onward context levels)
      (.outermost path (nameOf names path).entity rules) parent).run state = .ok ((), final)) :
    Inherits context names rules path parent final := by
  unfold inherit at ran
  split at ran
  next includes =>
    obtain ⟨type, _, read, ran⟩ := run_bind_eq_ok.mp ran
    obtain ⟨isType, rfl⟩ := run_lift_eq_ok read
    obtain ⟨steps, _⟩ := (onward_runs context levels).members _ _ _ type fits wellFormed _ _ ran
    obtain ⟨walked, left, _⟩ := (steps.fits fits).named
    -- Without a level left, the walk over the members would have failed.
    cases levels with
    | zero => cases ran
    | succ below =>
      exact .included includes (complexType?_of_complexType isType) ran left left (.refl walked)
  next links =>
    obtain ⟨name, reached, ranBuild, ran⟩ := run_bind_eq_ok.mp ran
    obtain ⟨steps, _, ⟨built, foundParent, rfl⟩, _⟩ := (onward_runs context levels).build pending
      state parent none [] (fun _ member => by cases member) wellFormed _ _ ranBuild
    obtain ⟨entity, found, ran⟩ := entityAt_bind_eq_ok ran
    cases ran
    refine .linked (Bool.eq_false_iff.mpr links) (Table.get?_set_self ..) ?_
      (State.isBuilt_set.mpr (.inr (State.isBuilt_iff.mpr ⟨built, foundParent⟩)))
    have rules : reached.resolver.rules = names := steps.rules.trans named
    rw [← rules, (steps.wellFormed wellFormed).named parent built foundParent]

/-! ## Whole runs -/

/-- Walking the outline of an empty entity leaves it without a parent. -/
theorem outlineOf_orphan {path : String} {given : Option ComplexType} {rules : FieldRules}
    {outline : Outline} (wellFormed : state.WellFormed)
    (empty : state.entities.get? path = some (.ofTypePath (nameOf names path).entity path))
    (read : context.book.forType (nameOf names path).entity path = .ok rules)
    (ran : (outlineOf context (Compile.onward context levels)
      (.outermost path (nameOf names path).entity rules) given).run state = .ok (outline, final)) :
    final.WellFormed ∧ final.resolver.rules = state.resolver.rules ∧
      (Scope.outermost path (nameOf names path).entity rules).Fits context ⟨[path], final⟩ ∧
      ∀ entity, final.entities.get? path = some entity → entity.parent = none := by
  have fits : (Scope.outermost path (nameOf names path).entity rules).Fits context
      ⟨[path], state⟩ := ⟨List.mem_cons_self, ⟨_, empty, rfl⟩, read⟩
  obtain ⟨steps, undisturbed, _⟩ :=
    outlineOf_runs (onward_runs context levels) fits given wellFormed _ _ ran
  refine ⟨steps.wellFormed wellFormed, steps.rules, steps.fits fits, fun entity found => ?_⟩
  obtain ⟨later, foundLater, kept⟩ := undisturbed.parents path List.not_mem_nil _ empty
  obtain rfl : entity = later := Option.some.inj (found.symm.trans foundLater)
  exact kept

/-- A run for a type with content of its own finds the parent by the element that the rules name,
unless they name the parent itself. The entity that it leaves inherits from the type of that
element, if the type has a name. -/
theorem BuildRun.inherits {path : String} {given : Option ComplexType} {before after : State}
    (run : BuildRun context names path given levels before after) :
    ∃ rules, context.book.forType (nameOf names path).entity path = .ok rules ∧
      (rules.isCustom = false → ∃ type, Defines context.index path given type ∧
        (rules.options.parentType = none → ∀ content, type.content = some content →
          ∀ field, rules.options.parentField = some field →
            ∃ declaration, content.element? field = some declaration ∧
              ∀ parent, Index.effectiveTypeName declaration = some parent →
                Inherits context names rules path parent after)) := by
  obtain ⟨fields, backs, ran⟩ := run.ran
  obtain ⟨rules, outline, outlined, settled, read, ranOutline, settles, ranFill⟩ :=
    buildNew_eq_ok ran
  refine ⟨rules, read, fun typed => ?_⟩
  obtain ⟨type, defines, ranWalk⟩ := outlineOf_eq_ok typed ranOutline
  refine ⟨type, defines, fun orphan content has field selected => ?_⟩
  obtain ⟨_, chosen⟩ := walkOutline_readsContent has ranWalk
  obtain ⟨declaration, inside, toParent⟩ := chosen field selected
  refine ⟨declaration, inside, fun parent hasType => ?_⟩
  rw [orphan, toParent, hasType] at settles
  rcases settles with ⟨missing, _⟩ | ⟨_, same, ranInherit⟩
  · cases missing
  cases same
  obtain ⟨wellFormed, sameNames, fits, parentless⟩ := outlineOf_orphan
    (run.wellFormed.opened run.named path) (Table.get?_set_self ..) read ranOutline
  have named := sameNames.trans run.named
  obtain ⟨steps, _⟩ :=
    inherit_runs (onward_runs context levels) fits parent parentless wellFormed _ _ ranInherit
  -- What the parent has come to stays while the entity is filled.
  exact (inherit_inherits fits wellFormed named ranInherit).mono
    (fill_outlasts (steps.fits fits) (steps.wellFormed wellFormed) backs ranFill)

end Runs

end EntityGraph.Compile
