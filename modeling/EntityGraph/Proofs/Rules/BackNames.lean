import EntityGraph.Proofs.Build.Histories
import EntityGraph.Proofs.Rules.Priority

/-!
# Names of back references

A relation to owned rows gives their entity a field that refers back. Its name is chosen before the
rows are walked: that of the owner, or a longer one if their entity is there and has a field of that
name. An entity that is only built for the relation has no fields yet when it is asked, and one that
is under construction may come to a field of the name later. In both cases the field that comes
second is refused.
-/
namespace EntityGraph

namespace Compile

open Schema (ComplexType)

/-! ## Fields that are refused -/

/-- The entity has another materialized field of the name. -/
def Clashes (entity : Entity) (field : Field) : Prop :=
  ∃ known, entity.field? field.name = some known ∧
    (known.kind == field.kind && known.dottedPath == field.dottedPath) = false

theorem clashes_of_field? {entity : Entity} {field known : Field}
    (found : entity.field? field.name = some known) :
    Clashes entity field ↔
      (known.kind == field.kind && known.dottedPath == field.dottedPath) = false := by
  simp only [Clashes, found, Option.some.injEq, exists_eq_left']

/-- A materialized field that has kept its name is refused exactly if there is another one. -/
theorem insertField_eq_error_iff {entity : Entity} {field : Field} {failure : Error}
    (materialized : field.isMaterialized = true) (single : field.coalescedFrom = none) :
    insertField entity field = .error failure ↔
      Clashes entity field ∧ failure = .duplicateField entity.name field.name := by
  cases found : (entity.fields.findIdx? fun known =>
      known.name == field.name && known.isMaterialized).bind
        (fun slot => entity.fields[slot]?.map (slot, ·)) with
  | none =>
    have free : entity.field? field.name = none := find?_of_findIdx? found
    simp [insertField, single, found, Clashes, free]
  | some slot =>
    have known : entity.field? field.name = some slot.2 := find?_of_findIdx? found
    rw [clashes_of_field? known]
    simp only [insertField, single, found, materialized, Bool.not_true, Bool.false_eq_true,
      if_false]
    by_cases same : (slot.2.kind == field.kind && slot.2.dottedPath == field.dottedPath) = true
    · rw [if_pos same]
      simp only [same, Bool.true_eq_false, false_and, reduceCtorEq]
    · rw [if_neg same, Except.error.injEq]
      have other := Bool.eq_false_iff.mpr same
      exact ⟨fun equal => ⟨other, equal.symm⟩, fun refused => refused.2.symm⟩

/-- The rules keep the field, its name is short enough, and the entity has another one of the
name. -/
structure Refuses (context : Context) (rules : FieldRules) (entity : Entity) (field : Field) :
    Prop where
  kept : rules.dropAfterProcessing.contains field.name = false
  short : field.name.length ≤ context.settings.compiler.identifierLimit
  clashes : Clashes entity field

/-- The field as an entity is offered it: with a name for its other end. -/
def offered (state : State) (path : String) (field : Field) : Field :=
  { field with kind := setRelatedName (reverseName? state path field) field.kind }

theorem entityAt_run {context : Context} {path : String} {state : State} {entity : Entity}
    (found : state.entities.get? path = some entity) :
    (entityAt context path).run state = .ok (entity, state) := by
  simp only [entityAt, StateT.run_bind, StateT.run_get, pure_bind, found]
  rfl

/-- What adding a materialized field does to an entity that is there. -/
theorem addField_run {context : Context} {rules : FieldRules} {path : String} {field : Field}
    {state : State} {entity : Entity} (found : state.entities.get? path = some entity)
    (materialized : field.isMaterialized = true) :
    (addField context rules path field).run state =
      if rules.dropAfterProcessing.contains field.name then .ok ((), state)
      else if field.name.length > context.settings.compiler.identifierLimit then
        .error (.identifierTooLong (path ++ "." ++ field.dottedPath) field.name
          context.settings.compiler.identifierLimit)
      else (insertField entity (offered state path field)).map fun after =>
        ((), { state with entities := state.entities.set path after }) := by
  rw [addField, StateT.run_bind, entityAt_run found]
  simp only [materialized, Bool.true_and, decide_eq_true_eq]
  split
  · rfl
  · split
    · rfl
    · change StateT.run ((liftM (insertField entity (offered state path field)) : Walk Entity) >>=
        fun after => modify fun state =>
          { state with entities := state.entities.set path after }) state = _
      cases insertField entity (offered state path field) <;> rfl

theorem offered_isMaterialized {state : State} {path : String} {field : Field} :
    (offered state path field).isMaterialized = field.isMaterialized :=
  FieldKind.isMaterialized_of_shape (FieldKind.shape_setRelatedName _ _)

/-- Adding a materialized field that has kept its name fails as a duplicate exactly if the entity
refuses it. -/
theorem addField_eq_duplicate_iff {context : Context} {rules : FieldRules} {path : String}
    {field : Field} {state : State} {entity : Entity}
    (found : state.entities.get? path = some entity) (materialized : field.isMaterialized = true)
    (single : field.coalescedFrom = none) {owner name : String} :
    (addField context rules path field).run state = .error (.duplicateField owner name) ↔
      Refuses context rules entity (offered state path field) ∧ owner = entity.name ∧
        name = field.name := by
  have inserted := @insertField_eq_error_iff entity (offered state path field)
    (.duplicateField owner name) (offered_isMaterialized.trans materialized) single
  rw [addField_run found materialized]
  split
  next leftOut =>
    refine ⟨nofun, fun ⟨refuses, _⟩ => ?_⟩
    exact absurd (leftOut.symm.trans refuses.kept) nofun
  next kept =>
    split
    next long =>
      refine ⟨fun fails => ?_, fun ⟨refuses, _⟩ => absurd refuses.short (Nat.not_le.mpr long)⟩
      cases Except.error.inj fails
    next short =>
      have through : ∀ outcome : Result Entity, ∀ done : Entity → Unit × State,
          outcome.map done = .error (.duplicateField owner name) ↔
            outcome = .error (.duplicateField owner name) := by
        intro outcome done
        cases outcome <;> simp [Except.map]
      rw [through, inserted, Error.duplicateField.injEq]
      refine ⟨fun ⟨clashes, same⟩ => ⟨⟨?_, Nat.not_lt.mp short, clashes⟩, same⟩,
        fun ⟨refuses, same⟩ => ⟨refuses.clashes, same⟩⟩
      exact Bool.eq_false_iff.mpr kept

/-! ## Entities with and without a further field -/

theorem run_bind_eq_error {α β : Type} {first : Walk α} {next : α → Walk β} {state : State}
    {failure : Error} :
    (first >>= next).run state = .error failure ↔ first.run state = .error failure ∨
      ∃ value middle, first.run state = .ok (value, middle) ∧
        (next value).run middle = .error failure := by
  rw [StateT.run_bind, Result.bind_eq_error]
  exact or_congr_right ⟨fun ⟨(value, middle), ran, fails⟩ => ⟨value, middle, ran, fails⟩,
    fun ⟨value, middle, ran, fails⟩ => ⟨(value, middle), ran, fails⟩⟩

/-- Changing an entity never fails as a duplicate. -/
theorem modifyEntity_ne_duplicate {context : Context} {path : String} {change : Entity → Entity}
    {state : State} {owner name : String} :
    (modifyEntity context path change).run state ≠ .error (.duplicateField owner name) := by
  intro fails
  rcases run_bind_eq_error.mp fails with fails | ⟨_, _, _, fails⟩
  · simp only [entityAt, StateT.run_bind, StateT.run_get, pure_bind] at fails
    split at fails <;> cases fails
  · cases fails

/-- Filling an entity, up to the fields that are added to it last. -/
def fillOwn (context : Context) (onward : Onward) (scope : Scope) (outline : Outline) :
    Walk Unit := do
  match scope.rules.options.parentType <|> outline.parent with
  | some parent => inherit context onward scope parent
  | none => pure ()
  walkContent context onward scope outline.content
  addBag context scope
  scope.rules.options.addFields.forM (addExtra context onward scope)

/-- Building a new entity, up to these fields. -/
def begin (context : Context) (onward : Onward) (path entity : String) (type : Option ComplexType) :
    Walk FieldRules := do
  modify fun state =>
    { state with entities := state.entities.set path (.ofTypePath entity path) }
  let rules ← context.book.forType entity path
  let scope := Scope.outermost path entity rules
  fillOwn context onward scope (← outlineOf context onward scope type)
  return rules

/-- What is left to be done for a new entity. -/
def conclude (context : Context) (path : String) (fields : List Field) (rules : FieldRules) :
    Walk Unit := do
  addFields context rules path fields
  let inherited := inheritedNumber? (← get) path
  modifyEntity context path (complete rules inherited)

theorem buildNew_eq (context : Context) (onward : Onward) (path entity : String)
    (type : Option ComplexType) (fields : List Field) :
    buildNew context onward path entity type fields =
      begin context onward path entity type >>= conclude context path fields := by
  unfold buildNew begin fillOwn conclude
  simp only [bind_assoc, pure_bind]
  congr 1
  funext _
  congr 1
  funext rules
  congr 1
  funext outline
  have same : (Scope.outermost path entity rules).rules = rules := rfl
  simp only [same]
  generalize (rules.options.parentType <|> outline.parent) = parent
  cases parent <;> simp only [bind_assoc]

section

variable {context : Context} {onward : Onward} {path entity : String} {type : Option ComplexType}
  {state after : State} {rules : FieldRules} {field : Field}

theorem addFields_singleton : addFields context rules path [field] =
    addField context rules path field := by
  simp [addFields]

theorem begin_eq_ok (ran : (begin context onward path entity type).run state = .ok (rules, after)) :
    context.book.forType entity path = .ok rules := by
  obtain ⟨_, _, put, ran⟩ := run_bind_eq_ok.mp ran
  obtain ⟨read, _, lifted, ran⟩ := run_bind_eq_ok.mp ran
  obtain ⟨given, rfl⟩ := run_lift_eq_ok lifted
  obtain ⟨_, _, _, ran⟩ := run_bind_eq_ok.mp ran
  obtain ⟨_, _, _, ran⟩ := run_bind_eq_ok.mp ran
  cases ran
  exact given

/-- Adding one more field at the end fails as a duplicate exactly if the entity refuses it. -/
theorem conclude_eq_duplicate_iff {child : Entity} (found : state.entities.get? path = some child)
    (materialized : field.isMaterialized = true) (single : field.coalescedFrom = none)
    {owner name : String} :
    (conclude context path [field] rules).run state = .error (.duplicateField owner name) ↔
      Refuses context rules child (offered state path field) ∧ owner = child.name ∧
        name = field.name := by
  rw [← addField_eq_duplicate_iff found materialized single, conclude, run_bind_eq_error]
  rw [addFields_singleton]
  refine or_iff_left ?_
  rintro ⟨_, middle, _, fails⟩
  exact modifyEntity_ne_duplicate fails

/-- A new entity that gets no further field is completed, and its fields are left alone. -/
theorem conclude_nil_eq_ok
    (ran : (conclude context path [] rules).run state = .ok ((), after)) :
    ∃ child closed, state.entities.get? path = some child ∧ after.entities.get? path = some closed ∧
      closed.name = child.name ∧ closed.fields = child.fields := by
  obtain ⟨_, _, none, ran⟩ := run_bind_eq_ok.mp ran
  cases none
  obtain ⟨_, _, reading, ran⟩ := run_bind_eq_ok.mp ran
  cases reading
  obtain ⟨child, found, ran⟩ := entityAt_bind_eq_ok ran
  cases ran
  exact ⟨child, _, found, Table.get?_set_self _ _ _, rfl, rfl⟩

theorem Refuses.of_same {child other : Entity} (same : other.fields = child.fields)
    (refuses : Refuses context rules child field) : Refuses context rules other field := by
  obtain ⟨kept, short, known, found, differs⟩ := refuses
  exact ⟨kept, short, known, by rwa [Entity.field?, same], differs⟩

/-- What building an entity comes down to, once its name is known. -/
def buildNamed (context : Context) (onward : Onward) (path : String) (type : Option ComplexType)
    (fields : List Field) (name : ResolvedName) (state : State) : Walk Unit :=
  if state.isBuilt path then extendBuilt context path fields
  else
    match state.entityNamed? name.entity with
    | some existing =>
      if name.merge then buildNew context onward path name.entity type fields
      else throw (.duplicateEntity name.entity path (", ".intercalate existing.sourceTypes))
    | none => buildNew context onward path name.entity type fields

theorem buildEntity_eq (fields : List Field) : buildEntity context onward path type fields = do
    let name ← resolveName path
    buildNamed context onward path type fields name (← get)
    return name.entity := by
  unfold buildEntity buildNamed
  congr 1
  funext name
  congr 1
  funext state
  split
  · rfl
  · cases state.entityNamed? name.entity with
    | none => rfl
    | some existing => cases name.merge <;> rfl

/-- An entity that is there refuses a field when it is extended by it. -/
theorem extendBuilt_eq_duplicate_iff {child : Entity}
    (found : state.entities.get? path = some child)
    (read : context.book.forType child.name path = .ok rules)
    (materialized : field.isMaterialized = true) (single : field.coalescedFrom = none)
    {owner name : String} :
    (extendBuilt context path [field]).run state = .error (.duplicateField owner name) ↔
      Refuses context rules child (offered state path field) ∧ owner = child.name ∧
        name = field.name := by
  rw [← addField_eq_duplicate_iff found materialized single]
  have opens : (extendBuilt context path [field]).run state = (do
      addField context rules path field
      modifyEntity context path Entity.close).run state := by
    change (entityAt context path >>= fun entity =>
      (liftM (context.book.forType entity.name path) : Walk FieldRules) >>= fun rules =>
        addFields context rules path [field] >>= fun _ =>
          modifyEntity context path Entity.close).run state = _
    rw [StateT.run_bind, entityAt_run found, ← addFields_singleton]
    change ((liftM (context.book.forType child.name path) : Walk FieldRules) >>= fun rules =>
      addFields context rules path [field] >>= fun _ =>
        modifyEntity context path Entity.close).run state = _
    rw [read]
    rfl
  rw [opens, run_bind_eq_error]
  refine or_iff_left ?_
  rintro ⟨_, middle, _, fails⟩
  exact modifyEntity_ne_duplicate fails

/-- A new entity refuses a further field if it does so as it is built without it. -/
theorem buildNew_eq_duplicate_iff {child : Entity}
    (alone : (buildNew context onward path entity type []).run state = .ok ((), after))
    (found : after.entities.get? path = some child) (named : child.name = entity)
    (read : context.book.forType entity path = .ok rules)
    (materialized : field.isMaterialized = true) (single : field.coalescedFrom = none)
    (settled : ∀ state, offered state path field = field) {owner name : String} :
    (buildNew context onward path entity type [field]).run state =
        .error (.duplicateField owner name) ↔
      Refuses context rules child field ∧ owner = entity ∧ name = field.name := by
  rw [buildNew_eq] at alone ⊢
  obtain ⟨given, begun, ranBegin, ranConclude⟩ := run_bind_eq_ok.mp alone
  obtain rfl : given = rules := Except.ok.inj ((begin_eq_ok ranBegin).symm.trans read)
  obtain ⟨own, closed, foundOwn, foundClosed, name_eq, fields_eq⟩ := conclude_nil_eq_ok ranConclude
  obtain rfl := Option.some.inj (foundClosed.symm.trans found)
  have concludes : (conclude context path [field] given).run begun =
      .error (.duplicateField owner name) ↔ _ :=
    conclude_eq_duplicate_iff foundOwn materialized single
  rw [settled, ← name_eq, named] at concludes
  have goesOn : (begin context onward path entity type >>= conclude context path [field]).run
      state = (conclude context path [field] given).run begun := by
    rw [StateT.run_bind, ranBegin]
    rfl
  rw [goesOn, concludes]
  exact and_congr_left fun _ => ⟨.of_same fields_eq, .of_same fields_eq.symm⟩

theorem buildNamed_eq_duplicate_iff {resolved : ResolvedName} {child : Entity}
    (alone : (buildNamed context onward path type [] resolved state).run state = .ok ((), after))
    (found : after.entities.get? path = some child) (named : child.name = resolved.entity)
    (read : context.book.forType resolved.entity path = .ok rules)
    (materialized : field.isMaterialized = true) (single : field.coalescedFrom = none)
    (settled : ∀ state, offered state path field = field) {owner name : String} :
    (buildNamed context onward path type [field] resolved state).run state =
        .error (.duplicateField owner name) ↔
      Refuses context rules child field ∧ owner = resolved.entity ∧ name = field.name := by
  unfold buildNamed at alone ⊢
  split at alone
  next built =>
    cases alone
    rw [if_pos built, extendBuilt_eq_duplicate_iff found (named ▸ read) materialized single,
      settled, named]
  next fresh =>
    rw [if_neg fresh]
    have new (ran : (buildNew context onward path resolved.entity type []).run state =
        .ok ((), after)) : (buildNew context onward path resolved.entity type [field]).run state =
          .error (.duplicateField owner name) ↔ _ :=
      buildNew_eq_duplicate_iff ran found named read materialized single settled
    generalize state.entityNamed? resolved.entity = existing at alone ⊢
    cases existing with
    | none => exact new alone
    | some existing =>
      dsimp only at alone ⊢
      split at alone
      next merge =>
        rw [if_pos merge]
        exact new alone
      next => cases alone

/-- Building an entity with one more field fails as a duplicate exactly if the entity, as it is
built without the field, refuses it. -/
theorem buildEntity_eq_duplicate_iff {levels : Nat} {name : String} (wellFormed : state.WellFormed)
    (materialized : field.isMaterialized = true) (single : field.coalescedFrom = none)
    (settled : ∀ state, offered state path field = field)
    (alone : (buildEntity context (Compile.onward context levels) path type []).run state =
      .ok (name, after))
    (read : context.book.forType name path = .ok rules) :
    ∃ child, after.entities.get? path = some child ∧ child.name = name ∧
      (∀ known, state.entities.get? path = some known → known = child) ∧
      ∀ owner fieldName,
        (buildEntity context (Compile.onward context levels) path type [field]).run state =
            .error (.duplicateField owner fieldName) ↔
          Refuses context rules child field ∧ owner = name ∧ fieldName = field.name := by
  have runs : Runs context [] [] (buildEntity context (Compile.onward context levels) path type [])
      state _ := buildEntity_runs (onward_runs context levels) path type (by simp)
  obtain ⟨_, _, isBuilt⟩ := runs wellFormed _ _ alone
  obtain ⟨child, found, named⟩ := isBuilt.named
  -- The name and the state in which the entity is looked for do not depend on the fields.
  obtain ⟨resolved, middle, resolves, kept⟩ : ∃ resolved middle,
      (resolveName path).run state = .ok (resolved, middle) ∧ middle.entities = state.entities :=
    ⟨_, _, rfl, rfl⟩
  have fails (failure : Error) : (buildEntity context (Compile.onward context levels) path type
      [field]).run state = .error failure ↔ (buildNamed context (Compile.onward context levels) path
        type [field] resolved middle).run middle = .error failure := by
    rw [buildEntity_eq, StateT.run_bind, resolves]
    change ((buildNamed context (Compile.onward context levels) path type [field] resolved
      middle).run middle >>= fun done => pure (resolved.entity, done.2)) = _ ↔ _
    rw [Result.bind_eq_error]
    simp only [Result.pure_ne_error, and_false, exists_false, or_false]
  have ran : (buildNamed context (Compile.onward context levels) path type [] resolved middle).run
      middle = .ok ((), after) ∧ resolved.entity = name := by
    rw [buildEntity_eq, StateT.run_bind, resolves] at alone
    change ((buildNamed context (Compile.onward context levels) path type [] resolved
      middle).run middle >>= fun done => pure (resolved.entity, done.2)) = _ at alone
    obtain ⟨⟨_, _⟩, ran, same⟩ := Result.bind_eq_ok.mp alone
    cases same
    exact ⟨ran, rfl⟩
  obtain ⟨ran, rfl⟩ := ran
  refine ⟨child, found, named, ?_, fun owner fieldName => (fails _).trans ?_⟩
  · intro known knownFound
    have built : middle.isBuilt path = true := State.isBuilt_iff.mpr ⟨known, kept ▸ knownFound⟩
    rw [buildNamed, if_pos built] at ran
    cases ran
    exact Option.some.inj (knownFound.symm.trans (kept ▸ found))
  · exact buildNamed_eq_duplicate_iff ran found named read materialized single settled

end

/-! ## Back references -/

/-- The field by which the rows of a relation refer back, under the name that is chosen for it. -/
def backOf (state : State) (scope : Scope) (site : Site) (oneToOne : Bool) (path : String) :
    Field :=
  backReference scope.entity site.name (reverseFieldName state scope site path) oneToOne

theorem offered_backReference (path owner relation name : String) (oneToOne : Bool)
    (state : State) :
    offered state path (backReference owner relation name oneToOne) =
      backReference owner relation name oneToOne := by
  rw [offered, reverseName?_backReference]
  rfl

theorem addReverse_eq_error {context : Context} {onward : Onward} {scope : Scope} {site : Site}
    {oneToOne : Bool} {target : Target} {state : State} {failure : Error}
    (fails : (onward.build target.path target.type
      [backOf state scope site oneToOne target.path]).run state = .error failure) :
    (addReverse context onward scope site oneToOne target).run state = .error failure := by
  refine run_bind_eq_error.mpr (.inr ⟨state, state, rfl, ?_⟩)
  exact run_bind_eq_error.mpr (.inl fails)

/-- The name of a back reference to an entity that is there is free, unless the entity has the other
end of a relation of the same name, or fields of both names that are tried. -/
theorem reverseFieldName_cases {state : State} {scope : Scope} {site : Site} {path : String}
    {child : Entity} (found : state.entities.get? path = some child) :
    child.field? (reverseFieldName state scope site path) = none ∨
      ∃ first, child.field? (Text.snakeCase scope.entity) = some first ∧
        (isOtherEnd site.name first = true ∨ reverseFieldName state scope site path =
          Text.snakeCase scope.entity ++ "_" ++ site.name) := by
  simp only [reverseFieldName, found, Option.bind_some]
  cases taken : child.field? (Text.snakeCase scope.entity) with
  | none => exact .inl taken
  | some first =>
    refine .inr ⟨first, rfl, ?_⟩
    cases other : isOtherEnd site.name first with
    | true => exact .inl rfl
    | false => exact .inr (by simp [other])

/-- Building the rows of a relation fails as a duplicate on account of the back reference exactly if
their entity, as it is built without one, refuses it. The name that is chosen is that of the owner
if the entity is not there yet, whatever fields it is going to have. If it is there, the name is
free unless the entity has the other end of a relation of the same name, or fields of both names
that are tried. Later fields of an entity that is under construction are refused in the same
way. -/
theorem back_reference_refused_iff {context : Context} {levels : Nat} {state after : State}
    (wellFormed : state.WellFormed) (scope : Scope) (site : Site) (oneToOne : Bool)
    {target : Target} {name : String} {rules : FieldRules}
    (alone : ((onward context levels).build target.path target.type []).run state =
      .ok (name, after))
    (read : context.book.forType name target.path = .ok rules) :
    let owner := Text.snakeCase scope.entity
    let back := backOf state scope site oneToOne target.path
    ∃ child, after.entities.get? target.path = some child ∧ child.name = name ∧
      (∀ entity field, ((onward context levels).build target.path target.type [back]).run state =
          .error (.duplicateField entity field) ↔
        Refuses context rules child back ∧ entity = name ∧ field = back.name) ∧
      (Refuses context rules child back →
        (addReverse context (onward context levels) scope site oneToOne target).run state =
          .error (.duplicateField name back.name)) ∧
      (state.entities.get? target.path = none → back.name = owner) ∧
      (∀ known, state.entities.get? target.path = some known → known = child ∧
        (child.field? back.name = none ∨ ∃ first, child.field? owner = some first ∧
          (isOtherEnd site.name first = true ∨ back.name = owner ++ "_" ++ site.name))) ∧
      ∀ later grown field, later.entities.get? target.path = some grown →
        field.isMaterialized = true → field.coalescedFrom = none → ∀ entity fieldName,
          (addField context rules target.path field).run later =
              .error (.duplicateField entity fieldName) ↔
            Refuses context rules grown (offered later target.path field) ∧ entity = grown.name ∧
              fieldName = field.name := by
  intro owner back
  cases levels with
  | zero => cases alone
  | succ levels =>
    obtain ⟨child, found, named, kept, fails⟩ := buildEntity_eq_duplicate_iff wellFormed
      (show back.isMaterialized = true from rfl) (show back.coalescedFrom = none from rfl)
      (offered_backReference target.path _ _ _ _) alone read
    refine ⟨child, found, named, fails, fun refuses => ?_, fun missing => ?_, fun known there => ?_,
      fun later grown field there materialized single entity fieldName =>
        addField_eq_duplicate_iff there materialized single⟩
    · exact addReverse_eq_error ((fails _ _).mpr ⟨refuses, rfl, rfl⟩)
    · change reverseFieldName state scope site target.path = owner
      simp [reverseFieldName, missing, owner]
    · obtain rfl := kept known there
      exact ⟨rfl, reverseFieldName_cases there⟩

/-! ## Owners and their rows -/

/-- Owners of rows that have these members. -/
def ownedRows (members : List (String × String × Schema.MaxOccurs)) : Schema.Index :=
  .ofSequences [("Owner", [("note", "xs:string", .one), ("row", "Row", .unbounded)]),
    ("Row", members)]

end Compile

open Compile

/-- Rows that are owned, whatever the roots are. -/
def owningRows (roots : List String) : Settings :=
  { settingsOf roots with
    entities := [⟨"Owner", { EntityOptions.none with oneToManyFields := ["row"] }, []⟩] }

/-- A compilation in which an owner has been opened. -/
def ownedRowsContext : Context :=
  ⟨ownedRows [("owner", "xs:string", .one)], owningRows ["Owner"],
    (RuleBook.ofSettings (owningRows ["Owner"])).toOption.getD default, ["Owner"]⟩

/-- The rows of an owner. -/
def rowSite : Site := ⟨"row", "row", none, false, none⟩

/-- Rows that are built for their relation refuse to refer back under the name of a field of
theirs. -/
theorem back_reference_refused_iff_of_rows :
    let scope := Scope.outermost "Owner" "Owner" .plain
    ∃ after, ((onward ownedRowsContext 2).build "Row" none []).run ownerOpened =
        .ok ("Row", after) ∧
      ∃ rules child, ownedRowsContext.book.forType "Row" "Row" = .ok rules ∧
        after.entities.get? "Row" = some child ∧
        Refuses ownedRowsContext rules child (backOf ownerOpened scope rowSite false "Row") ∧
        (addReverse ownedRowsContext (onward ownedRowsContext 2) scope rowSite false
          ⟨"Row", none⟩).run ownerOpened = .error (.duplicateField "Row" "owner") := by
  intro scope
  have evaluated : (((onward ownedRowsContext 2).build "Row" none []).run ownerOpened).toOption.map
      (fun done => (done.1, (done.2.entities.get? "Row").bind fun child =>
        (child.field? "owner").map (·.dottedPath))) = some ("Row", some "owner") := by
    decide +kernel
  obtain ⟨⟨name, after⟩, alone, seen⟩ := Result.exists_ok_of_map evaluated
  obtain ⟨rfl, has⟩ := Prod.mk.inj seen
  have keeps : (ownedRowsContext.book.forType "Row" "Row").toOption.map
      (·.dropAfterProcessing.contains "owner") = some false := by decide
  obtain ⟨rules, read, kept⟩ := Result.exists_ok_of_map keeps
  let target : Target := ⟨"Row", none⟩
  have built : ((onward ownedRowsContext 2).build target.path target.type []).run ownerOpened =
      .ok ("Row", after) := alone
  obtain ⟨child, found, _, _, refused, fresh, _⟩ :=
    back_reference_refused_iff ownerOpened_wellFormed scope rowSite false built read
  have name : (backOf ownerOpened scope rowSite false "Row").name = "owner" := by decide
  have refuses : Refuses ownedRowsContext rules child
      (backOf ownerOpened scope rowSite false "Row") := by
    simp only [show after.entities.get? "Row" = some child from found, Option.bind_some] at has
    obtain ⟨known, taken, path⟩ := Option.map_eq_some_iff.mp has
    refine ⟨name ▸ kept, name ▸ by decide, known, name ▸ taken, ?_⟩
    have apart : (known.dottedPath == "") = false := by rw [path]; rfl
    exact Bool.and_eq_false_imp.mpr fun _ => apart
  exact ⟨after, alone, rules, child, read, found, refuses, name ▸ refused refuses⟩

/-- A back reference is refused whether the rows are built for the relation, are there already, or
are under construction. -/
theorem back_reference_duplicated :
    let text (name : String) : String × String × Schema.MaxOccurs := (name, "xs:string", .one)
    compile (ownedRows [text "owner"]) (owningRows ["Owner"]) =
        .error (.duplicateField "Row" "owner") ∧
      compile (ownedRows [text "owner", text "owner_row"]) (owningRows ["Row", "Owner"]) =
        .error (.duplicateField "Row" "owner_row") ∧
      compile (ownedRows [("holder", "Owner", .one), text "owner"]) (owningRows ["Row"]) =
        .error (.duplicateField "Row" "owner") ∧
      ∃ graph, compile (ownedRows [text "other"]) (owningRows ["Owner"]) = .ok graph := by
  intro text
  refine ⟨?_, ?_, ?_, ?_⟩
  · exact Result.eq_error_of_failure? (by decide +kernel)
  · exact Result.eq_error_of_failure? (by decide +kernel)
  · exact Result.eq_error_of_failure? (by decide +kernel)
  · exact Result.isSome_toOption.mp (by decide +kernel)

end EntityGraph
