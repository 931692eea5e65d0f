import EntityGraph.Proofs.Build.Inheritance
import EntityGraph.Proofs.Build.Mirroring

/-!
# Runs of types and of what they are flattened into

Where the rules only flatten, the run for a type without extension and simple content walks its
attributes and its content, and then adds nothing but what refers back to owners. If the content is
a sequence of one element that is flattened, this comes to a walk over the members of the element's
type. So the run for that type and the run for the entity it is flattened into are two walks over
the same members.
-/
namespace EntityGraph.Compile

open Schema (ComplexType Element Index Member Particle)

section Runs

variable {context : Context} {names : List NameRule} {onward : Onward} {scope : Scope}
  {state final : State} {type : ComplexType} {outline : Outline} {fields : List Field}

/-! ## The parts of a run -/

/-- Fields that refer back are all that is added. -/
theorem addFields_addsBacks {rules : FieldRules} {path : String} (backs : AllBack fields)
    (ran : (addFields context rules path fields).run state = .ok ((), final)) :
    AddsBacks (state.fieldsAt path) (final.fieldsAt path) := by
  induction fields generalizing state with
  | nil =>
    cases ran
    exact .refl _
  | cons field rest ih =>
    change ((addField context rules path field >>= fun _ =>
      addFields context rules path rest) : Walk Unit).run state = _ at ran
    obtain ⟨_, middle, ranField, ran⟩ := run_bind_eq_ok.mp ran
    refine .trans ?_ (ih (fun other member => backs other (List.mem_cons_of_mem _ member)) ran)
    obtain ⟨owner, relation, name, oneToOne, rfl⟩ := backs field List.mem_cons_self
    rcases addField_eq_ok ranField with ⟨_, rfl⟩ | ⟨entity, after, found, inserted, rfl⟩
    · exact .refl _
    · rw [reverseName?_backReference] at inserted
      rw [State.fieldsAt_of_get? found, State.fieldsAt_of_get? (Table.get?_set_self ..)]
      exact .of_insertField inserted

/-- A change of an entity that leaves its fields alone. -/
theorem modifyEntity_fieldsAt {path : String} {change : Entity → Entity}
    (ran : (modifyEntity context path change).run state = .ok ((), final))
    (same : ∀ entity, (change entity).fields = entity.fields := by intro entity; rfl) :
    ∃ entity, final = { state with entities := state.entities.set path entity } ∧
      entity.fields = state.fieldsAt path := by
  obtain ⟨entity, found, ran⟩ := entityAt_bind_eq_ok ran
  cases ran
  exact ⟨change entity, rfl, (same entity).trans (State.fieldsAt_of_get? found).symm⟩

/-- Where the rules only flatten and no bag has begun, filling an entity walks its content, and adds
no more than what refers back. -/
theorem fill_of_onlyFlattens (only : scope.rules.OnlyFlattens) {content : Option Particle}
    (backs : AllBack fields)
    (ran : (fill context onward scope content fields).run state = .ok ((), final)) :
    ∃ walked, (walkContent context onward scope content).run state = .ok ((), walked) ∧
      (walked.bags.get? scope.typePath = none →
        AddsBacks (walked.fieldsAt scope.typePath) (final.fieldsAt scope.typePath)) := by
  obtain ⟨_, walked, ranContent, ran⟩ := run_bind_eq_ok.mp ran
  refine ⟨walked, ranContent, fun unbagged => ?_⟩
  obtain ⟨_, bagged, ranBag, ran⟩ := run_bind_eq_ok.mp ran
  have untouched : bagged.entities = walked.entities := by
    obtain ⟨bag, taken, ranTake, ranBag⟩ := run_bind_eq_ok.mp ranBag
    cases ranTake
    rw [unbagged] at ranBag
    cases ranBag
    rfl
  obtain ⟨_, extended, ranExtras, ran⟩ := run_bind_eq_ok.mp ran
  have noExtras : scope.rules.options.addFields = [] := by
    obtain ⟨_, _, _, rules⟩ := only
    rw [rules]
    rfl
  rw [noExtras] at ranExtras
  cases ranExtras
  obtain ⟨_, referred, ranFields, ran⟩ := run_bind_eq_ok.mp ran
  obtain ⟨_, _, read, ran⟩ := run_bind_eq_ok.mp ran
  cases read
  obtain ⟨entity, rfl, same⟩ := modifyEntity_fieldsAt ran
  rw [State.fieldsAt_set, if_pos rfl, same, ← State.fieldsAt_of_same untouched]
  exact addFields_addsBacks backs ranFields

/-- Where the rules only flatten, walking the outline of a type without extension and simple content
walks its attributes, and leaves its content to be walked. -/
theorem walkOutline_of_onlyFlattens (only : scope.rules.OnlyFlattens)
    (noExtension : type.extension = none) (noSimpleContent : type.simpleContent = none)
    (ran : (walkOutline context onward scope type).run state = .ok (outline, final)) :
    outline = ⟨none, type.content⟩ ∧ ∃ entity attributed notices,
      entity.fields = state.fieldsAt scope.typePath ∧
      (walkAttributes context onward scope type.attributes).run
        { state with entities := state.entities.set scope.typePath entity } =
          .ok ((), attributed) ∧
      final = attributed.addNotices notices := by
  have unselected : scope.rules.options.parentField = none := by
    obtain ⟨_, _, _, rules⟩ := only
    rw [rules]
    rfl
  obtain ⟨_, described, ranDescription, ran⟩ := run_bind_eq_ok.mp ran
  obtain ⟨entity, rfl, same⟩ := modifyEntity_fieldsAt ranDescription
  obtain ⟨_, attributed, ranAttributes, ran⟩ := run_bind_eq_ok.mp ran
  obtain ⟨outlined, reached, ranOutline, ran⟩ := run_bind_eq_ok.mp ran
  unfold Compile.outline at ranOutline
  rw [noExtension, noSimpleContent] at ranOutline
  cases has : type.content with
  | some content =>
    rw [has] at ranOutline
    cases ranOutline
    dsimp only at ran
    rw [unselected] at ran
    cases ran
    exact ⟨rfl, entity, final, [], same, ranAttributes, by simp [State.addNotices]⟩
  | none =>
    rw [has] at ranOutline
    obtain ⟨_, noticed, ranNotice, ranOutline⟩ := run_bind_eq_ok.mp ranOutline
    cases ranNotice
    cases ranOutline
    dsimp only at ran
    rw [unselected] at ran
    cases ran
    exact ⟨rfl, entity, attributed, _, same, ranAttributes, rfl⟩

/-- A run for a type without extension and simple content, where the rules only flatten. It begins
with an honest memory of scalars, and without a bag. -/
structure CleanRun (context : Context) (names : List NameRule) (path : String) (type : ComplexType)
    (rules : FieldRules) (before after : State) : Prop where
  run : ∃ given levels, BuildRun context names path given levels before after ∧
    Defines context.index path given type
  read : context.book.forType (nameOf names path).entity path = .ok rules
  only : rules.OnlyFlattens
  noExtension : type.extension = none
  noSimpleContent : type.simpleContent = none
  honest : before.scalars.IsHonest ⟨context.index, context.settings⟩
  unbagged : path ∉ before.bags.names

/-- The parts of a run: the attributes and the content of the type are walked one after the other,
from an entity without fields. -/
theorem CleanRun.parts {path : String} {rules : FieldRules} {before after : State}
    (clean : CleanRun context names path type rules before after) :
    ∃ levels entities attributed notices walked,
      let scope := Scope.outermost path (nameOf names path).entity rules
      State.fieldsAt { before with entities } path = [] ∧
      (walkAttributes context (Compile.onward context levels) scope type.attributes).run
        { before with entities } = .ok ((), attributed) ∧
      (walkContent context (Compile.onward context levels) scope type.content).run
        (attributed.addNotices notices) = .ok ((), walked) ∧
      (walked.bags.get? path = none →
        AddsBacks (walked.fieldsAt path) (after.fieldsAt path)) := by
  obtain ⟨given, levels, run, defines⟩ := clean.run
  obtain ⟨fields, backs, ran⟩ := run.ran
  obtain ⟨same, outline, outlined, settled, readAgain, ranOutline, settles, ranFill⟩ :=
    buildNew_eq_ok ran
  obtain rfl := Except.ok.inj (clean.read.symm.trans readAgain)
  have typed : rules.isCustom = false ∧ rules.options.parentType = none := by
    obtain ⟨_, _, _, rfl⟩ := clean.only
    exact ⟨rfl, rfl⟩
  obtain ⟨other, definesOther, ranWalk⟩ := outlineOf_eq_ok typed.1 ranOutline
  obtain rfl := defines.unique definesOther
  let scope := Scope.outermost path (nameOf names path).entity rules
  have only : scope.rules.OnlyFlattens := clean.only
  obtain ⟨rfl, entity, attributed, notices, empty, ranAttributes, rfl⟩ :=
    walkOutline_of_onlyFlattens only clean.noExtension clean.noSimpleContent ranWalk
  -- Without a parent, the walk goes on where the outline has left it.
  rcases settles with ⟨_, rfl⟩ | ⟨parent, selected, _⟩
  · obtain ⟨walked, ranContent, adds⟩ := fill_of_onlyFlattens only backs ranFill
    refine ⟨levels, _, attributed, notices, walked, ?_, ranAttributes, ranContent, adds⟩
    have opened : State.fieldsAt { before with
        entities := before.entities.set path (.ofTypePath (nameOf names path).entity path) } path =
          [] := by
      rw [State.fieldsAt_set, if_pos rfl]
      rfl
    exact (State.fieldsAt_set _ path path entity).trans ((if_pos rfl).trans (empty.trans opened))
  · rw [typed.2] at selected
    cases selected

/-! ## A flattened element -/

theorem lineage_of_noExtension (index : Index) (noExtension : type.extension = none) :
    index.lineage type = [type] := by
  have unbased : index.baseType? type = none := by
    rw [Index.baseType?, noExtension]
    rfl
  rw [Index.lineage, Index.basesWithin, unbased]
  rfl

/-- The walk over the members of a type without extension and simple content. -/
theorem walkMembers_of_noExtension (noExtension : type.extension = none)
    (noSimpleContent : type.simpleContent = none) :
    walkMembers context onward scope type = (do
      walkAttributes context onward scope type.attributes
      walkContent context onward scope type.content) := by
  have own : walkOwnMembers context onward scope type = (do
      walkAttributes context onward scope type.attributes
      walkContent context onward scope type.content) := by
    rw [walkOwnMembers, noExtension, noSimpleContent]
    change (walkAttributes context onward scope type.attributes >>= fun _ => pure () >>= fun _ =>
      pure () >>= fun _ => walkContent context onward scope type.content >>= fun _ => pure ()) = _
    simp only [pure_bind, bind_pure_unit]
  rw [walkMembers, lineage_of_noExtension context.index noExtension]
  change (walkOwnMembers context onward scope type >>= fun _ => pure ()) = _
  rw [bind_pure_unit, own]

/-- Where the rules only flatten, and ask for an element to be flattened, what becomes of it is a
walk over the members of its type. -/
theorem classify_flattens (only : scope.rules.OnlyFlattens) {declaration : Element} {levels : Nat}
    {nullable : Bool} (typed : context.index.elementComplexType declaration = .ok (some type))
    (noSimpleContent : type.simpleContent = none)
    (asked : asksForFlattening scope.rules (scope.fieldName declaration.localName) true = true)
    (ran : (classify context (Compile.onward context levels) scope nullable
      (.element declaration)).run state = .ok ((), final)) :
    ∃ below doc, (walkMembers context (Compile.onward context below)
      (scope.flattened (scope.ancestors ++ declaration.localName) doc nullable) type).run state =
        .ok ((), final) := by
  obtain ⟨bagKey, doc, classifies⟩ := @classify_of_onlyFlattens context
    (Compile.onward context levels) scope only nullable (.element declaration)
  have ruled : hasExplicitRule scope.rules (scope.fieldName declaration.localName) true = true := by
    simp only [asksForFlattening, Bool.or_eq_true] at asked
    simp only [hasExplicitRule, Bool.or_eq_true]
    tauto
  have uninferred : inferTarget? context scope
      (simpleSite scope nullable (.element declaration) doc) declaration (some type).isSome =
        pure none := by
    rw [inferTarget?]
    exact if_pos ruled
  have asks : asksForFlattening scope.rules
      (simpleSite scope nullable (.element declaration) doc).name (some type).isSome = true := asked
  rw [classifies] at ran
  dsimp only at ran
  rw [classifyElement_of_onlyFlattens only typed uninferred, if_pos asks] at ran
  simp only [noSimpleContent, Option.isNone_none, if_true] at ran
  rw [flatten_run] at ran
  obtain ⟨⟨⟨⟩, reached⟩, ranMembers, ran⟩ := Result.bind_eq_ok.mp ran
  split at ran
  · cases ran
  · cases ran
    cases levels with
    | zero => cases ranMembers
    | succ below => exact ⟨below, _, ranMembers⟩

/-- All of a type is a sequence that has to be there, of one element. -/
structure IsWrapper (type : ComplexType) (declaration : Element) : Prop where
  noExtension : type.extension = none
  noSimpleContent : type.simpleContent = none
  noAttributes : type.attributes = []
  content : ∃ occurs, occurs.least ≠ 0 ∧
    type.content = some (.compositor .sequence occurs [.element declaration])

theorem walkContent_of_isWrapper {declaration : Element} (wrapper : IsWrapper type declaration) :
    walkContent context onward scope type.content =
      classify context onward scope (scope.nullable || declaration.isOptional)
        (.element declaration) := by
  obtain ⟨occurs, required, content⟩ := wrapper.content
  have unchanged : (scope.nullable || occurs.least == 0) = scope.nullable := by
    rw [beq_eq_false_iff_ne.mpr required, Bool.or_false]
  rw [content, walkContent, walkParticle, unchanged]
  simp only [walkParts, walkParticle, bind_pure_unit]

/-! ## Two runs -/

/-- Notices do not count. -/
theorem Mirror.Shows.addNotices {own flat : Context} {mirror : Mirror} {flatState : State}
    (shows : mirror.Shows own flat state flatState) (notices : Diagnostics) :
    mirror.Shows own flat (state.addNotices notices) flatState :=
  { shows with honest := shows.honest.of_known rfl }

/-- The run for a type whose members are simple, and the run for a type that wraps an element of it
which is flattened, leave the same fields, but for some that refer back. -/
theorem CleanRun.mirrored {own flat : Context} {ownNames flatNames : List NameRule}
    {ownPath flatPath : String} {wrapper : ComplexType} {declaration : Element}
    {ownRules flatRules : FieldRules} {before after flatBefore flatAfter : State}
    (same : SameSources own flat)
    (ownRun : CleanRun own ownNames ownPath type ownRules before after)
    (flatRun : CleanRun flat flatNames flatPath wrapper flatRules flatBefore flatAfter)
    (record : IsRecord own.index type) (wraps : IsWrapper wrapper declaration)
    (typed : own.index.elementComplexType declaration = .ok (some type))
    (asked : asksForFlattening flatRules declaration.localName true = true) :
    ∃ ownBase flatBase fields flattened,
      List.Forall₂ (Field.Mirrors declaration.localName declaration.isOptional ownBase flatBase)
        fields flattened ∧
      AddsBacks fields (after.fieldsAt ownPath) ∧
      AddsBacks flattened (flatAfter.fieldsAt flatPath) := by
  obtain ⟨levels, entities, attributed, notices, walked, empty, ranAttributes, ranContent, adds⟩ :=
    ownRun.parts
  obtain ⟨flatLevels, flatEntities, _, flatNotices, flatWalked, flatEmpty, ranNone, ranWrapper,
    flatAdds⟩ := flatRun.parts
  -- All that the wrapper leads to is a walk over the members of the type.
  rw [wraps.noAttributes] at ranNone
  cases ranNone
  rw [walkContent_of_isWrapper wraps] at ranWrapper
  have plainName : (Scope.outermost flatPath (nameOf flatNames flatPath).entity flatRules).fieldName
      declaration.localName = declaration.localName := String.empty_append
  obtain ⟨below, doc, ranMembers⟩ := classify_flattens flatRun.only (same.index ▸ typed)
    record.noSimpleContent (plainName ▸ asked) ranWrapper
  rw [walkMembers_of_noExtension record.noExtension record.noSimpleContent] at ranMembers
  obtain ⟨_, flatAttributed, ranFlatAttributes, ranFlatContent⟩ := run_bind_eq_ok.mp ranMembers
  let mirror : Mirror := ⟨ownPath, flatPath, declaration.localName, declaration.isOptional,
    before.choices, flatBefore.choices⟩
  have places : mirror.Places
      (.outermost ownPath (nameOf ownNames ownPath).entity ownRules)
      ((Scope.outermost flatPath (nameOf flatNames flatPath).entity flatRules).flattened
        ("" ++ declaration.localName) doc (false || declaration.isOptional)) := by
    refine ⟨ownRun.only, flatRun.only, rfl, rfl, rfl, ?_, rfl, rfl⟩
    exact congrArg (· ++ ".") String.empty_append
  have start : mirror.Shows own flat { before with entities }
      (State.addNotices { flatBefore with entities := flatEntities } flatNotices) := by
    refine ⟨ownRun.honest, flatRun.honest.of_known rfl, Nat.add_comm _ _,
      (Table.get?_eq_none_iff _ _).mpr ownRun.unbagged,
      (Table.get?_eq_none_iff _ _).mpr flatRun.unbagged, ?_⟩
    change List.Forall₂ _ (State.fieldsAt { before with entities } ownPath)
      (State.fieldsAt { flatBefore with entities := flatEntities } flatPath)
    rw [empty, flatEmpty]
    exact .nil
  have afterAttributes : mirror.Shows own flat attributed flatAttributed :=
    (walkAttributes_mirrored same places record.attributes _ _ start _ _ _ _ ranAttributes
      ranFlatAttributes).1
  have afterContent : mirror.Shows own flat walked flatWalked :=
    (walkContent_mirrored same places record _ _ (afterAttributes.addNotices notices) _ _ _ _
      ranContent ranFlatContent).1
  exact ⟨_, _, _, _, afterContent.fields, adds afterContent.unbagged,
    flatAdds afterContent.otherUnbagged⟩

end Runs

end EntityGraph.Compile
