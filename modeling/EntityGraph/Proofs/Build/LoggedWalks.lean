import EntityGraph.Proofs.Build.Logs

/-!
# The events of a walk

Whatever becomes of a member, its event takes place: the entity is offered its field, its entries
are recorded, or the members of its type are walked in its place. So the walk over the parts of a
type logs what the parts unfold to.
-/
namespace EntityGraph.Compile

open Schema (Attribute AttributeItem ComplexType Element Extension Index MaxOccurs Member Particle
  Wildcard)

/-! ## Fields that are added -/

theorem overrideKind_nullable (rules : FieldRules) (field : Field) :
    (overrideKind rules field).nullable = field.nullable := by
  simp only [overrideKind]
  split
  · rfl
  · split <;> rfl

theorem documentChoices_nullable (field : Field) :
    (documentChoices field).nullable = field.nullable := by
  simp only [documentChoices]
  split <;> rfl

variable {context : Context} {scope : Scope}

/-- Where the rules keep nullability, the options of a field do. -/
theorem finishField_nullable (keeps : scope.rules.KeepsNullability)
    {text primitive : Option String} {field final : Field}
    (finished : finishField context scope text primitive field = .ok final) :
    final.nullable = field.nullable := by
  obtain ⟨_, _, defaulted, rfl, set, given, _⟩ := finishField_steps finished
  obtain ⟨_, rfl⟩ := setDefault_eq set
  obtain ⟨_, _, _, keyed⟩ := setKeys_eq scope.rules _
  have same : (withKind context scope.rules field).nullable = field.nullable := by
    rw [withKind, overrideKind_nullable, documentChoices_nullable]
  rcases given with rfl | ⟨options, name, given, _⟩
  · rw [keyed]
    simp only [(keeps _).1, Bool.or_false, same]
  · rw [(keeps name).2] at given
    cases given

theorem finishField_isMaterialized {text primitive : Option String} {field final : Field}
    (finished : finishField context scope text primitive field = .ok final)
    (materialized : field.kind.isMaterialized = true) : final.isMaterialized = true := by
  rcases (finishField_form finished).2.1 with same | ⟨_, _, _, same⟩
  · exact (FieldKind.isMaterialized_of_shape same).trans materialized
  · rw [Field.isMaterialized, FieldKind.isMaterialized_of_shape (same.trans rfl :
      final.kind.shape = (FieldKind.scalar default).shape)]
    rfl

/-- A field that the rules leave out is not added. -/
theorem eq_of_leftOut {rules : FieldRules} {path : String} {field : Field} {state final : State}
    (materialized : field.isMaterialized = true)
    (leftOut : rules.dropAfterProcessing.contains field.name = true)
    (ran : (addField context rules path field).run state = .ok ((), final)) : final = state := by
  obtain ⟨entity, found, ran⟩ := entityAt_bind_eq_ok ran
  rw [materialized, leftOut] at ran
  cases ran
  rfl

variable {watch : Watch} {state final : State} {entity after : Entity} {field : Field}

/-- An entity that has taken in a field. -/
theorem Offers.of_inserted (wellFormed : state.WellFormed)
    (found : state.entities.get? watch.path = some entity)
    (inserted : insertField entity field = .ok after) (materialized : field.isMaterialized = true)
    {occurrence : Option Occurrence} (accepted : watch.Accepts ⟨field, occurrence⟩) :
    Offers watch occurrence.toList state
      { state with entities := state.entities.set watch.path after } where
  wellFormed := by
    have grows := Grows.of_insertField inserted
    exact wellFormed.set (grows.name.trans (wellFormed.named _ _ found))
      (grows.source.trans (wellFormed.source _ _ found))
  built := State.isBuilt_set.mpr (.inl rfl)
  columns earlier columns := by
    rw [State.fieldsAt_of_get? found] at columns
    refine ⟨[⟨field, occurrence⟩], by cases occurrence <;> rfl, ?_, ?_⟩
    · intro offer member
      exact List.mem_singleton.mp member ▸ accepted
    · rw [State.fieldsAt_set, if_pos rfl]
      exact insertField_offered columns materialized occurrence inserted

/-- An entity that is changed but for its columns. -/
theorem Offers.of_changed (wellFormed : state.WellFormed)
    (found : state.entities.get? watch.path = some entity) (name : after.name = entity.name)
    (source : after.sourceTypes = entity.sourceTypes)
    (columns : columnsOf after.fields = columnsOf entity.fields) :
    Offers watch [] state { state with entities := state.entities.set watch.path after } := by
  refine .of_columns ?_ (State.isBuilt_set.mpr (.inl rfl)) ?_
  · exact wellFormed.set (name.trans (wellFormed.named _ _ found))
      (source.trans (wellFormed.source _ _ found))
  · rw [State.fieldsAt_set, if_pos rfl, State.fieldsAt_of_get? found, columns]

/-- Adding a field offers it, unless the rules leave it out. -/
theorem addField_offers (wellFormed : state.WellFormed) (built : state.isBuilt watch.path = true)
    (materialized : field.isMaterialized = true) (occurrence : Option Occurrence)
    (accepted : watch.Accepts ⟨{ field with
      kind := setRelatedName (reverseName? state watch.path field) field.kind }, occurrence⟩)
    (ran : (addField context watch.rules watch.path field).run state = .ok ((), final)) :
    final.bags = state.bags ∧ Offers watch
      (if watch.rules.dropAfterProcessing.contains field.name then [] else occurrence.toList)
      state final := by
  cases leftOut : watch.rules.dropAfterProcessing.contains field.name with
  | true =>
    obtain rfl := eq_of_leftOut materialized leftOut ran
    exact ⟨rfl, .of_columns wellFormed built rfl⟩
  | false =>
    rcases addField_eq_ok ran with ⟨drops, _⟩ | ⟨entity, after, found, inserted, rfl⟩
    · rw [drops] at leftOut
      cases leftOut
    · have shape := FieldKind.shape_setRelatedName (reverseName? state watch.path field) field.kind
      refine ⟨rfl, .of_inserted wellFormed found inserted ?_ accepted⟩
      exact (FieldKind.isMaterialized_of_shape shape).trans materialized

theorem addField_logs {occurrence : Occurrence} (isField : IsFieldOf watch.rules occurrence field)
    (materialized : field.isMaterialized = true) :
    Logs watch (addField context watch.rules watch.path field) fun _ events =>
      events = watch.rules.unlessLeftOut field.name (.field occurrence) := by
  intro state result final wellFormed built ran
  obtain ⟨bags, offers⟩ := addField_offers wellFormed built materialized (some occurrence)
    ⟨isField.name, isField.dottedPath, isField.nullable⟩ ran
  rw [FieldRules.unlessLeftOut]
  cases leftOut : watch.rules.dropAfterProcessing.contains field.name with
  | true =>
    rw [leftOut] at offers
    exact ⟨_, rfl, offers, by rw [bags]; rfl⟩
  | false =>
    rw [leftOut] at offers
    exact ⟨_, rfl, offers, by rw [bags]; rfl⟩

/-- A mark is no column. -/
theorem addMark_quiet (mark : field.isMaterialized = false) :
    Quiet watch (addField context watch.rules watch.path field) fun _ => True := by
  intro state result final wellFormed built ran
  refine ⟨[], ⟨rfl, trivial⟩, ?_⟩
  rcases addField_eq_ok ran with ⟨_, rfl⟩ | ⟨entity, after, found, inserted, rfl⟩
  · exact .of_same wellFormed built rfl rfl rfl
  · have grows := Grows.of_insertField inserted
    refine ⟨.of_changed wellFormed found grows.name grows.source ?_, rfl⟩
    refine insertField_mark ?_ inserted
    exact (FieldKind.isMaterialized_of_shape (FieldKind.shape_setRelatedName _ _)).trans mark

/-- Recording the entries of an event that is no field. -/
theorem addToBag_logs {event : Event} {entries : Bag} (other : event.occurrence? = none)
    (recorded : event.entries? watch.index watch.rules = some entries) :
    Logs watch (addToBag watch.path entries) fun _ events => events = [event] := by
  intro state result final wellFormed built ran
  cases ran
  refine ⟨_, rfl, ?_, ?_⟩
  · rw [List.filterMap_cons_none other]
    refine .of_columns ?_ built rfl
    exact ⟨wellFormed.sorted, wellFormed.known, wellFormed.named, wellFormed.source⟩
  · rw [List.filterMap_cons_some recorded]
    exact Table.get?_set_self ..

/-! ## Places -/

/-- The scope is that of a location in the watched type path. -/
structure Scope.StandsAt (scope : Scope) (watch : Watch) (location : Location) : Prop where
  typePath : scope.typePath = watch.path
  rules : scope.rules = watch.rules
  ancestors : scope.ancestors = location.ancestors
  docStart : scope.docStart = location.docStart
  nullable : scope.nullable = !location.isRequired

/-- The site is that of a member at a location. -/
structure IsSiteOf (rules : FieldRules) (occurrence : Occurrence) (site : Site) : Prop where
  name : site.name = rules.settledAt occurrence.location.ancestors occurrence.member
  dottedPath : site.dottedPath = rules.pathAt occurrence.location.ancestors occurrence.member
  nullable : site.nullable = !occurrence.isRequired

variable {onward : Onward} {location : Location} {site : Site} {member : Member}

/-- Finishing the field of a member and adding it. -/
theorem addFinished_logs (stands : scope.StandsAt watch location)
    (isSite : IsSiteOf watch.rules ⟨member, location⟩ site) {draft : Field}
    (drafted : (draft.name, draft.dottedPath, draft.nullable) =
      (site.name, site.dottedPath, site.nullable))
    (materialized : draft.kind.isMaterialized = true) {text primitive : Option String} :
    Logs watch
      (do addField context scope.rules scope.typePath
            (← finishField context scope text primitive draft)) fun _ events =>
      events = watch.rules.unlessLeftOut site.name (.field ⟨member, location⟩) := by
  obtain ⟨name, dottedPath, nullable⟩ := by simpa using drafted
  refine (Quiet.lifts _).then_ fun field finished => ?_
  obtain ⟨sameName, samePath, _⟩ := Field.declaration_eq_iff.mp (finishField_form finished).1
  have isField : IsFieldOf watch.rules ⟨member, location⟩ field := by
    refine ⟨sameName.trans (name.trans isSite.name),
      samePath.trans (dottedPath.trans isSite.dottedPath), fun keeps => ?_⟩
    rw [finishField_nullable (stands.rules ▸ keeps) finished, nullable, isSite.nullable]
  rw [stands.rules, stands.typePath, ← name, ← sameName]
  exact addField_logs isField (finishField_isMaterialized finished materialized)

section Members

variable {declaration : Element} {type : Option ComplexType}

theorem addReverse_logs (quiet : BuildsQuietly watch onward)
    (stands : scope.StandsAt watch location)
    (isSite : IsSiteOf watch.rules ⟨member, location⟩ site) (oneToOne : Bool) (target : Target) :
    Logs watch (addReverse context onward scope site oneToOne target) fun _ events =>
      events = watch.rules.unlessLeftOut site.name (.field ⟨member, location⟩) := by
  refine Quiet.reads.then_ fun seen _ => ?_
  extract_lets reverseField back
  have isBack : AllBack [back] := by
    intro field member
    obtain rfl := List.mem_singleton.mp member
    exact ⟨scope.entity, site.name, reverseField, oneToOne, rfl⟩
  refine (quiet _ _ _ isBack).then_ fun entity _ => ?_
  cases oneToOne with
  | true => exact addFinished_logs stands isSite rfl rfl
  | false => exact addFinished_logs stands isSite rfl rfl

theorem addManyToMany_logs (quiet : BuildsQuietly watch onward)
    (stands : scope.StandsAt watch location) (isSite : IsSiteOf watch.rules ⟨member, location⟩ site)
    (target : Target) :
    Logs watch (addManyToMany context onward scope site target) fun _ events =>
      events = watch.rules.unlessLeftOut site.name (.field ⟨member, location⟩) :=
  (quiet _ _ _ allBack_nil).then_ fun _ _ => addFinished_logs stands isSite rfl rfl

theorem addRelation_logs (quiet : BuildsQuietly watch onward)
    (stands : scope.StandsAt watch location) (isSite : IsSiteOf watch.rules ⟨member, location⟩ site)
    (inferred : Option Target) (relation : Relation) :
    Logs watch (addRelation context onward scope site declaration inferred relation) fun _ events =>
      events = watch.rules.unlessLeftOut site.name (.field ⟨member, location⟩) := by
  cases relation with
  | oneToOne =>
    exact (singleTarget_quiet site declaration).then_ fun target _ =>
      addReverse_logs quiet stands isSite true target
  | oneToMany =>
    exact (manyTarget_quiet site declaration _ _).then_ fun target _ =>
      addReverse_logs quiet stands isSite false target
  | manyToMany =>
    exact (manyTarget_quiet site declaration _ _).then_ fun target _ =>
      addManyToMany_logs quiet stands isSite target

theorem addMember_logs (stands : scope.StandsAt watch location)
    (isSite : IsSiteOf watch.rules ⟨member, location⟩ site) {resolved : ResolvedKind}
    (materialized : resolved.kind.isMaterialized = true) (given : Member) (most : MaxOccurs) :
    Logs watch (addMember context scope site given resolved most) fun _ events =>
      events = watch.rules.unlessLeftOut site.name (.field ⟨member, location⟩) := by
  unfold addMember
  extract_lets plain draft proceed
  have goesOn : Logs watch (proceed ()) fun _ events =>
      events = watch.rules.unlessLeftOut site.name (.field ⟨member, location⟩) :=
    addFinished_logs stands isSite rfl materialized
  split
  · split
    · exact .stops
    · exact goesOn
  · exact goesOn

/-! ## The decision -/

/-- What the rules make of a member, given its relation. -/
theorem treatment_of_relation? {rules : FieldRules} {name : String} {inferred : Option Target}
    {relation : Relation} (asked : relation? context rules name inferred = some relation)
    (implicit : inferred.isSome = true → hasExplicitRule rules name type.isSome = false) :
    rules.treatment name type (.element declaration) = .field none := by
  cases inferred with
  | none =>
    have decides : RuleFamily.decisive rules name type = _ := decisive_of_relation? asked
    cases relation <;> simp [FieldRules.treatment, decides, Relation.family]
  | some target =>
    have unnamed := implicit rfl
    have undecided : RuleFamily.decisive rules name type = none := by
      by_contra decided
      obtain ⟨family, decides⟩ := Option.ne_none_iff_exists'.mp decided
      rw [RuleFamily.hasExplicitRule_of_decisive decides] at unnamed
      cases unnamed
    have unreferenced : rules.referenceExtension.contains name = false := by
      simp only [hasExplicitRule, Bool.or_eq_false_iff] at unnamed
      exact unnamed.1.2
    simp [FieldRules.treatment, undecided, unreferenced]

/-- The extension that is added behind a field. -/
def FieldRules.extension? (rules : FieldRules) (name : String) (type : Option ComplexType) :
    Option Extension :=
  if rules.referenceExtension.contains name then type.bind (·.extension) else none

/-- What the rules make of a member without a relation. -/
theorem treatment_of_unrelated {rules : FieldRules} {name : String}
    (unrelated : relation? context rules name none = none) :
    rules.treatment name type (.element declaration) =
      if rules.json.contains name then .bagged
      else match flattened? rules name type with
        | some members => .flattened members
        | none => .field (rules.extension? name type) := by
  have decides : RuleFamily.decisive rules name type = _ := decisive_of_unrelated unrelated
  cases bagged : rules.json.contains name with
  | true => simp [FieldRules.treatment, decides, bagged]
  | false =>
    cases flat : flattened? rules name type with
    | some members =>
      obtain ⟨-, rfl, -⟩ := flattened?_eq_some.mp flat
      simp [FieldRules.treatment, decides, bagged, flat]
    | none =>
      rw [bagged, flat] at decides
      simp only [Bool.false_eq_true, if_false, Option.isSome_none] at decides ⊢
      cases valued : RuleFamily.valued.find? (RuleFamily.applies rules name type) with
      | none => simp [FieldRules.treatment, decides, valued, FieldRules.extension?]
      | some family =>
        have inValued := List.mem_of_find?_eq_some valued
        simp only [RuleFamily.valued, List.mem_cons, List.not_mem_nil, or_false] at inValued
        rcases inValued with rfl | rfl | rfl <;>
          simp [FieldRules.treatment, decides, valued, FieldRules.extension?]

/-- The walks that lead to other types log what those unfold to, and builds are quiet. -/
structure OnwardLogs (context : Context) (watch : Watch) (onward : Onward) : Prop where
  index : watch.index = context.index
  build : BuildsQuietly watch onward
  members : ∀ {scope : Scope} {location : Location} (type : ComplexType),
    scope.StandsAt watch location → Logs watch (onward.members scope type) fun _ events =>
      Unfolds context.index watch.rules location (lineageParts context.index type) events
  extension : ∀ {scope : Scope} {location : Location} (extension : Extension),
    scope.StandsAt watch location → Logs watch (onward.extension scope extension) fun _ events =>
      Unfolds context.index watch.rules location (extensionParts extension) events

/-- A plain element is offered as a field, and what its extension adds comes behind it. -/
theorem classifyPlain_logs (onwardLogs : OnwardLogs context watch onward)
    (stands : scope.StandsAt watch location)
    (isSite : IsSiteOf watch.rules ⟨.element declaration, location⟩ site) (hint : Option String) :
    Logs watch (classifyPlain context onward scope site declaration type hint) fun _ events =>
      ∃ added, events = watch.rules.unlessLeftOut site.name
          (.field ⟨.element declaration, location⟩) ++ added ∧
        match watch.rules.extension? site.name type with
        | some extension => Unfolds context.index watch.rules
            (watch.rules.extendedAt location declaration) (extensionParts extension) added
        | none => added = [] := by
  refine referencedExtension?_quiet.then_ fun extension asked => ?_
  obtain rfl : extension = watch.rules.extension? site.name type := by
    rw [asked, stands.rules, FieldRules.extension?]
  refine (resolveElement_quiet onwardLogs.build hint _).then_
    fun (resolved, most, documented) ⟨materialized, doc, same⟩ => ?_
  have isDocumented : IsSiteOf watch.rules ⟨.element declaration, location⟩ documented := by
    obtain rfl : documented = { site with doc } := same
    exact ⟨isSite.name, isSite.dottedPath, isSite.nullable⟩
  refine (addMember_logs stands isDocumented materialized (.element declaration) most).bind
    fun _ events added => ?_
  have name : documented.name = site.name := isDocumented.name.trans isSite.name.symm
  rw [name] at added
  cases watch.rules.extension? site.name type with
  | some extension =>
    have place : Scope.StandsAt { scope with
        ancestors := site.dottedPath ++ ".", nullable := site.nullable } watch
        (watch.rules.extendedAt location declaration) := by
      refine ⟨stands.typePath, stands.rules, ?_, stands.docStart, ?_⟩
      · rw [isSite.dottedPath]
        rfl
      · rw [isSite.nullable]
        rfl
    refine (onwardLogs.extension extension place).weaken fun _ more unfolds => ?_
    exact ⟨more, by rw [added], unfolds⟩
  | none =>
    exact .returns ⟨[], by rw [added], rfl⟩

theorem recordBag_logs (index : watch.index = context.index)
    (stands : scope.StandsAt watch location)
    (member : Member) :
    Logs watch (recordBag context scope (watch.rules.bagKeyAt location.ancestors member)
      (watch.rules.docAt location member) type) fun _ events =>
      events = [.bagged ⟨member, location⟩ type] := by
  unfold recordBag
  rw [stands.typePath]
  refine addToBag_logs rfl ?_
  rw [Event.entries?, index]
  rfl

/-- A flattened element unfolds to what its members unfold to. -/
theorem flatten_logs (onwardLogs : OnwardLogs context watch onward)
    (stands : scope.StandsAt watch location)
    (isSite : IsSiteOf watch.rules ⟨.element declaration, location⟩ site)
    (doc : site.doc = watch.rules.docAt location (.element declaration)) (members : ComplexType) :
    Logs watch (flatten onward scope site members) fun _ events =>
      Unfolds context.index watch.rules (watch.rules.flattenedAt location declaration)
        (lineageParts context.index members) events := by
  have place : (scope.flattened site.dottedPath (site.doc.getD site.name) site.nullable).StandsAt
      watch (watch.rules.flattenedAt location declaration) := by
    refine ⟨stands.typePath, stands.rules, ?_, ?_, ?_⟩
    · rw [isSite.dottedPath]
      rfl
    · rw [doc, isSite.name]
      rfl
    · rw [isSite.nullable]
      rfl
  refine (produced_quiet _).then_ fun before _ => ?_
  refine (onwardLogs.members members place).bind fun _ events unfolds => ?_
  refine (produced_quiet _).then_ fun after _ => ?_
  split
  · exact .fails
  · exact .returns (by rwa [List.append_nil])

/-- A member that goes into the bag unfolds to its entries there, unless the bag is left out. -/
theorem bagged_logs {part : ContentPart} {member : Member} (index : watch.index = context.index)
    (stands : scope.StandsAt watch location) (isSite : IsSiteOf watch.rules ⟨member, location⟩ site)
    (doc : site.doc = watch.rules.docAt location member) (isMember : part.member? = some member)
    (unmarked : ¬watch.rules.Marks (watch.rules.nameAt location.ancestors member))
    (typed : memberType context.index member = .ok type)
    (treated : watch.rules.treatment (watch.rules.settledAt location.ancestors member) type member =
      .bagged) :
    Logs watch (if !watch.rules.dropAfterProcessing.contains site.name then
        recordBag context scope (watch.rules.bagKeyAt location.ancestors member) site.doc type
      else pure ()) fun _ events =>
      Unfolds context.index watch.rules location [part] events := by
  have unfolds := Unfolds.bagged isMember unmarked typed treated .nil
  rw [FieldRules.unlessLeftOut, ← isSite.name] at unfolds
  rw [doc]
  cases leftOut : watch.rules.dropAfterProcessing.contains site.name with
  | true =>
    rw [leftOut] at unfolds
    exact .returns unfolds
  | false =>
    rw [leftOut] at unfolds
    exact (recordBag_logs index stands _).weaken fun _ events recorded => recorded ▸ unfolds

/-- A plain element unfolds to its field, and to what its extension adds. -/
theorem classifyPlain_unfolds (onwardLogs : OnwardLogs context watch onward)
    (stands : scope.StandsAt watch location)
    (isSite : IsSiteOf watch.rules ⟨.element declaration, location⟩ site)
    (unmarked : ¬watch.rules.Marks (watch.rules.nameAt location.ancestors (.element declaration)))
    (typed : context.index.elementComplexType declaration = .ok type)
    (treated : watch.rules.treatment site.name type (.element declaration) =
      .field (watch.rules.extension? site.name type)) (hint : Option String) :
    Logs watch (classifyPlain context onward scope site declaration type hint) fun _ events =>
      Unfolds context.index watch.rules location [.content (.element declaration)] events := by
  refine (classifyPlain_logs onwardLogs stands isSite hint).weaken fun _ events told => ?_
  obtain ⟨added, rfl, behind⟩ := told
  rw [isSite.name] at behind treated ⊢
  cases found : watch.rules.extension?
      (watch.rules.settledAt location.ancestors (.element declaration)) type with
  | none =>
    rw [found] at behind treated
    obtain rfl := behind
    exact .field rfl unmarked typed treated .nil
  | some extension =>
    rw [found] at behind treated
    rw [← List.append_nil (_ ++ added)]
    exact .extended unmarked typed treated behind .nil

/-- What an element that leaves more than a mark unfolds to takes place. -/
theorem classifyElement_logs (onwardLogs : OnwardLogs context watch onward)
    (stands : scope.StandsAt watch location)
    (isSite : IsSiteOf watch.rules ⟨.element declaration, location⟩ site)
    (doc : site.doc = watch.rules.docAt location (.element declaration))
    (unmarked : ¬watch.rules.Marks
      (watch.rules.nameAt location.ancestors (.element declaration))) :
    Logs watch (classifyElement context onward scope site
      (watch.rules.bagKeyAt location.ancestors (.element declaration)) declaration) fun _ events =>
      Unfolds context.index watch.rules location [.content (.element declaration)] events := by
  rw [classifyElement_eq]
  refine (Quiet.lifts _).then_ fun type typed => ?_
  refine (inferTarget?_quiet site declaration _).then_ fun inferred implicit => ?_
  rw [stands.rules] at implicit ⊢
  have treated {treatment : Treatment}
      (same : watch.rules.treatment site.name type (.element declaration) = treatment) :
      watch.rules.treatment (watch.rules.settledAt location.ancestors (.element declaration)) type
        (.element declaration) = treatment := isSite.name ▸ same
  -- The branches are those of the treatment, in the same order.
  split
  next relation asked =>
    refine (addRelation_logs onwardLogs.build stands isSite inferred relation).weaken
      fun _ events added => ?_
    rw [added, isSite.name, ← List.append_nil (FieldRules.unlessLeftOut ..)]
    exact .field rfl unmarked typed (treated (treatment_of_relation? asked implicit)) .nil
  next unrelated =>
    obtain rfl := inferred_eq_none_of_relation? unrelated
    have decided := @treatment_of_unrelated context declaration type _ _ unrelated
    unfold classifyUnrelated
    rw [stands.rules]
    split
    next bagged =>
      rw [if_pos bagged] at decided
      exact bagged_logs onwardLogs.index stands isSite doc rfl unmarked typed (treated decided)
    next unbagged =>
      rw [if_neg unbagged] at decided
      cases flat : flattened? watch.rules site.name type with
      | some members =>
        obtain ⟨-, rfl, -⟩ := flattened?_eq_some.mp flat
        rw [flat] at decided
        refine (flatten_logs onwardLogs stands isSite doc members).weaken fun _ events inside => ?_
        rw [← List.append_nil events]
        exact .flattened unmarked typed (treated decided) inside .nil
      | none =>
        rw [flat] at decided
        exact unflattenedHint_quiet.then_ fun hint _ =>
          classifyPlain_unfolds onwardLogs stands isSite unmarked typed decided hint

end Members

/-! ## Walks -/

theorem classifyAttribute_logs (onwardLogs : OnwardLogs context watch onward)
    (stands : scope.StandsAt watch location) {declaration : Attribute}
    (isSite : IsSiteOf watch.rules ⟨.attrib declaration, location⟩ site)
    (doc : site.doc = watch.rules.docAt location (.attrib declaration))
    (unmarked : ¬watch.rules.Marks
      (watch.rules.nameAt location.ancestors (.attrib declaration))) :
    Logs watch (classifyAttribute context onward scope site
      (watch.rules.bagKeyAt location.ancestors (.attrib declaration)) declaration) fun _ events =>
      Unfolds context.index watch.rules location [.attrib declaration] events := by
  unfold classifyAttribute
  rw [stands.rules]
  cases bagged : watch.rules.json.contains site.name with
  | true =>
    have treated : watch.rules.treatment (watch.rules.settledAt location.ancestors
        (.attrib declaration)) none (.attrib declaration) = .bagged :=
      if_pos (isSite.name ▸ bagged)
    exact bagged_logs onwardLogs.index stands isSite doc rfl unmarked rfl treated
  | false =>
    have treated : watch.rules.treatment (watch.rules.settledAt location.ancestors
        (.attrib declaration)) none (.attrib declaration) = .field none :=
      if_neg (by rw [← isSite.name, bagged]; nofun)
    refine (resolveValue_quiet onwardLogs.build _ _ _).then_ fun resolved materialized => ?_
    refine (addMember_logs stands isSite materialized _ _).weaken fun _ events added => ?_
    rw [added, isSite.name, ← List.append_nil (FieldRules.unlessLeftOut ..)]
    exact .field rfl unmarked rfl treated .nil

/-- What a member unfolds to takes place, at a location where it may be absent just if it or
something around it may. -/
theorem classify_logs (onwardLogs : OnwardLogs context watch onward)
    (stands : scope.StandsAt watch location) {part : ContentPart}
    (isMember : part.member? = some member) :
    Logs watch (classify context onward scope (scope.nullable || !isRequiredMember member) member)
      fun _ events => Unfolds context.index watch.rules location [part] events := by
  obtain ⟨typePath, entity, scopeRules, ancestors, docStart, nullable, choiceGroup⟩ := scope
  obtain ⟨rfl, rfl, rfl, rfl, rfl⟩ := stands
  let scope : Scope := ⟨watch.path, entity, watch.rules, location.ancestors, location.docStart,
    !location.isRequired, choiceGroup⟩
  have place : scope.StandsAt watch location := ⟨rfl, rfl, rfl, rfl, rfl⟩
  unfold classify
  extract_lets rules localName dottedPath name coalesced settled bagKey site
  have isSite : IsSiteOf watch.rules ⟨member, location⟩ site := by
    refine ⟨rfl, rfl, ?_⟩
    change (!location.isRequired || !isRequiredMember member) = _
    rw [Occurrence.isRequired, Bool.not_and, Bool.or_comm]
  split
  next drops =>
    refine Logs.weaken (addMark_quiet rfl) fun _ events ⟨silent, _⟩ => ?_
    rw [silent]
    exact .marked isMember (.inl drops) .nil
  next kept =>
    split
    next parent =>
      refine Logs.weaken (addMark_quiet rfl) fun _ events ⟨silent, _⟩ => ?_
      rw [silent]
      exact .marked isMember (.inr (beq_iff_eq.mp parent)) .nil
    next noParent =>
      have unmarked : ¬watch.rules.Marks (watch.rules.nameAt location.ancestors member) := by
        rintro (drops | parent)
        · exact kept drops
        · exact noParent (beq_iff_eq.mpr parent)
      cases part with
      | attrib declaration =>
        cases isMember
        exact classifyAttribute_logs onwardLogs place isSite rfl unmarked
      | content particle =>
        cases particle with
        | element declaration =>
          cases isMember
          exact classifyElement_logs onwardLogs place isSite rfl unmarked
        | compositor | any | group => cases isMember

theorem walkAttributes_logs (onwardLogs : OnwardLogs context watch onward)
    (stands : scope.StandsAt watch location) (items : List AttributeItem) :
    Logs watch (walkAttributes context onward scope items) fun _ events =>
      Unfolds context.index watch.rules location (attributeParts items) events := by
  induction items with
  | nil => exact .returns .nil
  | cons item rest ih =>
    cases item with
    | group reference => exact .stops
    | single declaration =>
      change Logs watch ((if isWalked declaration then _ else pure ()) >>= fun _ =>
        walkAttributes context onward scope rest) _
      cases walked : isWalked declaration with
      | true =>
        have parts : attributeParts (.single declaration :: rest) =
            [.attrib declaration] ++ attributeParts rest := by simp [attributeParts, walked]
        rw [parts]
        exact (classify_logs onwardLogs stands rfl).bind fun _ events unfolds =>
          ih.weaken fun _ more others => unfolds.append others
      | false =>
        have parts : attributeParts (.single declaration :: rest) = attributeParts rest := by
          simp [attributeParts, walked]
        rw [parts]
        exact Quiet.then_ (.returns trivial) fun _ (_ : True) => ih

mutual

theorem walkParticle_logs (onwardLogs : OnwardLogs context watch onward) {scope : Scope}
    {location : Location} (stands : scope.StandsAt watch location) (particle : Particle) :
    Logs watch (walkParticle context onward scope particle) fun _ events =>
      Unfolds context.index watch.rules location [.content particle] events := by
  match particle with
  | .element declaration =>
    rw [walkParticle]
    have same : declaration.isOptional = !isRequiredMember (.element declaration) := by
      simp [isRequiredMember]
    rw [same]
    exact classify_logs onwardLogs stands rfl
  | .compositor .sequence occurs parts =>
    rw [walkParticle]
    have place : Scope.StandsAt { scope with nullable := scope.nullable || occurs.least == 0 } watch
        (location.within (.compositor .sequence occurs)) := by
      refine ⟨stands.typePath, stands.rules, stands.ancestors, stands.docStart, ?_⟩
      change (scope.nullable || occurs.least == 0) = !(occurs.least != 0 && location.isRequired)
      rw [stands.nullable, Bool.not_and, Bool.or_comm]
      simp [bne]
    refine (walkParts_logs onwardLogs place parts).weaken fun _ events inside => ?_
    rw [← List.append_nil events]
    exact .compositor inside .nil
  | .compositor .choice occurs parts =>
    rw [walkParticle]
    refine nextChoice_quiet.then_ fun choice _ => ?_
    have place : Scope.StandsAt { scope with nullable := true, choiceGroup := some choice } watch
        (location.within (.compositor .choice occurs)) :=
      ⟨stands.typePath, stands.rules, stands.ancestors, stands.docStart, rfl⟩
    refine (walkParts_logs onwardLogs place parts).weaken fun _ events inside => ?_
    rw [← List.append_nil events]
    exact .compositor inside .nil
  | .any wildcard =>
    rw [walkParticle, recordWildcard, stands.typePath, stands.ancestors, stands.docStart]
    exact (addToBag_logs rfl rfl).weaken
      fun _ events (recorded : events = [.wildcard location wildcard]) =>
      recorded ▸ .wildcard .nil
  | .group reference occurs =>
    rw [walkParticle]
    exact .fails

theorem walkParts_logs (onwardLogs : OnwardLogs context watch onward) {scope : Scope}
    {location : Location} (stands : scope.StandsAt watch location) (parts : List Particle) :
    Logs watch (walkParts context onward scope parts) fun _ events =>
      Unfolds context.index watch.rules location (parts.map .content) events := by
  match parts with
  | [] =>
    rw [walkParts]
    exact .returns .nil
  | part :: rest =>
    rw [walkParts]
    exact (walkParticle_logs onwardLogs stands part).bind fun _ events unfolds =>
      (walkParts_logs onwardLogs stands rest).weaken fun _ more others => unfolds.append others

end

theorem walkContent_logs (onwardLogs : OnwardLogs context watch onward)
    (stands : scope.StandsAt watch location) (content : Option Particle) :
    Logs watch (walkContent context onward scope content) fun _ events =>
      Unfolds context.index watch.rules location (content.toList.map .content) events := by
  cases content with
  | none => exact .returns .nil
  | some particle => exact walkParticle_logs onwardLogs stands particle

theorem walkExtension_logs (onwardLogs : OnwardLogs context watch onward)
    (stands : scope.StandsAt watch location) (extension : Extension) :
    Logs watch (walkExtension context onward scope extension) fun _ events =>
      Unfolds context.index watch.rules location (extensionParts extension) events :=
  (walkAttributes_logs onwardLogs stands _).bind fun _ _ unfolds =>
    (walkContent_logs onwardLogs stands _).weaken fun _ _ others => unfolds.append others

theorem walkOwnMembers_logs (onwardLogs : OnwardLogs context watch onward)
    (stands : scope.StandsAt watch location) (type : ComplexType) :
    Logs watch (walkOwnMembers context onward scope type) fun _ events =>
      Unfolds context.index watch.rules location (ownParts type) events := by
  refine (walkAttributes_logs onwardLogs stands _).bind fun _ _ own => ?_
  refine (walkAttributes_logs onwardLogs stands _).bind fun _ _ simple => ?_
  refine (walkAttributes_logs onwardLogs stands _).bind fun _ _ extended => ?_
  refine (walkContent_logs onwardLogs stands _).bind fun _ _ content => ?_
  refine (walkContent_logs onwardLogs stands _).weaken fun _ _ added => ?_
  have all := (((own.append simple).append extended).append content).append added
  simpa only [ownParts, List.append_assoc] using all

theorem walkMembers_logs (onwardLogs : OnwardLogs context watch onward)
    (stands : scope.StandsAt watch location) (type : ComplexType) :
    Logs watch (walkMembers context onward scope type) fun _ events =>
      Unfolds context.index watch.rules location (lineageParts context.index type) events := by
  unfold walkMembers lineageParts
  induction context.index.lineage type with
  | nil => exact .returns .nil
  | cons own rest ih =>
    change Logs watch (walkOwnMembers context onward scope own >>= fun _ =>
      rest.forM (walkOwnMembers context onward scope)) _
    rw [List.flatMap_cons]
    exact (walkOwnMembers_logs onwardLogs stands own).bind fun _ _ unfolds =>
      ih.weaken fun _ _ others => unfolds.append others

theorem onward_logs {context : Context} {watch : Watch} (index : watch.index = context.index)
    (levels : Nat) : OnwardLogs context watch (Compile.onward context levels) := by
  have quiet (levels : Nat) : BuildsQuietly watch (Compile.onward context levels) := by
    intro path type backs allBack state result final wellFormed built ran
    exact ⟨[], ⟨rfl, trivial⟩, .of_bystands (onward_build_bystands wellFormed built allBack ran)⟩
  induction levels with
  | zero => exact ⟨index, quiet 0, fun _ _ => .fails, fun _ _ => .fails⟩
  | succ levels ih =>
    exact ⟨index, quiet (levels + 1), fun type stands => walkMembers_logs ih stands type,
      fun extension stands => walkExtension_logs ih stands extension⟩

end EntityGraph.Compile
