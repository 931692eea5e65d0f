import EntityGraph.Proofs.Build.Inheritance
import EntityGraph.Proofs.Build.LoggedWalks

/-!
# The log of a run

The run for a type path walks the attributes of its type, the members of a parent that it includes,
and the content. Behind them come the bag, the extra fields and what refers back. So the columns
that it leaves are those that come of the fields it has offered, among which those of members are
what the walked parts unfold to; and its bag has the entries that were recorded on the way.
-/
namespace EntityGraph.Compile

open Schema (AttributeItem ComplexType Element Index Particle)

/-! ## What a run walks -/

/-- The attributes of a type, and those that its extension or its simple content adds. Of a type
with content of its own nothing else counts. -/
def outerAttributes (type : ComplexType) : List AttributeItem :=
  type.attributes ++
    match type.content, type.extension, type.simpleContent with
    | none, some extension, _ => extension.attributes
    | none, none, some inner => inner.attributes
    | _, _, _ => []

/-- The content of a type, or that of its extension. -/
def outerContent (type : ComplexType) : Option Particle :=
  type.content <|> type.extension.bind (·.content)

/-- The base that a type extends, unless it has content of its own. -/
def outerBase? (type : ComplexType) : Option String :=
  match type.content with
  | some _ => none
  | none => type.extension.map (·.base)

/-- Whether the value of a type is a field. -/
def hasValue (type : ComplexType) : Bool :=
  type.content.isNone && type.extension.isNone && type.simpleContent.isSome

namespace FieldRules

/-- The parent that the rules select by one of the elements. -/
def parentAmong? (rules : FieldRules) (content : Option Particle) : Option String :=
  rules.options.parentField.bind fun field =>
    (content.bind (·.element? field)).bind Index.effectiveTypeName

/-- The parent that the rules give, or the base, or else the one that they select. An entity whose
fields all come from the settings has no type. -/
def parent? (rules : FieldRules) (type : Option ComplexType) : Option String :=
  rules.options.parentType <|> type.bind fun type =>
    outerBase? type <|> rules.parentAmong? (outerContent type)

/-- The parts of the parent, if they are included. -/
def inheritedParts (rules : FieldRules) (index : Index) (type : Option ComplexType) :
    List ContentPart :=
  if rules.includesParentFields then
    ((rules.parent? type).bind index.complexType?).elim [] (lineageParts index)
  else []

/-- The parts that a run walks, in this order. -/
def runParts (rules : FieldRules) (index : Index) (type : Option ComplexType) :
    List ContentPart :=
  attributeParts (type.elim [] outerAttributes) ++ rules.inheritedParts index type
    ++ (type.bind outerContent).toList.map .content

/-- The type whose members become fields at a type path. -/
def Walks (rules : FieldRules) (index : Index) (path : String) (given type : Option ComplexType) :
    Prop :=
  if rules.isCustom then type = none else ∃ own, type = some own ∧ Defines index path given own

end FieldRules

/-- A field at a type path that comes from no attribute or element: what refers back to an owner,
the value of simple content, the bag, or a field that the settings add. -/
inductive Unclassified (settings : Settings) (rules : FieldRules) (type : Option ComplexType)
    (field : Field) : Prop
  | back (refers : field.refersBack = true)
  | value (valued : type.any hasValue = true) (name : field.name = "value")
      (path : field.dottedPath = "value")
  | bag (name : field.name = settings.compiler.bagFieldName) (path : field.dottedPath = "")
      (holds : ∃ entries, field.kind = .jsonBag entries)
  | extra (path : field.dottedPath = "")
      (configured : ∃ extra ∈ rules.options.addFields, extra.name = field.name)

/-- The bag that entries make, recorded one after the other. -/
def recordedBag (index : Index) (rules : FieldRules) (events : List Event) : Option Bag :=
  (events.filterMap (Event.entries? index rules)).foldl addEntries none

/-- What leaves the fields of a type path: the events that the walked parts unfold to, among other
offers. -/
structure RunLog (index : Index) (settings : Settings) (rules : FieldRules)
    (type : Option ComplexType) (fields : List Field) where
  events : List Event
  offers : List Offer
  unfolds : Unfolds index rules .outermost (rules.runParts index type) events
  members : offers.filterMap (·.occurrence) = events.filterMap Event.occurrence?
  isField : ∀ offer ∈ offers, ∀ occurrence, offer.occurrence = some occurrence →
    IsFieldOf rules occurrence offer.field
  other : ∀ offer ∈ offers, offer.occurrence = none →
    Unclassified settings rules type offer.field
  columns : columnsOf fields = offeredColumns offers
  bag : ∀ bag, recordedBag index rules events = some bag →
    rules.dropAfterProcessing.contains settings.compiler.bagFieldName = false →
      ∃ field ∈ fields, field.name = settings.compiler.bagFieldName ∧ field.kind = .jsonBag bag

/-! ## Small walks -/

section Small

variable {context : Context} {watch : Watch} {onward : Onward}

/-- A field that comes from no member leaves no event. -/
theorem addOther_quiet {field : Field} (materialized : field.isMaterialized = true)
    (other : ∀ state, watch.Other { field with
      kind := setRelatedName (reverseName? state watch.path field) field.kind }) :
    Quiet watch (addField context watch.rules watch.path field) fun _ => True := by
  intro state result final wellFormed built ran
  obtain ⟨bags, offers⟩ := addField_offers wellFormed built materialized none (other state) ran
  exact ⟨[], ⟨rfl, trivial⟩, by simpa using offers, by rw [bags]; rfl⟩

theorem addBacks_quiet {fields : List Field} (backs : AllBack fields) :
    Quiet watch (addFields context watch.rules watch.path fields) fun _ => True := by
  induction fields with
  | nil => exact .returns trivial
  | cons field rest ih =>
    obtain ⟨owner, relation, name, oneToOne, rfl⟩ := backs field List.mem_cons_self
    have added : Quiet watch (addField context watch.rules watch.path
        (backReference owner relation name oneToOne)) fun _ => True :=
      addOther_quiet rfl fun state => by
        rw [reverseName?_backReference]
        exact watch.backs _ rfl
    exact added.then_ fun _ _ => ih fun other member => backs other (List.mem_cons_of_mem _ member)

/-- A change of the entity that leaves its name, its source and its fields alone. -/
theorem modifyEntity_quiet {change : Entity → Entity}
    (same : ∀ entity, ((change entity).name, (change entity).sourceTypes, (change entity).fields) =
      (entity.name, entity.sourceTypes, entity.fields) := by intro entity; rfl) :
    Quiet watch (modifyEntity context watch.path change) fun _ => True := by
  intro state result final _ built ran
  obtain ⟨entity, found, ran⟩ := entityAt_bind_eq_ok ran
  cases ran
  obtain ⟨name, source, fields⟩ := by simpa using same entity
  exact ⟨[], ⟨rfl, trivial⟩, .of_changed ‹_› found name source (by rw [fields]), rfl⟩

end Small

/-! ## The parts of a run -/

section Parts

variable {context : Context} {watch : Watch} {onward : Onward} {scope : Scope} {type : ComplexType}

theorem namedScalar_quiet (name : String) :
    Quiet watch (namedScalar context name) fun _ => True :=
  deriveScalar_quiet _

/-- What the outline tells of its type. -/
def Outline.Tells (rules : FieldRules) (type : ComplexType) (outline : Outline) : Prop :=
  outline.parent = (outerBase? type <|> rules.parentAmong? (outerContent type)) ∧
    outline.content = outerContent type

/-- Before the parent is selected, it is the base. -/
theorem outline_logs (onwardLogs : OnwardLogs context watch onward)
    (stands : scope.StandsAt watch .outermost)
    (other : ∀ field : Field, hasValue type = true → field.name = "value" →
      field.dottedPath = "value" → watch.Other field) :
    Logs watch (outline context onward scope type) fun outline events =>
      outline.parent = outerBase? type ∧ outline.content = outerContent type ∧
        ∃ own, outerAttributes type = type.attributes ++ own ∧
          Unfolds context.index watch.rules .outermost (attributeParts own) events := by
  unfold outline outerBase? outerContent outerAttributes
  cases content : type.content with
  | some particle => exact .returns ⟨rfl, rfl, [], rfl, .nil⟩
  | none =>
    cases extended : type.extension with
    | some extension =>
      have walks : Logs watch (do
          walkAttributes context onward scope extension.attributes
          return (⟨some extension.base, extension.content⟩ : Outline)) fun outline events =>
            outline.parent = some extension.base ∧ outline.content = extension.content ∧
              ∃ own, type.attributes ++ extension.attributes = type.attributes ++ own ∧
                Unfolds context.index watch.rules .outermost (attributeParts own) events :=
        (walkAttributes_logs onwardLogs stands _).bind fun _ events unfolds =>
          .returns ⟨rfl, rfl, _, rfl, by rwa [List.append_nil]⟩
      dsimp only
      split
      · exact (notify_quiet _).then_ fun _ _ => walks
      · exact walks
    | none =>
      cases simple : type.simpleContent with
      | some inner =>
        refine (walkAttributes_logs onwardLogs stands _).bind fun _ events unfolds => ?_
        refine (namedScalar_quiet _).then_ fun repr _ => ?_
        extract_lets finalized
        rw [stands.rules, stands.typePath]
        refine Quiet.then_ (addOther_quiet rfl fun state => ?_) fun _ (_ : True) =>
          .returns ⟨rfl, rfl, _, rfl, by rwa [List.append_nil]⟩
        exact other _ (by simp [hasValue, content, extended, simple]) rfl rfl
      | none => exact (notify_quiet _).then_ fun _ _ => .returns ⟨rfl, rfl, [], rfl, .nil⟩

theorem attributeParts_append (items more : List AttributeItem) :
    attributeParts (items ++ more) = attributeParts items ++ attributeParts more :=
  List.filterMap_append

theorem walkOutline_logs (onwardLogs : OnwardLogs context watch onward)
    (stands : scope.StandsAt watch .outermost)
    (other : ∀ field : Field, hasValue type = true → field.name = "value" →
      field.dottedPath = "value" → watch.Other field) :
    Logs watch (walkOutline context onward scope type) fun outline events =>
      outline.Tells watch.rules type ∧ Unfolds context.index watch.rules .outermost
        (attributeParts (outerAttributes type)) events := by
  unfold walkOutline
  rw [stands.typePath]
  refine Quiet.then_ modifyEntity_quiet fun _ _ => ?_
  refine (walkAttributes_logs onwardLogs stands _).bind fun _ events unfolds => ?_
  refine (outline_logs onwardLogs stands other).bind fun outline more told => ?_
  obtain ⟨parent, content, own, attributes, others⟩ := told
  have all := unfolds.append others
  rw [← attributeParts_append, ← attributes] at all
  split
  next field unparented selects =>
    refine (Quiet.lifts _).then_ fun chosen selected => ?_
    refine .returns ⟨⟨?_, content⟩, by rwa [List.append_nil]⟩
    obtain ⟨particle, declaration, has, inside, rfl⟩ := parentByField_eq_ok selected
    rw [← parent, unparented, ← content, has, FieldRules.parentAmong?, ← stands.rules, selects]
    simp [inside]
  next settled =>
    refine .returns ⟨⟨?_, content⟩, by rwa [List.append_nil]⟩
    cases based : outline.parent with
    | some base => rw [← parent, based]; rfl
    | none =>
      have unselected : scope.rules.options.parentField = none := by
        by_contra selects
        obtain ⟨field, selects⟩ := Option.ne_none_iff_exists'.mp selects
        exact settled field based selects
      rw [← parent, based, FieldRules.parentAmong?, ← stands.rules, unselected]
      rfl

/-- Unless the fields of the parent are included, it is built and leaves no event. -/
theorem inherit_logs (onwardLogs : OnwardLogs context watch onward)
    (stands : scope.StandsAt watch .outermost) (parent : String) :
    Logs watch (inherit context onward scope parent) fun _ events =>
      Unfolds context.index watch.rules .outermost
        (if watch.rules.includesParentFields then
          (context.index.complexType? parent).elim [] (lineageParts context.index)
        else []) events := by
  unfold inherit
  rw [stands.rules]
  split
  · refine (Quiet.lifts _).then_ fun type found => ?_
    rw [complexType?_of_complexType found]
    exact onwardLogs.members type stands
  · refine (onwardLogs.build parent none [] allBack_nil).then_ fun name _ => ?_
    rw [stands.typePath]
    exact Logs.weaken modifyEntity_quiet fun _ events ⟨silent, _⟩ => silent ▸ .nil

theorem addExtra_quiet (onwardLogs : OnwardLogs context watch onward)
    (stands : scope.StandsAt watch .outermost) (extra : ExtraField)
    (other : ∀ field : Field, field.name = extra.name → field.dottedPath = "" →
      watch.Other field) :
    Quiet watch (addExtra context onward scope extra) fun _ => True := by
  have target (name : String) : Quiet watch (extraTarget context onward name) fun _ => True := by
    refine Quiet.reads.then_ fun state _ => ?_
    split
    · split
      · exact onwardLogs.build _ _ _ allBack_nil
      · exact .returns ⟨rfl, trivial⟩
    · exact .returns ⟨rfl, trivial⟩
  have kinds : Quiet watch (extraKind context onward extra)
      fun kind => kind.isMaterialized = true := by
    unfold extraKind
    split
    · refine (target _).then_ fun entity _ => ?_
      split <;> exact Quiet.returns rfl
    · exact Quiet.returns rfl
  refine kinds.then_ fun kind materialized => ?_
  rw [stands.rules, stands.typePath]
  exact addOther_quiet materialized fun state => other _ rfl rfl

end Parts

/-! ## The bag -/

section Bag

variable {context : Context} {watch : Watch} {scope : Scope} {state final : State}

/-- A field that cannot be coalesced is among the columns afterwards. -/
theorem insertField_jsonBag {entity after : Entity} {field : Field} {entries : Bag}
    (kind : field.kind = .jsonBag entries) (single : field.coalescedFrom = none)
    (inserted : insertField entity field = .ok after) :
    ∃ column ∈ columnsOf after.fields, column.name = field.name ∧
      column.kind = .jsonBag entries := by
  rcases (insertField_insertion inserted).present with
    ⟨known, member, name, _, same⟩ | ⟨former, coalesced, _⟩
  · have isBag : known.kind = .jsonBag entries := by
      rw [kind] at same
      exact same.elim FieldKind.eq_jsonBag_of_beq id
    have materialized : known.isMaterialized = true := by
      rw [Field.isMaterialized, isBag]
      rfl
    exact ⟨known.bare, mem_columnsOf member materialized, name, isBag⟩
  · rw [single] at coalesced
    cases coalesced

/-- The bag is taken, and becomes a column unless the rules leave it out. -/
theorem addBag_offers (stands : scope.StandsAt watch .outermost)
    (other : ∀ field : Field, field.name = context.settings.compiler.bagFieldName →
      field.dottedPath = "" → (∃ entries, field.kind = .jsonBag entries) → watch.Other field)
    (wellFormed : state.WellFormed) (built : state.isBuilt watch.path = true)
    (ran : (addBag context scope).run state = .ok ((), final)) :
    Offers watch [] state final ∧ ∀ entries, state.bags.get? watch.path = some entries →
      watch.rules.dropAfterProcessing.contains context.settings.compiler.bagFieldName = false →
        ∃ column ∈ columnsOf (final.fieldsAt watch.path),
          column.name = context.settings.compiler.bagFieldName ∧
          column.kind = .jsonBag entries := by
  obtain ⟨taken, emptied, ranTake, ran⟩ := run_bind_eq_ok.mp ran
  cases ranTake
  rw [stands.typePath, stands.rules] at ran
  have wellFormedEmptied : State.WellFormed
      { state with bags := state.bags.erase watch.path } :=
    ⟨wellFormed.sorted, wellFormed.known, wellFormed.named, wellFormed.source⟩
  cases has : state.bags.get? watch.path with
  | none =>
    rw [has] at ran
    cases ran
    exact ⟨.of_columns wellFormedEmptied built rfl, nofun⟩
  | some entries =>
    rw [has] at ran
    obtain ⟨_, offers⟩ := addField_offers wellFormedEmptied built rfl none
      (other _ rfl rfl ⟨entries, rfl⟩) ran
    simp only [Option.toList_none, ite_self] at offers
    refine ⟨⟨offers.wellFormed, offers.built, offers.columns⟩, fun same given wanted => ?_⟩
    obtain rfl := Option.some.inj given
    rcases addField_eq_ok ran with ⟨leftOut, _⟩ | ⟨entity, after, _, inserted, rfl⟩
    · exact absurd (wanted.symm.trans leftOut) Bool.false_ne_true
    · rw [State.fieldsAt_set, if_pos rfl]
      exact insertField_jsonBag rfl rfl inserted

end Bag

/-! ## Runs -/

section Runs

variable {context : Context} {names : List NameRule} {path : String}
  {given type : Option ComplexType} {before after : State} {rules : FieldRules}

/-- What a run at the type path may be offered. -/
def runWatch (context : Context) (path : String) (rules : FieldRules)
    (type : Option ComplexType) : Watch where
  index := context.index
  path := path
  rules := rules
  Other := Unclassified context.settings rules type
  backs _ refers := .back refers

theorem outermost_standsAt {entity : String} :
    (Scope.outermost path entity rules).StandsAt (runWatch context path rules type) .outermost :=
  ⟨rfl, rfl, rfl, rfl, rfl⟩

/-- A run has a type, or none that it walks. -/
theorem exists_walks {levels : Nat} {entity : String} {outline : Outline}
    {opened outlined : State}
    (ranOutline : (outlineOf context (onward context levels) (.outermost path entity rules)
      given).run opened = .ok (outline, outlined)) :
    ∃ type, rules.Walks context.index path given type := by
  unfold FieldRules.Walks
  split
  · exact ⟨none, rfl⟩
  next typed =>
    obtain ⟨own, defines, _⟩ := outlineOf_eq_ok (Bool.eq_false_iff.mpr typed) ranOutline
    exact ⟨some own, own, rfl, defines⟩

/-- The outline walks the attributes, and tells the parent and the content. -/
theorem outlineOf_logged {levels : Nat} {entity : String} {outline : Outline}
    {opened outlined : State} (wellFormed : opened.WellFormed) (built : opened.isBuilt path = true)
    (walks : rules.Walks context.index path given type)
    (ranOutline : (outlineOf context (onward context levels) (.outermost path entity rules)
      given).run opened = .ok (outline, outlined)) :
    ((rules.options.parentType <|> outline.parent) = rules.parent? type ∧
      outline.content = type.bind outerContent) ∧
    ∃ events, Unfolds context.index rules .outermost
        (attributeParts (type.elim [] outerAttributes)) events ∧
      Logged (runWatch context path rules type) events opened outlined := by
  rw [FieldRules.Walks] at walks
  split at walks
  next custom =>
    subst walks
    rw [outlineOf, if_pos (show (Scope.outermost path entity rules).rules.isCustom = true from
      custom)] at ranOutline
    cases ranOutline
    exact ⟨⟨rfl, rfl⟩, [], .nil, .of_same wellFormed built rfl rfl rfl⟩
  next typed =>
    obtain ⟨own, rfl, defines⟩ := walks
    obtain ⟨found, definesFound, ranWalk⟩ :=
      outlineOf_eq_ok (Bool.eq_false_iff.mpr typed) ranOutline
    obtain rfl := defines.unique definesFound
    obtain ⟨events, ⟨⟨parent, content⟩, unfolds⟩, logged⟩ :=
      walkOutline_logs (@onward_logs context (runWatch context path rules own) rfl levels)
        outermost_standsAt (fun field valued name dotted => .value valued name dotted) opened _ _
        wellFormed built ranWalk
    exact ⟨⟨by rw [parent]; rfl, content⟩, events, unfolds, logged⟩

/-- The parent may give its members. -/
theorem settles_logged {levels : Nat} {entity : String} {before after : State}
    (wellFormed : before.WellFormed) (built : before.isBuilt path = true)
    (settles : Settles context (onward context levels) (.outermost path entity rules)
      (rules.parent? type) before after) :
    ∃ events, Unfolds context.index rules .outermost (rules.inheritedParts context.index type)
        events ∧ Logged (runWatch context path rules type) events before after := by
  rcases settles with ⟨orphan, rfl⟩ | ⟨base, has, ranInherit⟩
  · refine ⟨[], ?_, .of_same wellFormed built rfl rfl rfl⟩
    rw [FieldRules.inheritedParts, orphan]
    simpa using Unfolds.nil
  · obtain ⟨events, unfolds, logged⟩ :=
      inherit_logs (@onward_logs context (runWatch context path rules type) rfl levels)
        outermost_standsAt base before _ _ wellFormed built ranInherit
    refine ⟨events, ?_, logged⟩
    rw [FieldRules.inheritedParts, has]
    exact unfolds

/-- The walks of a run that come before the bag, from the empty entity on. -/
theorem walks_logged {levels : Nat} {entity : String} {outline : Outline}
    {opened outlined settled walked : State}
    (wellFormed : opened.WellFormed) (built : opened.isBuilt path = true)
    (walks : rules.Walks context.index path given type)
    (ranOutline : (outlineOf context (onward context levels) (.outermost path entity rules)
      given).run opened = .ok (outline, outlined))
    (settles : Settles context (onward context levels) (.outermost path entity rules)
      (rules.options.parentType <|> outline.parent) outlined settled)
    (ranContent : (walkContent context (onward context levels) (.outermost path entity rules)
      outline.content).run settled = .ok ((), walked)) :
    ∃ events, Unfolds context.index rules .outermost (rules.runParts context.index type) events ∧
      Logged (runWatch context path rules type) events opened walked := by
  obtain ⟨⟨parent, content⟩, attributes, unfoldsAttributes, loggedAttributes⟩ :=
    outlineOf_logged wellFormed built walks ranOutline
  obtain ⟨inherited, unfoldsInherited, loggedInherited⟩ :=
    settles_logged loggedAttributes.wellFormed loggedAttributes.built (parent ▸ settles)
  obtain ⟨contents, unfoldsContent, loggedContent⟩ :=
    walkContent_logs (@onward_logs context (runWatch context path rules type) rfl levels)
      outermost_standsAt outline.content settled _ _ loggedInherited.wellFormed
      loggedInherited.built ranContent
  rw [content] at unfoldsContent
  exact ⟨_, (unfoldsAttributes.append unfoldsInherited).append unfoldsContent,
    (loggedAttributes.trans loggedInherited).trans loggedContent⟩

/-- What comes after the bag adds only what comes from no member. -/
theorem extras_quiet {levels : Nat} {entity : String} {fields : List Field}
    (backs : AllBack fields) :
    Quiet (runWatch context path rules type) (do
      rules.options.addFields.forM
        (addExtra context (onward context levels) (.outermost path entity rules))
      addFields context rules path fields
      let inherited := inheritedNumber? (← get) path
      modifyEntity context path (complete rules inherited)) fun _ => True := by
  let watch := runWatch context path rules type
  have onwardLogs := @onward_logs context watch rfl levels
  have stands : (Scope.outermost path entity rules).StandsAt watch .outermost :=
    ⟨rfl, rfl, rfl, rfl, rfl⟩
  have extras : Quiet watch (rules.options.addFields.forM
      (addExtra context (onward context levels) (.outermost path entity rules)))
      fun _ => True := by
    refine Quiet.repeats fun extra configured => ?_
    exact addExtra_quiet onwardLogs stands extra fun field name dotted =>
      .extra dotted ⟨extra, configured, name.symm⟩
  refine extras.then_ fun _ _ => (addBacks_quiet backs).then_ fun _ _ => ?_
  exact Quiet.reads.then_ fun state _ => modifyEntity_quiet

/-- What a run for a type path leaves is logged. -/
theorem BuildRun.exists_log {levels : Nat}
    (run : BuildRun context names path given levels before after)
    (unbagged : path ∉ before.bags.names) :
    ∃ rules type, context.book.forType (nameOf names path).entity path = .ok rules ∧
      rules.Walks context.index path given type ∧
      Nonempty (RunLog context.index context.settings rules type (after.fieldsAt path)) := by
  obtain ⟨fields, backs, ran⟩ := run.ran
  obtain ⟨rules, outline, outlined, settled, read, ranOutline, settles, ranFill⟩ :=
    buildNew_eq_ok ran
  obtain ⟨type, walks⟩ := exists_walks ranOutline
  refine ⟨rules, type, read, walks, ?_⟩
  let watch := runWatch context path rules type
  have wellFormedOpened := run.wellFormed.opened run.named path
  obtain ⟨_, walked, ranContent, ranFill⟩ := run_bind_eq_ok.mp ranFill
  obtain ⟨events, unfolds, logged⟩ := walks_logged wellFormedOpened
    (State.isBuilt_set.mpr (.inl rfl)) walks ranOutline settles ranContent
  obtain ⟨_, bagged, ranBag, ranRest⟩ := run_bind_eq_ok.mp ranFill
  obtain ⟨bagOffers, isBag⟩ := addBag_offers outermost_standsAt (fun field name dotted holds =>
    .bag name dotted holds) logged.wellFormed logged.built ranBag
  obtain ⟨_, ⟨rfl, _⟩, rest⟩ :=
    extras_quiet backs bagged _ _ bagOffers.wellFormed bagOffers.built ranRest
  have empty : columnsOf (State.fieldsAt { before with
      entities := before.entities.set path (.ofTypePath (nameOf names path).entity path) } path) =
        offeredColumns [] := by
    rw [State.fieldsAt_set, if_pos rfl]
    rfl
  obtain ⟨offers, members, accepted, columns⟩ := logged.columns [] empty
  obtain ⟨bagOffered, noneOfBag, acceptedBag, columnsBag⟩ := bagOffers.columns _ columns
  obtain ⟨more, noneOfMore, acceptedMore, columnsMore⟩ := rest.columns _ columnsBag
  rw [List.nil_append] at columnsBag columnsMore
  have all (offer : Offer) (member : offer ∈ offers ++ bagOffered ++ more) :
      watch.Accepts offer := by
    rcases List.mem_append.mp member with early | late
    · exact (List.mem_append.mp early).elim (accepted offer) (acceptedBag offer)
    · exact acceptedMore offer late
  refine ⟨⟨events, offers ++ bagOffered ++ more, unfolds, ?_, ?_, ?_, columnsMore, ?_⟩⟩
  · rw [List.filterMap_append, List.filterMap_append, members, noneOfBag, noneOfMore]
    simp
  · intro offer member occurrence has
    have isAccepted := all offer member
    rw [Watch.Accepts, has] at isAccepted
    exact isAccepted
  · intro offer member has
    have isAccepted := all offer member
    rw [Watch.Accepts, has] at isAccepted
    exact isAccepted
  · intro bag recorded wanted
    have begun : before.bags.get? path = none := (Table.get?_eq_none_iff _ _).mpr unbagged
    have has : walked.bags.get? path = some bag := by
      rw [← recorded, recordedBag, ← begun]
      exact logged.bag
    obtain ⟨column, member, name, kind⟩ := isBag bag has wanted
    -- No column is lost to what comes behind the bag.
    have stays : column ∈ columnsOf (after.fieldsAt path) :=
      columnsMore ▸ mem_offeredColumns_append (columnsBag ▸ member) more
    obtain ⟨field, kept, rfl⟩ := List.mem_map.mp stays
    exact ⟨field, (List.mem_filter.mp kept).1, name, kind⟩

end Runs

end EntityGraph.Compile
