import EntityGraph.Proofs.Build.Offers

/-!
# What walks log

A walk at the places of a type path logs the events that the walked parts unfold to: the entity is
offered a field for each member that becomes one, in order, and the bag takes in the entries. In
between, the entities of relations may offer fields that refer back.
-/
namespace EntityGraph.Compile

open Schema (Attribute AttributeItem ComplexType Element Extension Index MaxOccurs Member Particle
  Wildcard)

/-! ## Logs -/

/-- The rules make no field nullable and change none of its properties. -/
def FieldRules.KeepsNullability (rules : FieldRules) : Prop :=
  ∀ name, rules.null.contains name = false ∧ rules.fieldOverride? name = none

/-- The field has the name and the path of a member, and may be null unless the member has to be
there. -/
structure IsFieldOf (rules : FieldRules) (occurrence : Occurrence) (field : Field) : Prop where
  name : field.name = rules.settledAt occurrence.location.ancestors occurrence.member
  dottedPath : field.dottedPath = rules.pathAt occurrence.location.ancestors occurrence.member
  nullable : rules.KeepsNullability → field.nullable = !occurrence.isRequired

/-- A type path with its rules, and what its entity may be offered besides the fields of members. -/
structure Watch where
  index : Index
  path : String
  rules : FieldRules
  Other : Field → Prop
  backs : ∀ field : Field, field.refersBack = true → Other field

/-- An offer is of the member that it comes from, or one of those that come from none. -/
def Watch.Accepts (watch : Watch) (offer : Offer) : Prop :=
  match offer.occurrence with
  | some occurrence => IsFieldOf watch.rules occurrence offer.field
  | none => watch.Other offer.field

/-- The bag with further entries. -/
def addEntries (bag : Option Bag) (entries : Bag) : Option Bag :=
  some ((bag.getD []).override entries)

/-- The entity has been offered fields for the given members, in order. -/
structure Offers (watch : Watch) (occurrences : List Occurrence) (before after : State) : Prop where
  wellFormed : after.WellFormed
  built : after.isBuilt watch.path = true
  columns : ∀ earlier, columnsOf (before.fieldsAt watch.path) = offeredColumns earlier →
    ∃ offers, offers.filterMap (·.occurrence) = occurrences ∧
      (∀ offer ∈ offers, watch.Accepts offer) ∧
      columnsOf (after.fieldsAt watch.path) = offeredColumns (earlier ++ offers)

/-- All of the events have taken place, in order. -/
structure Logged (watch : Watch) (events : List Event) (before after : State) : Prop extends
    Offers watch (events.filterMap Event.occurrence?) before after where
  bag : after.bags.get? watch.path =
    (events.filterMap (Event.entries? watch.index watch.rules)).foldl addEntries
      (before.bags.get? watch.path)

variable {watch : Watch} {events more : List Event} {occurrences others : List Occurrence}
  {before middle after : State}

theorem Offers.trans (first : Offers watch occurrences before middle)
    (second : Offers watch others middle after) :
    Offers watch (occurrences ++ others) before after where
  wellFormed := second.wellFormed
  built := second.built
  columns earlier same := by
    obtain ⟨offers, ofMembers, accepted, columns⟩ := first.columns earlier same
    obtain ⟨later, ofOthers, acceptedLater, columnsLater⟩ := second.columns _ columns
    refine ⟨offers ++ later, by rw [List.filterMap_append, ofMembers, ofOthers], ?_, ?_⟩
    · exact fun offer member => (List.mem_append.mp member).elim (accepted offer)
        (acceptedLater offer)
    · rw [columnsLater, List.append_assoc]

/-- The entity keeps its columns. -/
theorem Offers.of_columns (wellFormed : after.WellFormed) (built : after.isBuilt watch.path = true)
    (same : columnsOf (after.fieldsAt watch.path) = columnsOf (before.fieldsAt watch.path)) :
    Offers watch [] before after := by
  refine ⟨wellFormed, built, fun earlier columns => ⟨[], rfl, ?_, ?_⟩⟩
  · intro offer member
    cases member
  · rw [List.append_nil, same, columns]

namespace Logged

theorem trans (first : Logged watch events before middle)
    (second : Logged watch more middle after) : Logged watch (events ++ more) before after where
  toOffers := by
    rw [List.filterMap_append]
    exact first.toOffers.trans second.toOffers
  bag := by rw [second.bag, first.bag, List.filterMap_append, List.foldl_append]

theorem of_same (wellFormed : before.WellFormed) (built : before.isBuilt watch.path = true)
    (entities : after.entities = before.entities) (resolver : after.resolver = before.resolver)
    (bags : after.bags = before.bags) : Logged watch [] before after where
  toOffers := by
    refine .of_columns ?_ ?_ (by rw [State.fieldsAt_of_same entities])
    · obtain ⟨sorted, known, named, source⟩ := wellFormed
      exact ⟨entities ▸ sorted, resolver ▸ known, entities ▸ resolver ▸ named, entities ▸ source⟩
    · rw [State.isBuilt, entities]
      exact built
  bag := by rw [bags]; rfl

theorem of_bystands {names : List NameRule} {pending : List String}
    (bystands : Bystands names watch.path (before.fieldsAt watch.path)
      (before.bags.get? watch.path) pending after) : Logged watch [] before after where
  wellFormed := bystands.wellFormed
  built := bystands.built
  columns earlier same := by
    obtain ⟨backs, refer, columns⟩ := bystands.fields.offered same
    refine ⟨backs.map (⟨·, none⟩), by simp, fun offer member => ?_, columns⟩
    obtain ⟨back, inBacks, rfl⟩ := List.mem_map.mp member
    exact watch.backs back (refer back inBacks)
  bag := bystands.bag

end Logged

/-! ## Walks that log -/

/-- If the walk gives a result, events have taken place that are as stated. -/
def Logs (watch : Watch) {α : Type} (walk : Walk α) (told : α → List Event → Prop) : Prop :=
  ∀ state result final, state.WellFormed → state.isBuilt watch.path = true →
    walk.run state = .ok (result, final) →
      ∃ events, told result events ∧ Logged watch events state final

/-- Nothing takes place at the type path, but that other entities may refer back to it. -/
abbrev Quiet (watch : Watch) {α : Type} (walk : Walk α) (ensures : α → Prop) : Prop :=
  Logs watch walk fun result events => events = [] ∧ ensures result

namespace Logs

variable {α β : Type} {told : α → List Event → Prop}

theorem returns {value : α} (holds : told value []) : Logs watch (pure value) told := by
  intro state result final wellFormed built ran
  cases ran
  exact ⟨[], holds, .of_same wellFormed built rfl rfl rfl⟩

theorem fails {failure : Error} : Logs watch (throw failure) told := by
  intro state result final _ _ ran
  cases ran

theorem bind {first : Walk α} {next : α → Walk β} {finally_ : β → List Event → Prop}
    (logs : Logs watch first told)
    (continues : ∀ value events, told value events →
      Logs watch (next value) fun result more => finally_ result (events ++ more)) :
    Logs watch (first >>= next) finally_ := by
  intro state result final wellFormed built ran
  obtain ⟨value, reached, ranFirst, ranNext⟩ := run_bind_eq_ok.mp ran
  obtain ⟨events, isTold, logged⟩ := logs state value reached wellFormed built ranFirst
  obtain ⟨more, done, loggedMore⟩ := continues value events isTold reached result final
    logged.wellFormed logged.built ranNext
  exact ⟨events ++ more, done, logged.trans loggedMore⟩

/-- What would come after a failure. -/
theorem stops {failure : Error} {next : α → Walk β} {told : β → List Event → Prop} :
    Logs watch (throw failure >>= next) told := by
  intro state result final _ _ ran
  cases ran

theorem weaken {walk : Walk α} {weaker : α → List Event → Prop} (logs : Logs watch walk told)
    (implies : ∀ value events, told value events → weaker value events) :
    Logs watch walk weaker := by
  intro state result final wellFormed built ran
  obtain ⟨events, isTold, logged⟩ := logs state result final wellFormed built ran
  exact ⟨events, implies result events isTold, logged⟩

end Logs

namespace Quiet

variable {α β : Type} {ensures : α → Prop}

/-- A walk that goes on after a quiet one. -/
theorem then_ {first : Walk α} {next : α → Walk β} {told : β → List Event → Prop}
    (quiet : Quiet watch first ensures)
    (continues : ∀ value, ensures value → Logs watch (next value) told) :
    Logs watch (first >>= next) told :=
  Logs.bind quiet fun value _ ⟨silent, ensured⟩ => silent ▸ continues value ensured

theorem returns {value : α} (holds : ensures value) : Quiet watch (pure value) ensures :=
  Logs.returns ⟨rfl, holds⟩

/-- A walk that leaves the entities, the names and the bags alone. -/
theorem of_same {walk : Walk α}
    (keeps : ∀ state result final, walk.run state = .ok (result, final) →
      final.entities = state.entities ∧ final.resolver = state.resolver ∧
        final.bags = state.bags ∧ ensures result) : Quiet watch walk ensures := by
  intro state result final wellFormed built ran
  obtain ⟨entities, resolver, bags, ensured⟩ := keeps state result final ran
  exact ⟨[], ⟨rfl, ensured⟩, .of_same wellFormed built entities resolver bags⟩

theorem lifts (computation : Result α) :
    Quiet watch (liftM computation) fun value => computation = .ok value := by
  refine of_same fun state result final ran => ?_
  obtain ⟨same, rfl⟩ := run_lift_eq_ok ran
  exact ⟨rfl, rfl, rfl, same⟩

/-- Doing the same quiet walk for each item. -/
theorem repeats {items : List α} {walk : α → Walk Unit}
    (each : ∀ item ∈ items, Quiet watch (walk item) fun _ => True) :
    Quiet watch (items.forM walk) fun _ => True := by
  induction items with
  | nil => exact .returns trivial
  | cons item rest ih =>
    exact (each item List.mem_cons_self).then_ fun _ _ =>
      ih fun other member => each other (List.mem_cons_of_mem _ member)

theorem reads : Quiet watch (get : Walk State) fun _ => True := by
  refine of_same fun state result final ran => ?_
  cases ran
  exact ⟨rfl, rfl, rfl, trivial⟩

end Quiet

/-! ## Quiet walks -/

theorem notify_quiet (notice : Diagnostic) : Quiet watch (notify notice) fun _ => True := by
  refine .of_same fun state result final ran => ?_
  cases ran
  exact ⟨rfl, rfl, rfl, trivial⟩

theorem nextChoice_quiet : Quiet watch nextChoice fun _ => True := by
  refine .of_same fun state result final ran => ?_
  cases ran
  exact ⟨rfl, rfl, rfl, trivial⟩

theorem produced_quiet (path : String) : Quiet watch (produced path) fun _ => True := by
  refine .of_same fun state result final ran => ?_
  cases ran
  exact ⟨rfl, rfl, rfl, trivial⟩

theorem deriveScalar_quiet (derive : Scalar.State → Scalar.Derivation) :
    Quiet watch (deriveScalar derive) fun _ => True := by
  refine .of_same fun state result final ran => ?_
  obtain ⟨scalars, _, rfl⟩ := deriveScalar_eq_ok ran
  exact ⟨rfl, rfl, rfl, trivial⟩

section Values

variable {context : Context} {onward : Onward} {scope : Scope} {site : Site}
  {declaration : Element} {type : Option ComplexType}

/-- Building other entities is quiet. -/
def BuildsQuietly (watch : Watch) (onward : Onward) : Prop :=
  ∀ path type backs, AllBack backs → Quiet watch (onward.build path type backs) fun _ => True

theorem repeatedElement_quiet (site : Site) (declaration : Element) :
    Quiet watch (repeatedElement context scope site declaration) fun _ => True := by
  unfold repeatedElement
  split
  · exact .returns trivial
  · refine (Quiet.lifts _).then_ fun type _ => ?_
    split
    · exact .returns ⟨rfl, trivial⟩
    · exact (notify_quiet _).then_ fun _ _ => .returns ⟨rfl, trivial⟩

theorem repeatedTarget_quiet (site : Site) (declaration : Element) :
    Quiet watch (repeatedTarget context scope site declaration) fun _ => True := by
  refine (repeatedElement_quiet site declaration).then_ fun (inner, name) _ => ?_
  refine (Quiet.lifts _).then_ fun type _ => ?_
  split
  · exact .returns ⟨rfl, trivial⟩
  · exact .fails

theorem inferTarget?_quiet (site : Site) (declaration : Element) (isComplex : Bool) :
    Quiet watch (inferTarget? context scope site declaration isComplex) fun inferred =>
      inferred.isSome = true → hasExplicitRule scope.rules site.name isComplex = false := by
  unfold inferTarget?
  split
  · exact .returns nofun
  next implicit =>
    refine (Quiet.lifts _).then_ fun repeats _ => ?_
    split
    · exact (repeatedTarget_quiet site declaration).then_ fun _ _ =>
        .returns ⟨rfl, fun _ => Bool.eq_false_iff.mpr implicit⟩
    · exact .returns ⟨rfl, nofun⟩

theorem singleTarget_quiet (site : Site) (declaration : Element) :
    Quiet watch (singleTarget context scope site declaration) fun _ => True := by
  refine (Quiet.lifts _).then_ fun type _ => ?_
  split
  · exact .returns ⟨rfl, trivial⟩
  · exact .fails

theorem manyTarget_quiet (site : Site) (declaration : Element) (configured : Option String)
    (inferred : Option Target) :
    Quiet watch (manyTarget context scope site declaration configured inferred)
      fun _ => True := by
  unfold manyTarget
  split
  · exact .returns trivial
  · exact .returns trivial
  · exact repeatedTarget_quiet site declaration

/-- Building an entity and referring to it. -/
theorem reference_quiet (quiet : BuildsQuietly watch onward) (path : String)
    (type : Option ComplexType) (oneToOne : Bool) (onDelete : OnDelete) :
    Quiet watch
      (do return ResolvedKind.reference (← onward.build path type []) oneToOne onDelete)
      fun resolved => resolved.kind.isMaterialized = true :=
  (quiet path type [] allBack_nil).then_ fun _ _ => .returns ⟨rfl, rfl⟩

theorem resolveNamed_quiet (quiet : BuildsQuietly watch onward) (name : String) :
    Quiet watch (resolveNamed context onward name)
      fun resolved => resolved.kind.isMaterialized = true := by
  unfold resolveNamed
  split
  · exact (deriveScalar_quiet _).then_ fun _ _ => .returns ⟨rfl, rfl⟩
  · exact (Quiet.lifts _).then_ fun type _ => reference_quiet quiet name (some type) _ _

theorem resolveValue_quiet (quiet : BuildsQuietly watch onward) (name : String)
    (hint : Option String) (member : Member) :
    Quiet watch (resolveValue context onward scope name hint member)
      fun resolved => resolved.kind.isMaterialized = true := by
  unfold resolveValue
  extract_lets types
  split
  · exact resolveNamed_quiet quiet _
  · exact (deriveScalar_quiet _).then_ fun _ _ => .returns ⟨rfl, rfl⟩
  · exact reference_quiet quiet _ _ _ _
  · exact (deriveScalar_quiet _).then_ fun _ _ => .returns ⟨rfl, rfl⟩

theorem listKind_isMaterialized {resolved list : ResolvedKind} {path : String}
    (listed : listKind resolved path = .ok list) : list.kind.isMaterialized = true := by
  obtain ⟨repr, kind⟩ := listKind_isList listed
  rw [kind]
  rfl

/-- The site of the outcome is the given one, but for its documentation, and its kind makes a
column. -/
def IsValueAt (site : Site) (outcome : ResolvedKind × MaxOccurs × Site) : Prop :=
  outcome.1.kind.isMaterialized = true ∧ ∃ doc, outcome.2.2 = { site with doc }

theorem resolveArray_quiet (quiet : BuildsQuietly watch onward) :
    Quiet watch (resolveArray context onward scope site declaration type) (IsValueAt site) := by
  unfold resolveArray
  extract_lets path
  split
  · refine (resolveValue_quiet quiet _ _ _).then_ fun resolved _ => ?_
    refine (Quiet.lifts _).then_ fun list listed => ?_
    exact .returns ⟨rfl, listKind_isMaterialized listed, _, rfl⟩
  · split
    · exact .fails
    · extract_lets most inner documented
      refine (resolveValue_quiet quiet _ _ _).then_ fun resolved _ => ?_
      refine (Quiet.lifts _).then_ fun list listed => ?_
      exact .returns ⟨rfl, listKind_isMaterialized listed, _, rfl⟩

theorem resolveForeignKey_quiet (quiet : BuildsQuietly watch onward) (name target : String) :
    Quiet watch (resolveForeignKey onward scope name target type)
      fun resolved => resolved.kind.isMaterialized = true := by
  unfold resolveForeignKey
  split
  · split
    · exact reference_quiet quiet _ _ _ _
    · exact .fails
  · exact reference_quiet quiet _ _ _ _

theorem resolveElement_quiet (quiet : BuildsQuietly watch onward) (hint : Option String)
    (extension : Option Extension) :
    Quiet watch (resolveElement context onward scope site declaration type hint extension)
      (IsValueAt site) := by
  unfold resolveElement
  split
  · exact resolveArray_quiet quiet
  · split
    · exact (resolveForeignKey_quiet quiet _ _).then_ fun _ column =>
        .returns ⟨rfl, column, _, rfl⟩
    · refine (quiet _ _ _ allBack_nil).then_ fun _ _ => ?_
      exact .returns ⟨rfl, rfl, _, rfl⟩
    · exact (resolveValue_quiet quiet _ _ _).then_ fun _ column =>
        .returns ⟨rfl, column, _, rfl⟩

theorem referencedExtension?_quiet :
    Quiet watch (referencedExtension? scope site type) fun extension => extension =
      if scope.rules.referenceExtension.contains site.name then type.bind (·.extension)
      else none := by
  unfold referencedExtension?
  split
  next unasked => exact .returns (by simp_all)
  next asked =>
    rw [if_pos (by simpa using asked)]
    extract_lets path
    split
    · exact .fails
    · extract_lets proceed
      split
      · exact (notify_quiet _).then_ fun _ _ => .returns ⟨rfl, rfl⟩
      · exact .returns rfl

theorem flatteningHint_quiet :
    Quiet watch (flatteningHint scope site type) fun _ => True := by
  unfold flatteningHint
  extract_lets path
  split
  · exact (notify_quiet _).then_ fun _ _ => .returns ⟨rfl, trivial⟩
  · split
    · exact (notify_quiet _).then_ fun _ _ => .returns ⟨rfl, trivial⟩
    · exact .returns trivial

theorem unflattenedHint_quiet :
    Quiet watch (unflattenedHint scope site type) fun _ => True := by
  unfold unflattenedHint
  split
  · exact flatteningHint_quiet
  · exact .returns trivial

end Values

end EntityGraph.Compile
