import EntityGraph.Proofs.Build.Histories
import EntityGraph.Proofs.Build.Unfolding

/-!
# Offered fields

An entity is offered one field after the other, and keeps the first one of each name. So its
materialized fields, but for their documentation, are a function of what it has been offered.

While the entity of a type path is under construction, walks lead to the entities of other paths and
build them. All that those runs do to the entity at hand is to add fields that refer back to owners.
Its bag they leave alone. So what an entity gets besides comes from the walks at its own places.
-/
namespace EntityGraph.Compile

open Schema (ComplexType)

variable {context : Context} {names : List NameRule} {watched path : String} {fields : List Field}
  {bag : Option Bag} {pending : List String} {state later : State} {entity : Entity}

/-! ## What a run does to other entities -/

/-- All that is new refers back, and the names of the materialized fields stay different. -/
structure OnlyBacks (fields later : List Field) : Prop where
  adds : AddsBacks fields later
  distinct : (materializedNames fields).Nodup → (materializedNames later).Nodup

namespace OnlyBacks

theorem refl (fields : List Field) : OnlyBacks fields fields := ⟨.refl fields, id⟩

theorem trans {first middle last : List Field} (toMiddle : OnlyBacks first middle)
    (toLast : OnlyBacks middle last) : OnlyBacks first last :=
  ⟨toMiddle.adds.trans toLast.adds, fun distinct => toLast.distinct (toMiddle.distinct distinct)⟩

theorem of_insertField {owner relation name : String} {oneToOne : Bool} {after : Entity}
    (inserted : insertField entity (backReference owner relation name oneToOne) = .ok after) :
    OnlyBacks entity.fields after.fields :=
  ⟨.of_insertField inserted, (insertField_insertion inserted).placed.nodup⟩

end OnlyBacks

/-- The watched path is none of those that other runs have under construction. Its fields are the
given ones and some that refer back, and its bag is the given one. -/
structure Bystands (names : List NameRule) (watched : String) (fields : List Field)
    (bag : Option Bag) (pending : List String) (state : State) : Prop where
  wellFormed : state.WellFormed
  named : state.resolver.rules = names
  outside : watched ∉ pending
  built : state.isBuilt watched = true
  fields : OnlyBacks fields (state.fieldsAt watched)
  bag : state.bags.get? watched = bag

namespace Bystands

theorem refl (wellFormed : state.WellFormed) (built : state.isBuilt watched = true) :
    Bystands state.resolver.rules watched (state.fieldsAt watched) (state.bags.get? watched) []
      state :=
  ⟨wellFormed, rfl, List.not_mem_nil, built, .refl _, rfl⟩

/-- The entities do not change. -/
theorem of_same (bystands : Bystands names watched fields bag pending state)
    (entities : later.entities = state.entities) (rules : later.resolver.rules = names)
    (known : ∀ path name, later.resolver.known.get? path = some name → name = nameOf names path)
    (bags : later.bags.get? watched = state.bags.get? watched) :
    Bystands names watched fields bag pending later where
  wellFormed := by
    obtain ⟨sorted, _, ofPath, source⟩ := bystands.wellFormed
    rw [bystands.named] at ofPath
    exact ⟨entities ▸ sorted, rules ▸ known, rules ▸ entities ▸ ofPath, entities ▸ source⟩
  named := rules
  outside := bystands.outside
  built := by
    rw [State.isBuilt, entities]
    exact bystands.built
  fields := State.fieldsAt_of_same entities watched ▸ bystands.fields
  bag := bags.trans bystands.bag

/-- An entity gets a later form. If it is the watched one, no more than fields that refer back are
new. -/
theorem set (bystands : Bystands names watched fields bag pending state)
    (found : state.entities.get? path = some entity) {last : Entity}
    (name : last.name = entity.name)
    (source : last.sourceTypes = entity.sourceTypes)
    (adds : path = watched → OnlyBacks entity.fields last.fields) :
    Bystands names watched fields bag pending
      { state with entities := state.entities.set path last } where
  wellFormed := bystands.wellFormed.set
    (name.trans (bystands.wellFormed.named path entity found))
    (source.trans (bystands.wellFormed.source path entity found))
  named := bystands.named
  outside := bystands.outside
  built := State.isBuilt_set.mpr (.inr bystands.built)
  fields := by
    rw [State.fieldsAt_set]
    split
    next same =>
      subst same
      exact bystands.fields.trans (State.fieldsAt_of_get? found ▸ adds rfl)
    next => exact bystands.fields
  bag := bystands.bag

/-- An empty entity is put in place. Its path is not the watched one, which has an entity. -/
theorem opened (bystands : Bystands names watched fields bag pending state)
    (fresh : state.isBuilt path = false) :
    Bystands names watched fields bag (path :: pending) { state with
      entities := state.entities.set path (.ofTypePath (nameOf names path).entity path) } := by
  have other : watched ≠ path := by
    rintro rfl
    rw [bystands.built] at fresh
    cases fresh
  exact {
    wellFormed := bystands.wellFormed.opened bystands.named path
    named := bystands.named
    outside := fun member => (List.mem_cons.mp member).elim other bystands.outside
    built := State.isBuilt_set.mpr (.inr bystands.built)
    fields := by
      rw [State.fieldsAt_set, if_neg other]
      exact bystands.fields
    bag := bystands.bag }

theorem mono (bystands : Bystands names watched fields bag pending state) {fewer : List String}
    (subset : fewer ⊆ pending) : Bystands names watched fields bag fewer state :=
  { bystands with outside := fun member => bystands.outside (subset member) }

/-- No place of a path under construction belongs to the watched path. -/
theorem ne (bystands : Bystands names watched fields bag pending state) (under : path ∈ pending) :
    path ≠ watched :=
  fun same => bystands.outside (same ▸ under)

end Bystands

/-- Walks at other places only add what refers back. -/
def bystanderLaw (context : Context) (names : List NameRule) (watched : String)
    (fields : List Field) (bag : Option Bag) (pending : List String) : WalkLaw context where
  Holds := Bystands names watched fields bag pending
  At scope := scope.typePath ∈ pending
  words := .all _
  Asks _ _ := True
  Found _ _ := True
  moved place same := (Prod.mk.inj same).1 ▸ place
  asks _ _ := trivial
  asks_named _ _ _ := trivial
  frame bystands entities resolver _ bags := by
    refine bystands.of_same entities (resolver ▸ bystands.named) ?_ ?_
    · rw [resolver, ← bystands.named]
      exact bystands.wellFormed.known
    · rcases bags watched with same | ⟨scope, place, own⟩
      · exact same
      · exact absurd own (bystands.ne place)
  naming bystands _ := by
    refine bystands.of_same rfl ((NameResolver.resolve_rules _ _).trans bystands.named) ?_ rfl
    rw [← bystands.named]
    exact NameResolver.resolve_known bystands.wellFormed.known _
  derives bystands _ _ := by
    refine ⟨bystands.of_same rfl bystands.named ?_ rfl, trivial⟩
    rw [← bystands.named]
    exact bystands.wellFormed.known
  added bystands place found _ inserted := by
    have grows := Grows.of_insertField inserted
    exact bystands.set found grows.name grows.source fun own => absurd own (bystands.ne place)
  referredBack bystands found inserted := by
    have grows := Grows.of_insertField inserted
    exact bystands.set found grows.name grows.source fun _ => .of_insertField inserted
  reshaped bystands found same := by
    obtain ⟨name, source, _, fields⟩ := by simpa using same
    exact bystands.set found name source fun _ => fields ▸ .refl _

/-- A run has its own path under construction, and that is not the watched one. -/
def bystanderLaws (context : Context) (names : List NameRule) (watched : String)
    (fields : List Field) (bag : Option Bag) : RunLaw context names where
  law := bystanderLaw context names watched fields bag
  wellFormed := Bystands.wellFormed
  named := Bystands.named
  asked _ := trivial
  outermost _ _ := List.mem_cons_self
  opened bystands _ fresh := bystands.opened fresh
  adopted bystands found _ :=
    bystands.set found rfl rfl fun own => absurd own (bystands.ne List.mem_cons_self)
  closed _ _ _ ended := ended.mono (List.subset_cons_self _ _)

/-- A run that builds or extends another entity, or this one, adds no more to this one than what
refers back, and leaves its bag alone. -/
theorem onward_build_bystands {levels : Nat} {type : Option ComplexType} {backs : List Field}
    {target : String} (wellFormed : state.WellFormed) (built : state.isBuilt watched = true)
    (allBack : AllBack backs)
    (ran : ((onward context levels).build path type backs).run state = .ok (target, later)) :
    Bystands state.resolver.rules watched (state.fieldsAt watched) (state.bags.get? watched) []
      later := by
  let laws := bystanderLaws context state.resolver.rules watched (state.fieldsAt watched)
    (state.bags.get? watched)
  have keeps := (laws.onward_keeps levels []).build path type backs trivial allBack
  exact ((keeps state (.refl wellFormed built)).2 _ _ ran).1

end EntityGraph.Compile

namespace EntityGraph

/-! ## Columns -/

/-- The materialized fields, without their documentation. -/
def columnsOf (fields : List Field) : List Field :=
  (fields.filter Field.isMaterialized).map Field.bare

theorem mem_columnsOf {fields : List Field} {field : Field} (member : field ∈ fields)
    (materialized : field.isMaterialized = true) : field.bare ∈ columnsOf fields :=
  List.mem_map_of_mem (List.mem_filter.mpr ⟨member, materialized⟩)

theorem columnsOf_append (fields more : List Field) :
    columnsOf (fields ++ more) = columnsOf fields ++ columnsOf more := by
  simp [columnsOf]

theorem columnsOf_singleton {field : Field} (materialized : field.isMaterialized = true) :
    columnsOf [field] = [field.bare] := by
  simp [columnsOf, materialized]

theorem columnsOf_mark {field : Field} (mark : field.isMaterialized = false) :
    columnsOf [field] = [] := by
  simp [columnsOf, mark]

theorem names_columnsOf (fields : List Field) :
    (columnsOf fields).map (·.name) = materializedNames fields := by
  simp [columnsOf, materializedNames, Field.bare]

/-- More documentation changes no column. -/
theorem columnsOf_set {fields : List Field} {slot : Nat} {first : Field}
    (place : fields[slot]? = some first) (documentation : List String) :
    columnsOf (fields.set slot { first with documentation }) = columnsOf fields := by
  induction fields generalizing slot with
  | nil => simp at place
  | cons field rest ih =>
    cases slot with
    | zero =>
      obtain rfl : field = first := by simpa using place
      have same : Field.bare { field with documentation } = field.bare := rfl
      have kept : Field.isMaterialized { field with documentation } = field.isMaterialized := rfl
      simp [columnsOf, List.filter_cons, kept, apply_ite, same]
    | succ slot =>
      have others := ih (show rest[slot]? = some first by simpa using place)
      simp only [columnsOf] at others ⊢
      cases kept : field.isMaterialized <;> simp [kept, others]

namespace Compile

variable {entity after : Entity} {field : Field}

/-- Inserting a field adds a column if the field is materialized and its name is free. -/
theorem insertField_columns (inserted : insertField entity field = .ok after) :
    columnsOf after.fields = columnsOf entity.fields ++
      if field.isMaterialized && !(materializedNames entity.fields).contains field.name then
        [field.bare] else [] := by
  have tests (known : Field) : (known.name == field.name && known.isMaterialized) = true ↔
      known.isMaterialized = true ∧ known.name = field.name := by
    simp [and_comm]
  have taken {slot : Nat} {first : Field} (place : entity.fields[slot]? = some first)
      (materialized : first.isMaterialized = true) (name : first.name = field.name) :
      (materializedNames entity.fields).contains field.name = true :=
    List.contains_iff_mem.mpr
      (mem_materializedNames.mpr ⟨first, List.mem_of_getElem? place, materialized, name⟩)
  simp only [insertField] at inserted
  split at inserted
  next slot first former found coalesced =>
    -- The field becomes an alias, which is no column; the first one gets its documentation.
    obtain ⟨place, materialized, name⟩ := place_of_findIdx? found tests
    cases inserted
    rw [taken place materialized name, columnsOf_append, columnsOf_set place,
      columnsOf_mark rfl]
    simp
  next slot first found _ =>
    obtain ⟨place, materialized, name⟩ := place_of_findIdx? found tests
    rw [taken place materialized name]
    split at inserted
    next mark =>
      cases inserted
      rw [columnsOf_append, columnsOf_mark (by simpa using mark)]
      simp
    next =>
      split at inserted
      · cases inserted
        simp
      · cases inserted
  next missing =>
    have free := free_of_findIdx? missing tests
    cases inserted
    rw [columnsOf_append]
    cases materialized : field.isMaterialized with
    | true => simp [columnsOf_singleton materialized, free]
    | false => simp [columnsOf_mark materialized]

/-! ## Offers -/

/-- A materialized field that an entity is offered, and the member from which it comes. -/
structure Offer where
  field : Field
  occurrence : Option Occurrence

/-- Takes an offer, unless there is one of its name already. -/
def takeOffer (taken : List Offer) (offer : Offer) : List Offer :=
  if taken.any (·.field.name == offer.field.name) then taken else taken ++ [offer]

/-- The first offer of each name. -/
def firstOffers (offers : List Offer) : List Offer := offers.foldl takeOffer []

/-- The columns that come of offers. -/
def offeredColumns (offers : List Offer) : List Field := (firstOffers offers).map (·.field.bare)

theorem firstOffers_append_singleton (offers : List Offer) (offer : Offer) :
    firstOffers (offers ++ [offer]) = takeOffer (firstOffers offers) offer := by
  simp [firstOffers]

theorem any_firstOffers (offers : List Offer) (name : String) :
    (firstOffers offers).any (·.field.name == name) = offers.any (·.field.name == name) := by
  induction offers using List.reverseRecOn with
  | nil => rfl
  | append_singleton offers offer ih =>
    rw [firstOffers_append_singleton, takeOffer, List.any_append, ← ih]
    split
    next known =>
      by_cases same : offer.field.name = name
      · simp [← same, known]
      · simp [same]
    next => simp

/-- What is taken is the first offer of its name. -/
theorem find?_of_mem_firstOffers {offers : List Offer} {offer : Offer}
    (member : offer ∈ firstOffers offers) :
    offers.find? (·.field.name == offer.field.name) = some offer := by
  induction offers using List.reverseRecOn with
  | nil => cases member
  | append_singleton offers last ih =>
    have earlier (member : offer ∈ firstOffers offers) :
        (offers ++ [last]).find? (·.field.name == offer.field.name) = some offer := by
      rw [List.find?_append, ih member]
      rfl
    rw [firstOffers_append_singleton, takeOffer] at member
    split at member
    · exact earlier member
    next free =>
      rcases List.mem_append.mp member with old | new
      · exact earlier old
      · obtain rfl := List.mem_singleton.mp new
        rw [any_firstOffers] at free
        have missing : offers.find? (·.field.name == offer.field.name) = none := by simpa using free
        rw [List.find?_append, missing]
        simp

theorem names_offeredColumns (offers : List Offer) :
    (offeredColumns offers).map (·.name) = (firstOffers offers).map (·.field.name) := by
  simp [offeredColumns, Field.bare]

theorem nodup_offeredColumns (offers : List Offer) :
    ((offeredColumns offers).map (·.name)).Nodup := by
  rw [names_offeredColumns]
  induction offers using List.reverseRecOn with
  | nil => exact List.nodup_nil
  | append_singleton offers offer ih =>
    rw [firstOffers_append_singleton, takeOffer]
    split
    · exact ih
    next free =>
      rw [List.map_append]
      refine List.nodup_append.mpr ⟨ih, by simp, ?_⟩
      rintro _ known _ single rfl
      obtain ⟨old, member, name⟩ := List.mem_map.mp known
      exact free (List.any_eq_true.mpr ⟨old, member, by simp_all⟩)

theorem offeredColumns_append_singleton (offers : List Offer) (offer : Offer) :
    offeredColumns (offers ++ [offer]) = offeredColumns offers ++
      if ((offeredColumns offers).map (·.name)).contains offer.field.name then []
      else [offer.field.bare] := by
  have known : ((offeredColumns offers).map (·.name)).contains offer.field.name =
      (firstOffers offers).any (·.field.name == offer.field.name) := by
    rw [names_offeredColumns, List.contains_eq_any_beq, List.any_map]
    simp [Function.comp_def, Bool.beq_comm]
  rw [known, offeredColumns, firstOffers_append_singleton, takeOffer]
  split <;> simp [offeredColumns]

/-- Later offers take no column away. -/
theorem mem_offeredColumns_append {offers : List Offer} {column : Field}
    (member : column ∈ offeredColumns offers) (more : List Offer) :
    column ∈ offeredColumns (offers ++ more) := by
  induction more using List.reverseRecOn with
  | nil => rwa [List.append_nil]
  | append_singleton more offer ih =>
    rw [← List.append_assoc, offeredColumns_append_singleton]
    exact List.mem_append_left _ ih

/-- Where the columns come of offers, each materialized field is the first offer of its name, but
for its documentation. -/
theorem exists_offer {fields : List Field} {offers : List Offer}
    (columns : columnsOf fields = offeredColumns offers) (member : field ∈ fields)
    (materialized : field.isMaterialized = true) :
    ∃ offer, offers.find? (·.field.name == field.name) = some offer ∧
      offer.field.bare = field.bare := by
  obtain ⟨offer, taken, same⟩ := List.mem_map.mp (columns ▸ mem_columnsOf member materialized)
  have name : offer.field.name = field.name := (Field.bare_eq_iff.mp same).1
  exact ⟨offer, name ▸ find?_of_mem_firstOffers taken, same⟩

/-! ## Inserting what is offered -/

variable {offers : List Offer}

theorem insertField_offered (columns : columnsOf entity.fields = offeredColumns offers)
    (materialized : field.isMaterialized = true) (occurrence : Option Occurrence)
    (inserted : insertField entity field = .ok after) :
    columnsOf after.fields = offeredColumns (offers ++ [⟨field, occurrence⟩]) := by
  rw [insertField_columns inserted, offeredColumns_append_singleton, columns, materialized,
    ← names_columnsOf, columns]
  cases ((offeredColumns offers).map (·.name)).contains field.name <;> rfl

/-- A mark changes no column. -/
theorem insertField_mark (mark : field.isMaterialized = false)
    (inserted : insertField entity field = .ok after) :
    columnsOf after.fields = columnsOf entity.fields := by
  rw [insertField_columns inserted, mark]
  simp

/-- What refers back has been offered without a member. -/
theorem OnlyBacks.offered {fields later : List Field} (only : OnlyBacks fields later)
    (columns : columnsOf fields = offeredColumns offers) :
    ∃ backs : List Field, (∀ back ∈ backs, back.refersBack = true) ∧
      columnsOf later = offeredColumns (offers ++ backs.map (⟨·, none⟩)) := by
  obtain ⟨⟨backs, rfl, refer⟩, distinct⟩ := only
  refine ⟨backs, refer, ?_⟩
  have names : (materializedNames (fields ++ backs)).Nodup := by
    refine distinct ?_
    rw [← names_columnsOf, columns]
    exact nodup_offeredColumns offers
  clear distinct
  induction backs generalizing fields offers with
  | nil => simpa using columns
  | cons back rest ih =>
    have materialized : back.isMaterialized = true := by
      have refers := refer back List.mem_cons_self
      simp only [Field.refersBack] at refers
      split at refers
      next kind => simp [Field.isMaterialized, kind, FieldKind.isMaterialized]
      next => cases refers
    have free : back.name ∉ materializedNames fields := by
      intro taken
      rw [materializedNames_append] at names
      refine (List.nodup_append.mp names).2.2 _ taken back.name ?_ rfl
      exact mem_materializedNames.mpr ⟨back, List.mem_cons_self, materialized, rfl⟩
    have next : columnsOf (fields ++ [back]) = offeredColumns (offers ++ [⟨back, none⟩]) := by
      rw [columnsOf_append, columnsOf_singleton materialized, offeredColumns_append_singleton,
        ← columns, names_columnsOf, if_neg (by simpa using free)]
    have all := ih next (fun other member => refer other (List.mem_cons_of_mem _ member))
      (by rwa [List.append_assoc])
    simpa using all

end Compile

end EntityGraph
