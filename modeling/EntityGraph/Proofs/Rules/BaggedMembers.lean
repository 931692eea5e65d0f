import EntityGraph.Proofs.Rules.Bags
import EntityGraph.Proofs.Schema.Places

/-!
# What is beneath bagged elements

An element that is kept in the bag is recorded with the attributes and elements beneath it, at any
depth and with those of the bases of types. Nothing is left out but what is behind a named type that
has been entered at another place. Documentation forgets no type that it has entered, so that this
does not only end recursion: a type that is met at two places is documented at the first one.
-/
namespace EntityGraph

namespace Compile

open Schema (AttributeItem ComplexType Element Extension Index Member Particle Place)

/-! ## The types of what is recorded -/

section Types

variable {index : Index} {rules : FieldRules}

/-- The elements of the part are those of known types. -/
def ContentPart.IsKnown (index : Index) : ContentPart → Prop
  | .attrib _ => True
  | .content particle => ∀ declaration ∈ particle.elements, index.HasElement declaration

theorem attributeParts_isKnown (items : List AttributeItem) :
    ∀ part ∈ attributeParts items, part.IsKnown index := by
  intro part member
  obtain ⟨item, _, gives⟩ := List.mem_filterMap.mp member
  split at gives
  · split at gives
    · exact (Option.some.inj gives) ▸ trivial
    · cases gives
  · cases gives

theorem contents_isKnown {type : ComplexType} (known : type ∈ index.types)
    {contents : List Particle} (has : contents ⊆ type.contents) :
    ∀ part ∈ contents.map .content, ContentPart.IsKnown index part := by
  intro part member
  obtain ⟨content, listed, rfl⟩ := List.mem_map.mp member
  exact fun declaration inside => ⟨type, known, content, has listed, inside⟩

theorem extensionParts_isKnown {type : ComplexType} (known : type ∈ index.types)
    {extension : Extension} (extends_ : type.extension = some extension) :
    ∀ part ∈ extensionParts extension, part.IsKnown index := by
  refine List.forall_mem_append.mpr ⟨attributeParts_isKnown _, contents_isKnown known ?_⟩
  exact List.subset_append_of_subset_right _ (by rw [extends_]; exact List.Subset.refl _)

theorem lineageParts_isKnown {type : ComplexType} (known : type ∈ index.types) :
    ∀ part ∈ lineageParts index type, part.IsKnown index := by
  intro part member
  obtain ⟨base, above, own⟩ := List.mem_flatMap.mp member
  have knownBase := Index.mem_types_of_lineage known above
  simp only [ownParts, List.mem_append] at own
  rcases own with (((attributes | attributes) | attributes) | content) | content
  · exact attributeParts_isKnown _ part attributes
  · exact attributeParts_isKnown _ part attributes
  · exact attributeParts_isKnown _ part attributes
  · exact contents_isKnown knownBase (List.subset_append_left _ _) part content
  · exact contents_isKnown knownBase (List.subset_append_right _ _) part content

theorem outerContent_subset (type : ComplexType) : (outerContent type).toList ⊆ type.contents := by
  unfold outerContent ComplexType.contents
  cases type.content with
  | none => exact List.subset_append_right _ _
  | some content => exact List.subset_append_left _ _

theorem runParts_isKnown {type : Option ComplexType}
    (known : ∀ own, type = some own → own ∈ index.types) :
    ∀ part ∈ rules.runParts index type, part.IsKnown index := by
  refine List.forall_mem_append.mpr ⟨List.forall_mem_append.mpr ⟨attributeParts_isKnown _, ?_⟩, ?_⟩
  · unfold FieldRules.inheritedParts
    split
    · cases inherits : (rules.parent? type).bind index.complexType? with
      | none => exact fun _ member => by cases member
      | some parent =>
        obtain ⟨_, _, found⟩ := Option.bind_eq_some_iff.mp inherits
        exact lineageParts_isKnown (Index.mem_types_of_complexType? found)
    · exact fun _ member => by cases member
  · cases type with
    | none => exact fun _ member => by cases member
    | some own => exact contents_isKnown (known own rfl) (outerContent_subset own)

theorem memberType_mem_types {part : ContentPart} {member : Member} {type : ComplexType}
    (known : part.IsKnown index) (isMember : part.member? = some member)
    (typed : memberType index member = .ok (some type)) : type ∈ index.types := by
  cases member with
  | attrib _ => cases typed
  | element declaration =>
    obtain rfl : part = .content (.element declaration) := by
      unfold ContentPart.member? at isMember
      split at isMember <;> cases isMember
      rfl
    exact (known declaration (List.mem_singleton_self _)).mem_types typed

/-- An element that refers to the base of an extension has a type with that extension. -/
theorem extension_of_treatment {name : String} {type : Option ComplexType} {declaration : Element}
    {extension : Extension}
    (treated : rules.treatment name type (.element declaration) = .field (some extension)) :
    ∃ own, type = some own ∧ own.extension = some extension := by
  unfold FieldRules.treatment at treated
  split at treated
  · split at treated <;> cases treated
  · split at treated
    all_goals first | cases treated | skip
    split at treated
    · exact Option.bind_eq_some_iff.mp (Treatment.field.inj treated)
    · cases treated

/-- Whatever is kept in the bag has a known type. -/
theorem Unfolds.bagged_mem_types {location : Location} {parts : List ContentPart}
    {events : List Event} (unfolds : Unfolds index rules location parts events)
    (known : ∀ part ∈ parts, part.IsKnown index) {occurrence : Occurrence} {type : ComplexType}
    (bagged : .bagged occurrence (some type) ∈ events) : type ∈ index.types := by
  induction unfolds with
  | nil => cases bagged
  | @compositor _ _ _ inside _ _ _ _ _ ihInside ihOthers =>
    obtain ⟨here, later⟩ := List.forall_mem_cons.mp known
    rcases List.mem_append.mp bagged with inner | others
    · refine ihInside (fun part member => ?_) inner
      obtain ⟨particle, listed, rfl⟩ := List.mem_map.mp member
      exact fun declaration has => here declaration (Schema.Particle.mem_elementsOf listed has)
    · exact ihOthers later others
  | wildcard _ ih =>
    obtain ⟨_, later⟩ := List.forall_mem_cons.mp known
    exact ih later ((List.mem_cons.mp bagged).resolve_left nofun)
  | marked _ _ _ ih => exact ih (List.forall_mem_cons.mp known).2 bagged
  | bagged isMember _ typed _ _ ih =>
    obtain ⟨here, later⟩ := List.forall_mem_cons.mp known
    rcases List.mem_append.mp bagged with own | others
    · cases FieldRules.eq_of_mem_unlessLeftOut own
      exact memberType_mem_types here isMember typed
    · exact ih later others
  | field _ _ _ _ _ ih =>
    refine ih (List.forall_mem_cons.mp known).2 ?_
    refine (List.mem_append.mp bagged).resolve_left fun own => ?_
    cases FieldRules.eq_of_mem_unlessLeftOut own
  | extended _ typed treated _ _ ihBehind ihOthers =>
    obtain ⟨here, later⟩ := List.forall_mem_cons.mp known
    rcases List.mem_append.mp bagged with first | others
    · obtain ⟨own, rfl, extends_⟩ := extension_of_treatment treated
      have knownOwn := memberType_mem_types here rfl typed
      refine ihBehind (extensionParts_isKnown knownOwn extends_) ?_
      refine (List.mem_append.mp first).resolve_left fun field => ?_
      cases FieldRules.eq_of_mem_unlessLeftOut field
    · exact ihOthers later others
  | flattened _ typed _ _ _ ihInside ihOthers =>
    obtain ⟨here, later⟩ := List.forall_mem_cons.mp known
    rcases List.mem_append.mp bagged with inner | others
    · exact ihInside (lineageParts_isKnown (memberType_mem_types here rfl typed)) inner
    · exact ihOthers later others

end Types

/-! ## What bags hold -/

/-- The entity has the bag, and it holds the paths. -/
def BagHolds (settings : Settings) (entity : Entity) (paths : List String) : Prop :=
  ∃ field ∈ entity.fields, field.name = settings.compiler.bagFieldName ∧
    ∃ bag, field.kind = .jsonBag bag ∧ paths ⊆ bag.names

theorem BagHolds.grown {settings : Settings} {entity later : Entity} {paths : List String}
    (holds : BagHolds settings entity paths) (grown : GrownEntity entity later) :
    BagHolds settings later paths := by
  obtain ⟨field, member, name, bag, kind, all⟩ := holds
  obtain ⟨other, otherMember, step⟩ := grown.exists_later member
  refine ⟨other, otherMember, step.name.trans name, ?_⟩
  rcases step.bag_cases with same | ⟨before, after, kindBefore, kindAfter, keeps⟩
  · exact ⟨bag, same.trans kind, all⟩
  · obtain rfl := FieldKind.jsonBag.inj (kind.symm.trans kindBefore)
    exact ⟨after, kindAfter, fun path inPaths => keeps path (all inPaths)⟩

theorem mem_names_bagEntries {index : Index} {key path : String} {doc : Option String}
    {type : Option ComplexType} :
    path ∈ (bagEntries index key doc type).names ↔
      path = key ∨ ∃ own, type = some own ∧ path ∈ (index.bagDocs key own).names := by
  rw [bagEntries, Table.mem_names_set]
  cases type <;> simp [Table.names]

/-- The bag that comes of a log holds the entries of everything that was kept there. -/
theorem RunLog.bag_holds {index : Index} {settings : Settings} {rules : FieldRules}
    {type : Option ComplexType} {built : Entity}
    (log : RunLog index settings rules type built.fields)
    (kept : rules.dropAfterProcessing.contains settings.compiler.bagFieldName = false)
    {event : Event} (member : event ∈ log.events) {entries : Bag}
    (records : event.entries? index rules = some entries) {key : String} (has : key ∈ entries.names)
    {paths : List String} (within : paths ⊆ entries.names) : BagHolds settings built paths := by
  have among : entries ⊆ recordings index rules log.events := fun entry inEntries =>
    List.mem_flatten.mpr ⟨entries, List.mem_filterMap.mpr ⟨event, member, records⟩, inEntries⟩
  obtain ⟨entry, inEntries, _⟩ := List.mem_map.mp has
  obtain ⟨field, inBuilt, name, bag, kind, docs⟩ :=
    log.exists_bag kept (List.ne_nil_of_mem (among inEntries))
  refine ⟨field, inBuilt, name, bag, kind, fun path inPaths => ?_⟩
  have recorded := lastDoc?_isSome.mpr (List.map_subset _ among (within inPaths))
  obtain ⟨doc, last⟩ := Option.isSome_iff_exists.mp (docs path ▸ recorded)
  exact Table.mem_names_of_get? last

end Compile

open Compile
open Schema (ComplexType Element Index Particle Place)

/-- Whatever is kept in the bag of a type path is documented with the members of places beneath its
type: no named type is entered twice, and none is left out but for one that is entered at another
place. So the bag, unless its field is left out, has the paths of all members at a place to which
every type on the way has its name at one place only. -/
theorem bagged_members_documented {document : Schema.Document} {index : Index}
    {settings : Settings} {graph : Graph} {levels : Nat}
    (indexed : Index.build document = .ok index)
    (compiled : compile index settings levels = .ok graph) :
    ∃ stages : Stages index settings graph levels, ∀ path built,
      stages.state.entities.get? path = some built → ∃ rules type,
        stages.Reads built.name path rules type ∧
        ∃ log : RunLog index settings rules type built.fields,
          rules.dropAfterProcessing.contains settings.compiler.bagFieldName = false →
          ∀ member location members,
            .bagged ⟨member, location⟩ (some members) ∈ log.events →
            let start : Place := ⟨rules.bagKeyAt location.ancestors member, members⟩
            ∃ survey : Index.Survey index start (index.bagDocs start.path members).names,
              (∀ place, index.ReachesSole start place → place ∈ survey.entered) ∧
              ∀ entity, entity = built ∨ entity ∈ graph.entities ∧ entity.sourceTypes = [path] →
                BagHolds settings entity (start.path :: survey.entered.flatMap Place.members) := by
  obtain ⟨stages⟩ := exists_stages compiled
  refine ⟨stages, fun path built found => ?_⟩
  obtain ⟨rules, type, reads, ⟨log⟩⟩ := stages.exists_log found
  refine ⟨rules, type, reads, log, fun kept member location members bagged => ?_⟩
  intro start
  have known : start.type ∈ index.types :=
    log.unfolds.bagged_mem_types (runParts_isKnown reads.mem_types) bagged
  obtain ⟨survey⟩ := Index.exists_survey (Index.build_namesTypes indexed) known
  refine ⟨survey, fun place reaches => survey.mem_entered reaches, fun entity which => ?_⟩
  have holds : BagHolds settings built (start.path :: survey.entered.flatMap Place.members) := by
    refine log.bag_holds kept bagged rfl (mem_names_bagEntries.mpr (.inl rfl)) ?_
    refine List.cons_subset.mpr ⟨mem_names_bagEntries.mpr (.inl rfl), fun path inside => ?_⟩
    exact mem_names_bagEntries.mpr
      (.inr ⟨members, rfl, (survey.paths path).mpr (List.mem_flatMap.mp inside)⟩)
  rcases which with rfl | ⟨inGraph, single⟩
  · exact holds
  · obtain ⟨same, foundSame, _, grown⟩ := stages.grownEntity_of_single inGraph single
    obtain rfl := Option.some.inj (foundSame.symm.trans found)
    exact holds.grown grown

/-! ## Journeys -/

/-- The data of a journey consist of its stops, each of which is a place with a city. -/
def journeyData (stops : List String) : ComplexType :=
  ⟨some "Data", false, none, [],
    some (.compositor .sequence .once
      (stops.map fun stop => .element (typedElement stop "Place" .one))), none, none, none⟩

def dataElement : Element := typedElement "data" "Data" .one

def cityPlace : ComplexType :=
  wrapping "Place" .sequence (typedElement "city" "xs:string" .one)

def journeyTypes (stops : List String) : List ComplexType :=
  [journeyData stops, wrapping "Owner" .sequence dataElement, cityPlace]

def journeyDocument (stops : List String) : Schema.Document :=
  { (default : Schema.Document) with complexTypes := journeyTypes stops }

/-- Owners of journeys. -/
def journeys (stops : List String) : Index :=
  { (default : Index) with
    complexTypes := ["Data", "Owner", "Place"].zip (journeyTypes stops) }

/-- The data are kept in the bag. -/
def keptData : Settings :=
  { settingsOf ["Owner"] with
    entities := [⟨"Owner", { EntityOptions.none with jsonFields := ["data"] }, []⟩] }

section

variable {stops : List String}

theorem elementComplexType_stop (stop : String) :
    (journeys stops).elementComplexType (typedElement stop "Place" .one) = .ok (some cityPlace) :=
  elementComplexType_typedElement (by decide +kernel) rfl

theorem elementComplexType_data :
    (journeys stops).elementComplexType dataElement = .ok (some (journeyData stops)) :=
  elementComplexType_typedElement (by decide +kernel) rfl

theorem elements_journeyData (path : String) :
    Place.elements ⟨path, journeyData stops⟩ = stops.map (typedElement · "Place" .one) := by
  have parts : Particle.elementsOf (stops.map fun stop => .element (typedElement stop "Place" .one))
      = stops.map (typedElement · "Place" .one) := by
    induction stops with
    | nil => rfl
    | cons stop rest ih =>
      rw [List.map_cons, Particle.elementsOf, ih]
      rfl
  simp [Place.elements, ComplexType.contents, journeyData, Particle.elements, parts]

/-- The data lead to a place for each stop. -/
theorem nextPlaces_journeyData (path : String) :
    (journeys stops).nextPlaces ⟨path, journeyData stops⟩ =
      stops.map fun stop => ⟨path ++ "." ++ stop, cityPlace⟩ := by
  have inner (stop : String) : (journeys stops).innerPlace? ⟨path, journeyData stops⟩
      (typedElement stop "Place" .one) = some ⟨path ++ "." ++ stop, cityPlace⟩ := by
    rw [Index.innerPlace?, elementComplexType_stop]
    rfl
  have noBase : (journeys stops).basePlace? ⟨path, journeyData stops⟩ = none := by rfl
  rw [Index.nextPlaces, noBase, elements_journeyData, List.filterMap_map]
  simp [inner]

theorem nextPlaces_cityPlace (path : String) :
    (journeys stops).nextPlaces ⟨path, cityPlace⟩ = [] := by
  have inner : (journeys stops).innerPlace? ⟨path, cityPlace⟩
      (typedElement "city" "xs:string" .one) = none := by
    have builtin : Schema.isBuiltin "xs:string" = true := by decide +kernel
    have effective : Index.effectiveTypeName (typedElement "city" "xs:string" .one) =
        some "xs:string" := rfl
    simp [Index.innerPlace?, Index.elementComplexType, effective, builtin]
  have elements : Place.elements ⟨path, cityPlace⟩ = [typedElement "city" "xs:string" .one] := by
    rfl
  have noBase : (journeys stops).basePlace? ⟨path, cityPlace⟩ = none := by rfl
  rw [Index.nextPlaces, noBase, elements]
  simp [inner]

end

/-- The rules of owners of journeys. -/
def journeyRules : FieldRules :=
  ((RuleBook.ofSettings keptData).toOption.bind
    fun book => (book.forType "Owner" "Owner").toOption).getD .plain

/-- Where the data stand in their owner. -/
def dataLocation : Location := Location.outermost.within (.compositor .sequence .once)

/-- The data, recorded with what is beneath them. -/
def dataEvent (stops : List String) : Event :=
  .bagged ⟨.element dataElement, dataLocation⟩ (some (journeyData stops))

theorem unfolds_journeys :
    Unfolds (journeys ["from"]) journeyRules .outermost
      (journeyRules.runParts (journeys ["from"]) ((journeys ["from"]).complexType? "Owner"))
      [dataEvent ["from"]] := by
  have parts : journeyRules.runParts (journeys ["from"])
      ((journeys ["from"]).complexType? "Owner") =
        [.content (.compositor .sequence .once [.element dataElement])] := by
    have separate : journeyRules.includesParentFields = false := by decide
    rw [FieldRules.runParts, FieldRules.inheritedParts, separate]
    rfl
  have name : journeyRules.nameAt dataLocation.ancestors (.element dataElement) = "data" := by
    decide
  have settled : journeyRules.settledAt dataLocation.ancestors (.element dataElement) = "data" := by
    decide
  have unmarked : ¬journeyRules.Marks "data" := by
    have plain : journeyRules.drop.contains "data" = false ∧
        journeyRules.options.parentField = none := by decide
    simp [FieldRules.Marks, plain]
  have treated : journeyRules.treatment "data" (some (journeyData ["from"]))
      (.element dataElement) = .bagged := by
    have decisive : RuleFamily.decisive journeyRules "data" (some (journeyData ["from"])) =
        some .json := by decide +kernel
    simp [FieldRules.treatment, decisive]
  have present : journeyRules.dropAfterProcessing.contains "data" = false := by decide
  have inside : Unfolds (journeys ["from"]) journeyRules dataLocation
      ([.element dataElement].map .content) _ :=
    .bagged rfl (name ▸ unmarked) elementComplexType_data (settled ▸ treated) .nil
  rw [settled, FieldRules.unlessLeftOut, present] at inside
  rw [parts]
  exact .compositor inside .nil

theorem events_of_journeys {graph : Graph} {rules : FieldRules} {type : Option ComplexType}
    {fields : List Field} {stages : Stages (journeys ["from"]) keptData graph}
    (reads : stages.Reads "Owner" "Owner" rules type)
    (log : RunLog (journeys ["from"]) keptData rules type fields) :
    rules = journeyRules ∧ log.events = [dataEvent ["from"]] := by
  obtain rfl : rules = journeyRules := by
    simp [journeyRules, stages.book_read, reads.read, Except.toOption]
  have own : journeyRules.isCustom = false := by decide
  obtain rfl := reads.eq_declared own (isPlainPath_of_typeRoots (by decide) (by decide)) rfl rfl
    (by decide)
  exact ⟨rfl, log.unfolds.unique unfolds_journeys⟩

/-- The place of the only stop is reached, and its type is at no other one. -/
theorem reachesSole_journeys :
    (journeys ["from"]).ReachesSole ⟨"data", journeyData ["from"]⟩ ⟨"data.from", cityPlace⟩ := by
  have leads : (journeys ["from"]).nextPlaces ⟨"data", journeyData ["from"]⟩ =
      [⟨"data.from", cityPlace⟩] := nextPlaces_journeyData "data"
  refine .single ⟨leads ▸ List.mem_singleton_self _, fun other reaches name named same => ?_⟩
  have only : other = ⟨"data", journeyData ["from"]⟩ ∨ other = ⟨"data.from", cityPlace⟩ := by
    clear same
    induction reaches with
    | refl => exact .inl rfl
    | tail _ step ih =>
      rcases ih with rfl | rfl
      · exact .inr (List.mem_singleton.mp (leads ▸ step))
      · rw [nextPlaces_cityPlace] at step
        cases step
  rcases only with rfl | rfl
  · exact absurd (named.trans same.symm) (by decide)
  · rfl

/-- With one stop, its city is in the bag. -/
theorem bagged_members_documented_of_journeys :
    let index := journeys ["from"]
    Index.build (journeyDocument ["from"]) = .ok index ∧
      ∃ graph, compile index keptData = .ok graph ∧ ∃ entity ∈ graph.entities,
        entity.name = "Owner" ∧ BagHolds keptData entity ["data", "data.from.city"] := by
  intro index
  have indexed : Index.build (journeyDocument ["from"]) = .ok index := by rfl
  have evaluated : (compile index keptData).toOption.map (·.entities.any fun entity =>
      entity.name == "Owner" && entity.sourceTypes == ["Owner"]) = some true := by decide +kernel
  obtain ⟨graph, compiled, seen⟩ := Result.exists_ok_of_map evaluated
  obtain ⟨entity, inGraph, seen⟩ := List.any_eq_true.mp seen
  obtain ⟨isOwner, single⟩ := Bool.and_eq_true_iff.mp seen
  obtain ⟨stages, all⟩ := bagged_members_documented indexed compiled
  obtain ⟨built, found, named, _⟩ := stages.grownEntity_of_single inGraph (beq_iff_eq.mp single)
  obtain ⟨rules, type, reads, log, documented⟩ := all _ _ found
  rw [named, beq_iff_eq.mp isOwner] at reads
  obtain ⟨rfl, events⟩ := events_of_journeys reads log
  obtain ⟨survey, entered, holds⟩ :=
    documented (by decide) _ _ _ (events ▸ List.mem_singleton_self _)
  have key : journeyRules.bagKeyAt dataLocation.ancestors (.element dataElement) = "data" := by
    decide
  have city := entered ⟨"data.from", cityPlace⟩ (key ▸ reachesSole_journeys)
  obtain ⟨field, member, name, bag, kind, paths⟩ :=
    holds entity (.inr ⟨inGraph, beq_iff_eq.mp single⟩)
  refine ⟨indexed, graph, compiled, entity, inGraph, beq_iff_eq.mp isOwner, field, member, name,
    bag, kind, ?_⟩
  refine List.cons_subset.mpr ⟨paths (key ▸ List.mem_cons_self), List.cons_subset.mpr ⟨?_, nofun⟩⟩
  have isMember : "data.from.city" ∈ Place.members ⟨"data.from", cityPlace⟩ := by decide
  exact paths (List.mem_cons_of_mem _ (List.mem_flatMap.mpr ⟨_, city, isMember⟩))

/-- Every stop leads to a place with a city, but only that of the first one is in the bag. -/
theorem second_city_undocumented :
    let index := journeys ["from", "to"]
    let start : Place := ⟨"data", journeyData ["from", "to"]⟩
    Index.build (journeyDocument ["from", "to"]) = .ok index ∧ ¬index.IsRecursive start.type ∧
      (∃ place, index.Reaches start place ∧ "data.to.city" ∈ place.members) ∧
      ∃ graph, compile index keptData = .ok graph ∧
        graph.bags.map (·.names) = [["data", "data.from", "data.from.city", "data.to"]] := by
  intro index start
  refine ⟨by rfl, ?_, ?_, ?_⟩
  · let rank (type : ComplexType) : Nat := ["Place", "Data", "Owner"].idxOf (type.name.getD "")
    have falls : ∀ type ∈ index.types, ∀ next ∈ index.nextPlaces ⟨"", type⟩,
        rank next.type < rank type := by decide +kernel
    exact Index.not_isRecursive_of_rank falls List.mem_cons_self
  · have leads : ⟨"data.to", cityPlace⟩ ∈ index.nextPlaces start := by
      rw [nextPlaces_journeyData]
      exact List.mem_cons_of_mem _ List.mem_cons_self
    exact ⟨_, .single leads, by decide⟩
  · have evaluated : (compile index keptData).toOption.map (·.bags.map (·.names)) =
        some [["data", "data.from", "data.from.city", "data.to"]] := by decide +kernel
    exact Result.exists_ok_of_map evaluated

end EntityGraph
