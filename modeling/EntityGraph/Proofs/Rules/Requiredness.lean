import EntityGraph.Proofs.Graph.Logs
import EntityGraph.Proofs.Graph.Sharing

/-!
# Which columns may be null

A member has to be there if it says so itself, and so does all that stands around it: no compositor
is a choice or may be absent, nor may any element whose members take its place or stand behind it.
Unless the settings say otherwise, that of the first member of a name decides whether its column may
be null. A reference to a group counts as one more compositor around the content of the group.
-/
namespace EntityGraph

/-! ## Group references -/

namespace Schema

open Compile (Surrounding)

namespace Particle

mutual

/-- Whether each element of a content has to be there, in document order, as far as the content
says. -/
def requirements : Particle → List Bool
  | .element declaration => [!declaration.isOptional]
  | .compositor kind occurs parts =>
    (requirementsOf parts).map ((Surrounding.compositor kind occurs).isRequired && ·)
  | .group .. | .any _ => []

def requirementsOf : List Particle → List Bool
  | [] => []
  | part :: rest => requirements part ++ requirementsOf rest

end

end Particle

namespace Declarations

/-- Whether each element of a written content has to be there. A reference to a group stands around
the content of the group like a sequence. -/
inductive Requires (self : Declarations) : List Particle → List Bool → Prop
  | nil : Requires self [] []
  | element {declaration : Element} {rest : List Particle} {more : List Bool}
      (others : Requires self rest more) :
      Requires self (.element declaration :: rest) ((!declaration.isOptional) :: more)
  | wildcard {wildcard : Wildcard} {rest : List Particle} {more : List Bool}
      (others : Requires self rest more) : Requires self (.any wildcard :: rest) more
  | compositor {kind : Compositor} {occurs : Occurs} {parts rest : List Particle}
      {inner more : List Bool} (inside : Requires self parts inner)
      (others : Requires self rest more) :
      Requires self (.compositor kind occurs parts :: rest)
        (inner.map ((Surrounding.compositor kind occurs).isRequired && ·) ++ more)
  | group {reference : String} {occurs : Occurs} {group : ModelGroup} {rest : List Particle}
      {inner more : List Bool}
      (found : lookup self.groups (self.names.canonical reference) = .ok group)
      (inside : Requires self [group.particle] inner) (others : Requires self rest more) :
      Requires self (.group reference occurs :: rest)
        (inner.map ((Surrounding.compositor .sequence occurs).isRequired && ·) ++ more)

variable {self : Declarations}

/-- In the place of a reference, the content of a group requires what it does inside of one more
sequence. -/
theorem requirements_inPlaceOf (occurs : Occurs) (particle : Particle) :
    (inPlaceOf occurs particle).requirements =
      particle.requirements.map ((Surrounding.compositor .sequence occurs).isRequired && ·) := by
  match particle with
  | .compositor .sequence own parts =>
    have least : (min own.least occurs.least != 0) = (occurs.least != 0 && own.least != 0) := by
      rw [Bool.eq_iff_iff]
      simp only [bne_iff_ne, Bool.and_eq_true]
      omega
    simp [inPlaceOf, Particle.requirements, Surrounding.isRequired, least, Function.comp_def,
      Bool.and_assoc]
  | .compositor .choice own parts =>
    simp [inPlaceOf, Particle.requirements, Surrounding.isRequired]
  | .element _ | .group .. | .any _ =>
    simp [inPlaceOf, Particle.requirements, Particle.requirementsOf]

/-- What a layer makes of an element occurs as often, and what it makes of a content requires what
is written. -/
structure Layer.KeepsRequirements (declarations : Declarations) (next : Layer) : Prop where
  element : ∀ {trail written resolved}, next.element trail written = .ok resolved →
    resolved.isOptional = written.isOptional
  particle : ∀ {trail written resolved}, next.particle trail written = .ok resolved →
    declarations.Requires [written] resolved.requirements

theorem isOptional_of_element {next : Layer} (keeps : next.KeepsRequirements self) {trail : Trail}
    {written resolved : Element} (given : self.element next trail written = .ok resolved) :
    resolved.isOptional = written.isOptional := by
  match written with
  | ⟨name, some reference, typeName, complexType, simpleType, occurs, defaultText, fixedText,
      documentation⟩ =>
    rw [element] at given
    obtain ⟨target, _, given⟩ := Result.bind_eq_ok.mp given
    extract_lets declared at given
    split at given
    · -- A reference occurs as often as its place says.
      obtain ⟨_, _, given⟩ := Result.bind_eq_ok.mp given
      exact (keeps.element given).trans rfl
    · obtain rfl := Result.pure_eq_ok.mp given
      rfl
  | ⟨name, none, typeName, complexType, simpleType, occurs, defaultText, fixedText,
      documentation⟩ =>
    rw [element] at given
    obtain ⟨_, _, given⟩ := Result.bind_eq_ok.mp given
    obtain rfl := Result.pure_eq_ok.mp given
    rfl

theorem Requires.append {parts more : List Particle} {first second : List Bool}
    (requires : self.Requires parts first) (others : self.Requires more second) :
    self.Requires (parts ++ more) (first ++ second) := by
  induction requires with
  | nil => exact others
  | element _ ih => exact .element ih
  | wildcard _ ih => exact .wildcard ih
  | compositor inside _ _ ih =>
    rw [List.append_assoc]
    exact .compositor inside ih
  | group found inside _ _ ih =>
    rw [List.append_assoc]
    exact .group found inside ih

mutual

theorem particle_requires {next : Layer} (keeps : next.KeepsRequirements self) {trail : Trail}
    {written resolved : Particle} (given : self.particle next trail written = .ok resolved) :
    self.Requires [written] resolved.requirements := by
  match written with
  | .element declaration =>
    rw [particle] at given
    obtain ⟨inside, insideGiven, given⟩ := Result.bind_eq_ok.mp given
    obtain rfl := Result.pure_eq_ok.mp given
    rw [Particle.requirements, isOptional_of_element keeps insideGiven]
    exact .element .nil
  | .compositor kind occurs parts =>
    rw [particle] at given
    obtain ⟨inside, insideGiven, given⟩ := Result.bind_eq_ok.mp given
    obtain rfl := Result.pure_eq_ok.mp given
    rw [Particle.requirements, ← List.append_nil (List.map ..)]
    exact .compositor (parts_require keeps insideGiven) .nil
  | .any wildcard =>
    rw [particle] at given
    cases given
    exact .wildcard .nil
  | .group reference occurs =>
    rw [particle] at given
    obtain ⟨group, has, given⟩ := Result.bind_eq_ok.mp given
    obtain ⟨inner, _, given⟩ := Result.bind_eq_ok.mp given
    obtain ⟨inside, insideGiven, given⟩ := Result.bind_eq_ok.mp given
    obtain rfl := Result.pure_eq_ok.mp given
    rw [requirements_inPlaceOf, ← List.append_nil (List.map ..)]
    exact .group has (keeps.particle insideGiven) .nil
termination_by structural written

theorem parts_require {next : Layer} (keeps : next.KeepsRequirements self) {trail : Trail}
    {written resolved : List Particle} (given : self.parts next trail written = .ok resolved) :
    self.Requires written (Particle.requirementsOf resolved) := by
  match written with
  | [] =>
    rw [parts] at given
    cases given
    exact .nil
  | part :: rest =>
    rw [parts] at given
    obtain ⟨first, firstGiven, given⟩ := Result.bind_eq_ok.mp given
    obtain ⟨others, othersGiven, given⟩ := Result.bind_eq_ok.mp given
    obtain rfl := Result.pure_eq_ok.mp given
    exact (particle_requires keeps firstGiven).append (parts_require keeps othersGiven)
termination_by structural written

end

theorem layer_keepsRequirements (self : Declarations) (count : Nat) :
    (self.layer count).KeepsRequirements self := by
  induction count with
  | zero =>
    constructor
    all_goals
      intro _ _ _ given
      cases given
  | succ count ih => exact ⟨isOptional_of_element ih, particle_requires ih⟩

end Declarations

end Schema

/-! ## Settings that leave nullability alone -/

/-- The options name no field that may be null, and change no properties of fields. -/
def EntityOptions.LeavesNullability (options : EntityOptions) : Prop :=
  options.nullFields = [] ∧ options.fieldOptions = []

instance : DecidablePred EntityOptions.LeavesNullability :=
  fun _ => inferInstanceAs (Decidable (_ ∧ _))

namespace Compile

theorem layers_leavesNullability : Layers EntityOptions.LeavesNullability where
  none := ⟨rfl, rfl⟩
  layered := by
    rintro primary fallback ⟨null, fields⟩ ⟨otherNull, otherFields⟩
    simp [EntityOptions.LeavesNullability, EntityOptions.layered, EntityOptions.union, null, fields,
      otherNull, otherFields]

theorem ofOptions_null {options : EntityOptions} {rules : FieldRules}
    (read : FieldRules.ofOptions options = .ok rules) :
    PatternSet.ofTexts options.nullFields = .ok rules.null := by
  -- Nine lists of patterns are read before.
  iterate 9 obtain ⟨_, _, read⟩ := Result.bind_eq_ok.mp read
  obtain ⟨null, given, read⟩ := Result.bind_eq_ok.mp read
  iterate 5 obtain ⟨_, _, read⟩ := Result.bind_eq_ok.mp read
  obtain rfl := Result.pure_eq_ok.mp read
  exact given

theorem keepsNullability_of_forType {settings : Settings} {book : RuleBook}
    (read : RuleBook.ofSettings settings = .ok book)
    (leaves : settings.EveryOptions EntityOptions.LeavesNullability) {entity path : String}
    {rules : FieldRules} (given : book.forType entity path = .ok rules) :
    rules.KeepsNullability := by
  obtain ⟨null, fields⟩ := rules_of_layers layers_leavesNullability read leaves given
  rw [ofOptions_options given] at null fields
  have unset := ofOptions_null given
  rw [null] at unset
  intro name
  rw [FieldRules.fieldOverride?, ofOptions_options given, fields]
  refine ⟨?_, rfl⟩
  rw [show rules.null = _ from (Except.ok.inj unset).symm]
  rfl

/-! ## The first member of a name -/

/-- The first member that becomes a field of the name. -/
def firstOccurrence? (rules : FieldRules) (events : List Event) (name : String) :
    Option Occurrence :=
  (events.filterMap Event.occurrence?).find? fun occurrence =>
    rules.settledAt occurrence.location.ancestors occurrence.member == name

/-- If the first offer of a name comes from a member, that is the first member of the name. -/
theorem find?_occurrence {offers : List Offer} {offer : Offer} {occurrence : Occurrence}
    {name : String} {nameOf : Occurrence → String}
    (named : ∀ offer ∈ offers, ∀ occurrence, offer.occurrence = some occurrence →
      offer.field.name = nameOf occurrence)
    (found : offers.find? (·.field.name == name) = some offer)
    (has : offer.occurrence = some occurrence) :
    (offers.filterMap (·.occurrence)).find? (nameOf · == name) = some occurrence := by
  induction offers with
  | nil => cases found
  | cons first rest ih =>
    obtain ⟨here, later⟩ := List.forall_mem_cons.mp named
    cases same : first.field.name == name with
    | true =>
      simp only [List.find?_cons, same] at found
      obtain rfl := Option.some.inj found
      rw [here occurrence has] at same
      simp only [List.filterMap_cons_some has, List.find?_cons, same]
    | false =>
      simp only [List.find?_cons, same] at found
      cases own : first.occurrence with
      | none =>
        rw [List.filterMap_cons_none own]
        exact ih later found
      | some other =>
        rw [here other own] at same
        simp only [List.filterMap_cons_some own, List.find?_cons, same]
        exact ih later found

/-- In a log, a column comes from no member, or from the first member of its name. Where the rules
keep nullability, it may be null unless that member has to be there. -/
theorem RunLog.first_of_column {index : Schema.Index} {settings : Settings} {rules : FieldRules}
    {type : Option Schema.ComplexType} {fields : List Field}
    (log : RunLog index settings rules type fields) (keeps : rules.KeepsNullability) {field : Field}
    (member : field ∈ fields) (materialized : field.isMaterialized = true) :
    ∃ offer, log.offers.find? (·.field.name == field.name) = some offer ∧
      offer.field.dottedPath = field.dottedPath ∧
      match offer.occurrence with
      | none => Unclassified settings rules type offer.field
      | some occurrence => firstOccurrence? rules log.events field.name = some occurrence ∧
        field.dottedPath = rules.pathAt occurrence.location.ancestors occurrence.member ∧
        (field.nullable = false ↔ occurrence.isRequired = true) := by
  obtain ⟨offer, found, same⟩ := exists_offer log.columns member materialized
  obtain ⟨_, path, _, nullable, _⟩ := Field.bare_eq_iff.mp same
  have offered := List.mem_of_find?_eq_some found
  refine ⟨offer, found, path, ?_⟩
  split
  next none => exact log.other offer offered none
  next occurrence has =>
    have isField := log.isField offer offered occurrence has
    refine ⟨?_, path ▸ isField.dottedPath, ?_⟩
    · rw [firstOccurrence?, ← log.members]
      exact find?_occurrence
        (fun other member occurrence has => (log.isField other member occurrence has).name)
        found has
    · rw [← nullable, isField.nullable keeps, Bool.not_eq_false']

end Compile

open Compile
open Schema (Index)

/-- Without settings for nullability and without merging, every entity has one type path, and its
columns come of a log. A column that comes from a member is that of the first member of its name,
and may not be null exactly if that member has to be there, all the way down from the type. The
contents of resolved types require what is written, where a reference to a group stands around the
content of the group. -/
theorem nullable_iff_not_required {index : Index} {settings : Settings} {graph : Graph}
    {levels : Nat} (leaves : settings.EveryOptions EntityOptions.LeavesNullability)
    (separate : ∀ rule ∈ settings.typeMap, rule.permits = false)
    (compiled : compile index settings levels = .ok graph) :
    (∃ stages : Stages index settings graph levels, ∀ entity ∈ graph.entities,
      ∃ path rules type built, entity.sourceTypes = [path] ∧
        stages.Reads entity.name path rules type ∧ GrownEntity built entity ∧
        ∃ log : RunLog index settings rules type built.fields,
          ∀ field ∈ entity.materializedFields,
            ∃ offer, log.offers.find? (·.field.name == field.name) = some offer ∧
              offer.field.dottedPath = field.dottedPath ∧
              match offer.occurrence with
              | none => Unclassified settings rules type offer.field
              | some occurrence => firstOccurrence? rules log.events field.name = some occurrence ∧
                field.dottedPath = rules.pathAt occurrence.location.ancestors occurrence.member ∧
                (field.nullable = false ↔ occurrence.isRequired = true)) ∧
      ∀ (declarations : Schema.Declarations) (layers : Nat) (trail : Schema.Trail)
        (written resolved : Schema.Particle),
        declarations.particle (declarations.layer layers) trail written = .ok resolved →
          declarations.Requires [written] resolved.requirements := by
  constructor
  · obtain ⟨stages⟩ := exists_stages compiled
    refine ⟨stages, fun entity member => ?_⟩
    obtain ⟨path, single⟩ := stages.exists_single_source separate member
    obtain ⟨built, found, named, grown⟩ := stages.grownEntity_of_single member single
    obtain ⟨rules, type, reads, ⟨log⟩⟩ := stages.exists_log found
    have keeps := keepsNullability_of_forType stages.book_read leaves reads.read
    refine ⟨path, rules, type, built, single, named ▸ reads, grown, log, fun field isField => ?_⟩
    obtain ⟨inFields, materialized⟩ := List.mem_filter.mp isField
    -- Nothing but the entries of bags is changed in what was built.
    obtain ⟨early, inBuilt, grownField⟩ := grown.exists_earlier inFields
    have first := log.first_of_column keeps inBuilt (grownField.isMaterialized ▸ materialized)
    rw [grownField.name, grownField.dottedPath, grownField.flags.1]
    exact first
  · intro declarations layers trail written resolved given
    exact Schema.Declarations.particle_requires
      (Schema.Declarations.layer_keepsRequirements declarations layers) given

/-- A payment has an amount, and is made by card or in cash. -/
def paymentSchema : Index :=
  let text (name : String) : Schema.Particle := .element (typedElement name "xs:string" .one)
  { (default : Index) with
    complexTypes := [("Payment", ⟨some "Payment", false, none, [],
      some (.compositor .sequence .once
        [text "amount", .compositor .choice .once [text "card", text "cash"]]),
      none, none, none⟩)] }

/-- The amount has to be there, and the branches of the choice have not. -/
theorem nullable_iff_not_required_of_paymentSchema :
    ∃ graph, compile paymentSchema (settingsOf ["Payment"]) = .ok graph ∧
      (graph.entities.map fun entity =>
        entity.materializedFields.map fun field => (field.name, field.nullable)) =
          [[("amount", false), ("card", true), ("cash", true)]] ∧
      ∃ stages : Stages paymentSchema (settingsOf ["Payment"]) graph,
        ∀ entity ∈ graph.entities, ∃ path rules type, ∃ built : Entity,
          entity.sourceTypes = [path] ∧ stages.Reads entity.name path rules type ∧
          ∃ log : RunLog paymentSchema (settingsOf ["Payment"]) rules type built.fields,
            ∀ field ∈ entity.materializedFields,
              ∃ offer, log.offers.find? (·.field.name == field.name) = some offer ∧
                ∀ occurrence, offer.occurrence = some occurrence →
                  firstOccurrence? rules log.events field.name = some occurrence ∧
                  (field.nullable = false ↔ occurrence.isRequired = true) := by
  have evaluated : (compile paymentSchema (settingsOf ["Payment"])).toOption.map
      (·.entities.map fun entity =>
        entity.materializedFields.map fun field => (field.name, field.nullable)) =
          some [[("amount", false), ("card", true), ("cash", true)]] := by decide +kernel
  obtain ⟨graph, compiled, columns⟩ := Result.exists_ok_of_map evaluated
  obtain ⟨⟨stages, all⟩, _⟩ := nullable_iff_not_required
    (by decide : (settingsOf ["Payment"]).EveryOptions EntityOptions.LeavesNullability)
    (by decide) compiled
  refine ⟨graph, compiled, columns, stages, fun entity member => ?_⟩
  obtain ⟨path, rules, type, built, single, reads, _, log, first⟩ := all entity member
  refine ⟨path, rules, type, built, single, reads, log, fun field isField => ?_⟩
  obtain ⟨offer, found, _, isFirst⟩ := first field isField
  refine ⟨offer, found, fun occurrence has => ?_⟩
  rw [has] at isFirst
  exact ⟨isFirst.1, isFirst.2.2⟩

end EntityGraph
