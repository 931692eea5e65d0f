import EntityGraph.Proofs.Build.Flattening

/-!
# What a type unfolds to

The attributes and the contents of a type, with those of flattened elements and of referenced
extensions in their places, unfold to a list of events in document order: a member becomes a field,
or something is recorded in the bag. What stands around a member on the way is kept with it, as it
decides whether the member has to be there.
-/
namespace EntityGraph.Compile

open Schema (Attribute AttributeItem ComplexType Compositor Element Extension Index Member Occurs
  Particle Wildcard)

/-! ## Where members stand -/

/-- What stands around a member: a compositor, or an element whose members take its place or stand
behind it. -/
inductive Surrounding where
  | compositor (kind : Compositor) (occurs : Occurs)
  | element (declaration : Element)

/-- Whether what is inside has to be there: no branch of a choice has, nor anything that may be
absent as a whole. -/
def Surrounding.isRequired : Surrounding → Bool
  | .compositor .sequence occurs => occurs.least != 0
  | .compositor .choice _ => false
  | .element declaration => !declaration.isOptional

/-- Whether a member itself has to be there. -/
def isRequiredMember : Member → Bool
  | .attrib declaration => declaration.isRequired
  | .element declaration => !declaration.isOptional

/-- Where the walk of a type has got to: the path of the elements that it has gone into, the
documentation that they put in front, and all that stands around, the innermost first. -/
structure Location where
  ancestors : String
  docStart : String
  around : List Surrounding

namespace Location

/-- Where a type begins. -/
def outermost : Location := ⟨"", "", []⟩

def within (location : Location) (surrounding : Surrounding) : Location :=
  { location with around := surrounding :: location.around }

/-- Whether what stands here has to be there, as far as that depends on what is around. -/
def isRequired (location : Location) : Bool := location.around.all Surrounding.isRequired

end Location

/-- A member at a location. -/
structure Occurrence where
  member : Member
  location : Location

/-- Whether the member has to be there, all the way down from its type. -/
def Occurrence.isRequired (occurrence : Occurrence) : Bool :=
  isRequiredMember occurrence.member && occurrence.location.isRequired

/-! ## What becomes of members -/

/-- What becomes of a member that does not only leave a mark. A field that refers to the base of an
extension is followed by what the extension adds. -/
inductive Treatment where
  | field (extension : Option Extension)
  | bagged
  | flattened (members : ComplexType)

namespace FieldRules

/-- What the rules make of a member, given its name and its complex type. -/
def treatment (rules : FieldRules) (name : String) (type : Option ComplexType) :
    Member → Treatment
  | .attrib _ => if rules.json.contains name then .bagged else .field none
  | .element _ =>
    match RuleFamily.decisive rules name type, type with
    | some .json, _ => .bagged
    | some .flatten, some members => .flattened members
    | some .oneToOne, _ | some .oneToMany, _ | some .manyToMany, _ => .field none
    | _, _ =>
      .field (if rules.referenceExtension.contains name then type.bind (·.extension) else none)

/-- The documentation of a member, with that of the elements around it. -/
def docAt (rules : FieldRules) (location : Location) (member : Member) : Option String :=
  Compile.fieldDoc? { rules.placeAt location.ancestors with docStart := location.docStart } member
    (rules.settledAt location.ancestors member)

/-- Inside of a flattened element. -/
def flattenedAt (rules : FieldRules) (location : Location) (declaration : Element) : Location :=
  let member := Member.element declaration
  let doc := (rules.docAt location member).getD (rules.settledAt location.ancestors member)
  ⟨rules.pathAt location.ancestors member ++ ".", doc ++ "::",
    .element declaration :: location.around⟩

/-- Behind an element that refers to the base of an extension. -/
def extendedAt (rules : FieldRules) (location : Location) (declaration : Element) : Location :=
  ⟨rules.pathAt location.ancestors (.element declaration) ++ ".", location.docStart,
    .element declaration :: location.around⟩

/-- The key under which a member is kept in the bag. -/
def bagKeyAt (rules : FieldRules) (ancestors : String) (member : Member) : String :=
  if rules.nameAt ancestors member = rules.pathAt ancestors member then
    rules.settledAt ancestors member
  else rules.pathAt ancestors member

end FieldRules

/-- The complex type of a member. An attribute has none. -/
def memberType (index : Index) : Member → Result (Option ComplexType)
  | .attrib _ => .ok none
  | .element declaration => index.elementComplexType declaration

/-- What is recorded for something that is kept in the bag: it and everything beneath it. -/
def bagEntries (index : Index) (key : String) (doc : Option String) (type : Option ComplexType) :
    Bag :=
  ((type.map (index.bagDocs key)).getD []).set key (doc.getD "")

/-- What is recorded for a wildcard. -/
def wildcardEntries (location : Location) (wildcard : Wildcard) : Bag :=
  [(location.ancestors ++ "*", location.docStart ++ wildcardDoc wildcard)]

/-! ## Unfolding -/

/-- A part of a type: an attribute or a piece of its content. -/
inductive ContentPart where
  | attrib (declaration : Attribute)
  | content (particle : Particle)

/-- The member that a part consists of, if it is one. -/
def ContentPart.member? : ContentPart → Option Member
  | .attrib declaration => some (.attrib declaration)
  | .content (.element declaration) => some (.element declaration)
  | .content _ => none

/-- The attributes that are walked. -/
def attributeParts (items : List AttributeItem) : List ContentPart :=
  items.filterMap fun
    | .single declaration => if isWalked declaration then some (.attrib declaration) else none
    | .group _ => none

/-- The attributes and the content that an extension adds. -/
def extensionParts (extension : Extension) : List ContentPart :=
  attributeParts extension.attributes ++ extension.content.toList.map .content

/-- The attributes and contents of a type, without those of its base. -/
def ownParts (type : ComplexType) : List ContentPart :=
  attributeParts type.attributes
    ++ attributeParts ((type.simpleContent.map (·.attributes)).getD [])
    ++ attributeParts ((type.extension.map (·.attributes)).getD [])
    ++ type.content.toList.map .content
    ++ (type.extension.bind (·.content)).toList.map .content

/-- The attributes and contents of a type and of its bases. -/
def lineageParts (index : Index) (type : ComplexType) : List ContentPart :=
  (index.lineage type).flatMap ownParts

/-- Something that a walk comes to: a member that becomes a field, or what is kept in the bag. -/
inductive Event where
  | field (occurrence : Occurrence)
  | bagged (occurrence : Occurrence) (type : Option ComplexType)
  | wildcard (location : Location) (wildcard : Wildcard)

namespace Event

/-- The member that becomes a field. -/
def occurrence? : Event → Option Occurrence
  | field occurrence => some occurrence
  | bagged _ _ | wildcard _ _ => none

/-- The entries that are recorded. -/
def entries? (index : Index) (rules : FieldRules) : Event → Option Bag
  | field _ => none
  | bagged ⟨member, location⟩ type =>
    some (bagEntries index (rules.bagKeyAt location.ancestors member) (rules.docAt location member)
      type)
  | wildcard location declared => some (wildcardEntries location declared)

end Event

/-- The event, unless the rules leave out what has the name. -/
def FieldRules.unlessLeftOut (rules : FieldRules) (name : String) (event : Event) : List Event :=
  if rules.dropAfterProcessing.contains name then [] else [event]

theorem FieldRules.eq_of_mem_unlessLeftOut {rules : FieldRules} {name : String}
    {event other : Event} (member : other ∈ rules.unlessLeftOut name event) : other = event := by
  unfold unlessLeftOut at member
  split at member
  · cases member
  · exact List.mem_singleton.mp member

/-- What parts at a location unfold to, in their order. -/
inductive Unfolds (index : Index) (rules : FieldRules) :
    Location → List ContentPart → List Event → Prop
  | nil {location : Location} : Unfolds index rules location [] []
  | compositor {location : Location} {kind : Compositor} {occurs : Occurs} {parts : List Particle}
      {rest : List ContentPart} {inner events : List Event}
      (inside : Unfolds index rules (location.within (.compositor kind occurs))
        (parts.map .content) inner)
      (others : Unfolds index rules location rest events) :
      Unfolds index rules location (.content (.compositor kind occurs parts) :: rest)
        (inner ++ events)
  | wildcard {location : Location} {wildcard : Wildcard} {rest : List ContentPart}
      {events : List Event} (others : Unfolds index rules location rest events) :
      Unfolds index rules location (.content (.any wildcard) :: rest)
        (.wildcard location wildcard :: events)
  /-- What only leaves a mark. -/
  | marked {location : Location} {part : ContentPart} {member : Member} {rest : List ContentPart}
      {events : List Event} (isMember : part.member? = some member)
      (marks : rules.Marks (rules.nameAt location.ancestors member))
      (others : Unfolds index rules location rest events) :
      Unfolds index rules location (part :: rest) events
  | bagged {location : Location} {part : ContentPart} {member : Member}
      {type : Option ComplexType} {rest : List ContentPart} {events : List Event}
      (isMember : part.member? = some member)
      (unmarked : ¬rules.Marks (rules.nameAt location.ancestors member))
      (typed : memberType index member = .ok type)
      (treated : rules.treatment (rules.settledAt location.ancestors member) type member = .bagged)
      (others : Unfolds index rules location rest events) :
      Unfolds index rules location (part :: rest)
        (rules.unlessLeftOut (rules.settledAt location.ancestors member)
          (.bagged ⟨member, location⟩ type) ++ events)
  | field {location : Location} {part : ContentPart} {member : Member}
      {type : Option ComplexType} {rest : List ContentPart} {events : List Event}
      (isMember : part.member? = some member)
      (unmarked : ¬rules.Marks (rules.nameAt location.ancestors member))
      (typed : memberType index member = .ok type)
      (treated : rules.treatment (rules.settledAt location.ancestors member) type member =
        .field none)
      (others : Unfolds index rules location rest events) :
      Unfolds index rules location (part :: rest)
        (rules.unlessLeftOut (rules.settledAt location.ancestors member)
          (.field ⟨member, location⟩) ++ events)
  /-- A field that refers to the base of an extension, with what the extension adds behind it. -/
  | extended {location : Location} {declaration : Element} {type : Option ComplexType}
      {extension : Extension} {rest : List ContentPart} {added events : List Event}
      (unmarked : ¬rules.Marks (rules.nameAt location.ancestors (.element declaration)))
      (typed : index.elementComplexType declaration = .ok type)
      (treated : rules.treatment (rules.settledAt location.ancestors (.element declaration)) type
        (.element declaration) = .field (some extension))
      (behind : Unfolds index rules (rules.extendedAt location declaration)
        (extensionParts extension) added)
      (others : Unfolds index rules location rest events) :
      Unfolds index rules location (.content (.element declaration) :: rest)
        (rules.unlessLeftOut (rules.settledAt location.ancestors (.element declaration))
          (.field ⟨.element declaration, location⟩) ++ added ++ events)
  /-- A flattened element: the members of its type take its place. -/
  | flattened {location : Location} {declaration : Element} {members : ComplexType}
      {rest : List ContentPart} {inner events : List Event}
      (unmarked : ¬rules.Marks (rules.nameAt location.ancestors (.element declaration)))
      (typed : index.elementComplexType declaration = .ok (some members))
      (treated : rules.treatment (rules.settledAt location.ancestors (.element declaration))
        (some members) (.element declaration) = .flattened members)
      (inside : Unfolds index rules (rules.flattenedAt location declaration)
        (lineageParts index members) inner)
      (others : Unfolds index rules location rest events) :
      Unfolds index rules location (.content (.element declaration) :: rest) (inner ++ events)

namespace Unfolds

variable {index : Index} {rules : FieldRules} {location : Location}

/-- Parts one after the other unfold to their events one after the other. -/
theorem append {parts more : List ContentPart} {first second : List Event}
    (unfolds : Unfolds index rules location parts first)
    (others : Unfolds index rules location more second) :
    Unfolds index rules location (parts ++ more) (first ++ second) := by
  induction unfolds with
  | nil => exact others
  | compositor inside _ _ ih =>
    rw [List.append_assoc]
    exact .compositor inside (ih others)
  | wildcard _ ih => exact .wildcard (ih others)
  | marked isMember marks _ ih => exact .marked isMember marks (ih others)
  | bagged isMember unmarked typed treated _ ih =>
    rw [List.append_assoc]
    exact .bagged isMember unmarked typed treated (ih others)
  | field isMember unmarked typed treated _ ih =>
    rw [List.append_assoc]
    exact .field isMember unmarked typed treated (ih others)
  | extended unmarked typed treated behind _ _ ih =>
    rw [List.append_assoc]
    exact .extended unmarked typed treated behind (ih others)
  | flattened unmarked typed treated inside _ _ ih =>
    rw [List.append_assoc]
    exact .flattened unmarked typed treated inside (ih others)

/-- What parts unfold to is determined. -/
theorem unique {parts : List ContentPart} {first second : List Event}
    (unfolds : Unfolds index rules location parts first)
    (other : Unfolds index rules location parts second) : first = second := by
  induction unfolds generalizing second with
  | nil => cases other; rfl
  | compositor _ _ inside others =>
    cases other with
    | compositor inner rest => rw [inside inner, others rest]
    | marked isMember | bagged isMember | field isMember => cases isMember
  | wildcard _ others =>
    cases other with
    | wildcard rest => rw [others rest]
    | marked isMember | bagged isMember | field isMember => cases isMember
  | marked isMember marks _ ih =>
    cases other with
    | marked _ _ rest => exact ih rest
    | compositor | wildcard => cases isMember
    | _ => simp_all [ContentPart.member?]
  | bagged isMember unmarked typed treated _ ih =>
    cases other with
    | bagged isOther _ typedOther _ rest =>
      rw [isMember] at isOther
      cases isOther
      rw [typed] at typedOther
      cases typedOther
      rw [ih rest]
    | compositor | wildcard => cases isMember
    | extended | flattened =>
      cases isMember
      simp_all [memberType]
    | _ => simp_all
  | field isMember unmarked typed treated _ ih =>
    cases other with
    | field isOther _ typedOther _ rest =>
      rw [isMember] at isOther
      cases isOther
      rw [ih rest]
    | compositor | wildcard => cases isMember
    | extended | flattened =>
      cases isMember
      simp_all [memberType]
    | _ => simp_all
  | extended unmarked typed treated _ _ behind ih =>
    cases other with
    | extended _ typedOther treatedOther added rest =>
      rw [typed] at typedOther
      cases typedOther
      rw [treated] at treatedOther
      cases treatedOther
      rw [behind added, ih rest]
    | marked isMember | bagged isMember | field isMember =>
      cases isMember
      simp_all [memberType]
    | _ => simp_all
  | flattened unmarked typed treated _ _ inside ih =>
    cases other with
    | flattened _ typedOther treatedOther inner rest =>
      rw [typed] at typedOther
      cases typedOther
      rw [inside inner, ih rest]
    | marked isMember | bagged isMember | field isMember =>
      cases isMember
      simp_all [memberType]
    | _ => simp_all

end Unfolds

end EntityGraph.Compile
