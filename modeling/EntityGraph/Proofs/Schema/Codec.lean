import EntityGraph.Proofs.Json.Record

/-!
# Documents read back

Decoding undoes encoding: a document is read back from its JSON value, without the enclosing
elements of anonymous types, which are not written. What a decoded document holds is what its types
can store, and it has no such elements; so it is read back as it is.
-/
namespace EntityGraph.Schema

open Json (Record asOption_count asList_map height_lt_obj)
open Result (bind_eq_ok)

/-! ## What the types of a document hold -/

/-- The count fits 32 bits. -/
def MaxOccurs.IsStorable : MaxOccurs → Prop
  | bounded count => count ≤ Decimal.maxCount
  | unbounded => True

structure Occurs.IsStorable (occurs : Occurs) : Prop where
  least : occurs.least ≤ Decimal.maxCount
  most : occurs.most.IsStorable

structure Facets.IsStorable (facets : Facets) : Prop where
  length : ∀ count ∈ facets.length, count ≤ Decimal.maxCount
  minLength : ∀ count ∈ facets.minLength, count ≤ Decimal.maxCount
  maxLength : ∀ count ∈ facets.maxLength, count ≤ Decimal.maxCount
  totalDigits : ∀ count ∈ facets.totalDigits, count ≤ Decimal.maxCount
  fractionDigits : ∀ count ∈ facets.fractionDigits, count ≤ Decimal.maxCount

def SimpleType.IsStorable (type : SimpleType) : Prop := type.facets.IsStorable

def Attribute.IsStorable (self : Attribute) : Prop := ∀ type ∈ self.simpleType, type.IsStorable

def AttributeItem.IsStorable : AttributeItem → Prop
  | single declaration => declaration.IsStorable
  | group _ => True

def SimpleContent.IsStorable (content : SimpleContent) : Prop :=
  ∀ item ∈ content.attributes, item.IsStorable

mutual

def ComplexType.IsStorable : ComplexType → Prop
  | ⟨_, _, _, attributes, content, extension, simpleContent, _⟩ =>
    (∀ item ∈ attributes, item.IsStorable) ∧ ContentStorable content ∧
      ExtensionStorable extension ∧ ∀ scalar ∈ simpleContent, scalar.IsStorable

def ContentStorable : Option Particle → Prop
  | some particle => particle.IsStorable
  | none => True

def ExtensionStorable : Option Extension → Prop
  | some ⟨_, attributes, content⟩ =>
    (∀ item ∈ attributes, item.IsStorable) ∧ ContentStorable content
  | none => True

def Particle.IsStorable : Particle → Prop
  | .element declaration => declaration.IsStorable
  | .compositor _ occurs parts => occurs.IsStorable ∧ PartsStorable parts
  | .group _ occurs => occurs.IsStorable
  | .any wildcard => wildcard.occurs.IsStorable

def PartsStorable : List Particle → Prop
  | [] => True
  | part :: rest => part.IsStorable ∧ PartsStorable rest

def Element.IsStorable : Element → Prop
  | ⟨_, _, _, complexType, simpleType, occurs, _, _, _⟩ =>
    InlineStorable complexType ∧ (∀ type ∈ simpleType, type.IsStorable) ∧ occurs.IsStorable

def InlineStorable : Option ComplexType → Prop
  | some type => type.IsStorable
  | none => True

end

/-- Counts fit 32 bits, and the prefixes of namespaces are in order. -/
structure Document.IsStorable (document : Document) : Prop where
  namespaces : Table.Sorted document.namespaces
  complexTypes : ∀ type ∈ document.complexTypes, type.IsStorable
  simpleTypes : ∀ type ∈ document.simpleTypes, type.IsStorable
  elements : ∀ element ∈ document.elements, element.IsStorable
  attributes : ∀ declaration ∈ document.attributes, declaration.IsStorable
  attributeGroups : ∀ group ∈ document.attributeGroups, ∀ item ∈ group.attributes, item.IsStorable
  groups : ∀ group ∈ document.groups, group.particle.IsStorable

section Decidable

instance : DecidablePred MaxOccurs.IsStorable
  | .bounded count => inferInstanceAs (Decidable (count ≤ Decimal.maxCount))
  | .unbounded => .isTrue trivial

instance : DecidablePred Occurs.IsStorable := fun occurs =>
  decidable_of_iff (occurs.least ≤ Decimal.maxCount ∧ occurs.most.IsStorable)
    ⟨fun storable => ⟨storable.1, storable.2⟩, fun storable => ⟨storable.least, storable.most⟩⟩

instance : DecidablePred Facets.IsStorable := fun facets =>
  decidable_of_iff (∀ count ∈ [facets.length, facets.minLength, facets.maxLength,
      facets.totalDigits, facets.fractionDigits].flatMap Option.toList,
        count ≤ Decimal.maxCount) <| by
    simp only [List.flatMap_cons, List.flatMap_nil, List.forall_mem_append, Option.mem_toList]
    exact ⟨fun ⟨length, least, most, total, fraction, _⟩ => ⟨length, least, most, total, fraction⟩,
      fun ⟨length, least, most, total, fraction⟩ => ⟨length, least, most, total, fraction, nofun⟩⟩

instance : DecidablePred SimpleType.IsStorable := fun type =>
  inferInstanceAs (Decidable type.facets.IsStorable)

instance : DecidablePred Attribute.IsStorable := fun self =>
  inferInstanceAs (Decidable (∀ type ∈ self.simpleType, type.IsStorable))

instance : DecidablePred AttributeItem.IsStorable
  | .single declaration => inferInstanceAs (Decidable declaration.IsStorable)
  | .group _ => .isTrue trivial

instance : DecidablePred SimpleContent.IsStorable := fun content =>
  inferInstanceAs (Decidable (∀ item ∈ content.attributes, item.IsStorable))

end Decidable

/-! ## Without enclosing elements -/

mutual

/-- The type without enclosing elements, its own and those of the types inside. -/
def ComplexType.withoutContainers : ComplexType → ComplexType
  | ⟨name, isAbstract, documentation, attributes, content, extension, simpleContent, _⟩ =>
    ⟨name, isAbstract, documentation, attributes, contentWithoutContainers content,
      extensionWithoutContainers extension, simpleContent, none⟩

def contentWithoutContainers : Option Particle → Option Particle
  | some particle => some particle.withoutContainers
  | none => none

def extensionWithoutContainers : Option Extension → Option Extension
  | some ⟨base, attributes, content⟩ => some ⟨base, attributes, contentWithoutContainers content⟩
  | none => none

def Particle.withoutContainers : Particle → Particle
  | .element declaration => .element declaration.withoutContainers
  | .compositor kind occurs parts => .compositor kind occurs (partsWithoutContainers parts)
  | .group reference occurs => .group reference occurs
  | .any wildcard => .any wildcard

def partsWithoutContainers : List Particle → List Particle
  | [] => []
  | part :: rest => part.withoutContainers :: partsWithoutContainers rest

def Element.withoutContainers : Element → Element
  | ⟨name, reference, typeName, complexType, simpleType, occurs, defaultText, fixedText,
      documentation⟩ =>
    ⟨name, reference, typeName, inlineWithoutContainers complexType, simpleType, occurs,
      defaultText, fixedText, documentation⟩

def inlineWithoutContainers : Option ComplexType → Option ComplexType
  | some type => some type.withoutContainers
  | none => none

end

def ModelGroup.withoutContainers (group : ModelGroup) : ModelGroup :=
  { group with particle := group.particle.withoutContainers }

def Document.withoutContainers (document : Document) : Document :=
  { document with
    complexTypes := document.complexTypes.map ComplexType.withoutContainers
    elements := document.elements.map Element.withoutContainers
    groups := document.groups.map ModelGroup.withoutContainers }

/-! ## Simple types and attributes -/

theorem MaxOccurs.ofJson_toJson {bound : MaxOccurs} (storable : bound.IsStorable) :
    ofJson bound.toJson = .ok bound := by
  cases bound with
  | bounded count => exact congrArg (Except.map bounded) (Json.asNat_ofNat storable)
  | unbounded => rfl

theorem Enumeration.ofJson_toJson (enumeration : Enumeration) :
    ofJson enumeration.toJson = .ok enumeration := by
  simp [ofJson, toJson, Json.asString]

theorem Facets.ofJson_toJson {facets : Facets} (storable : facets.IsStorable) :
    ofJson facets.toJson = .ok facets := by
  have enumerations := asList_map fun value (_ : value ∈ facets.enumerations) =>
    Enumeration.ofJson_toJson value
  simp [ofJson, toJson, enumerations, asOption_count storable.length,
    asOption_count storable.minLength, asOption_count storable.maxLength,
    asOption_count storable.totalDigits, asOption_count storable.fractionDigits]

theorem SimpleType.ofJson_toJson {type : SimpleType} (storable : type.IsStorable) :
    ofJson type.toJson = .ok type := by
  simp [ofJson, toJson, Json.asString, Facets.ofJson_toJson storable]

theorem SimpleType.asOption_ofOption {type : Option SimpleType}
    (storable : ∀ known ∈ type, known.IsStorable) :
    Json.asOption ofJson (.ofOption toJson type) = .ok type :=
  Json.asOption_ofOption fun known has => ⟨ofJson_toJson (storable known has), nofun⟩

theorem AttributeUse.ofJson_text (usage : AttributeUse) : ofJson (.str usage.text) = .ok usage := by
  cases usage <;> rfl

theorem Attribute.ofJson_toJson {self : Attribute} (storable : self.IsStorable) :
    ofJson self.toJson = .ok self := by
  simp [ofJson, toJson, entries, AttributeUse.ofJson_text, SimpleType.asOption_ofOption storable]

/-- The kind of an item is no key of an attribute. -/
theorem Attribute.ofJson_kind (self : Attribute) (kind : Json) :
    ofJson (.obj (("kind", kind) :: self.entries)) = ofJson self.toJson := by
  simp [ofJson, toJson, entries]

theorem AttributeItem.ofJson_toJson {item : AttributeItem} (storable : item.IsStorable) :
    ofJson item.toJson = .ok item := by
  cases item with
  | single declaration =>
    have distinct : (keysOf (("kind", .str "attribute") :: declaration.entries)).Nodup := by
      simp [Attribute.entries]
    simp [ofJson, toJson, Json.variant_obj distinct, Json.asString, Attribute.ofJson_kind,
      Attribute.ofJson_toJson storable]
  | group reference => simp [ofJson, toJson, Json.asString]

theorem AttributeItem.asList_toJson {items : List AttributeItem}
    (storable : ∀ item ∈ items, item.IsStorable) :
    Json.asList ofJson (.arr (items.map toJson)) = .ok items :=
  asList_map fun item member => ofJson_toJson (storable item member)

theorem SimpleContent.ofJson_toJson {content : SimpleContent} (storable : content.IsStorable) :
    ofJson content.toJson = .ok content := by
  simp [ofJson, toJson, Json.asString, AttributeItem.asList_toJson storable]

theorem SimpleContent.asOption_ofOption {content : Option SimpleContent}
    (storable : ∀ known ∈ content, known.IsStorable) :
    Json.asOption ofJson (.ofOption toJson content) = .ok content :=
  Json.asOption_ofOption fun known has => ⟨ofJson_toJson (storable known has), nofun⟩

theorem Wildcard.ofJson_toJson {wildcard : Wildcard} (storable : wildcard.occurs.IsStorable) :
    ofJson wildcard.toJson = .ok wildcard := by
  have least := Json.asNat_ofNat storable.least
  simp [ofJson, toJson, Occurs.entries, Occurs.ofRecord, Json.asCount, least,
    MaxOccurs.ofJson_toJson storable.most]

/-! ## Types, particles and elements -/

theorem ComplexType.toJson_ne_null (type : ComplexType) : type.toJson ≠ .null := by
  cases type
  rw [toJson]
  exact nofun

theorem Particle.toJson_ne_null (particle : Particle) : particle.toJson ≠ .null := by
  cases particle <;> rw [toJson] <;> exact nofun

/-- The kind of a particle is no key of an element. -/
theorem Element.ofJsonWithin_kind (element : Element) (bound : Nat) (kind : Json) :
    ofJsonWithin bound (.obj (("kind", kind) :: element.entries)) =
      ofJsonWithin bound element.toJson := by
  cases bound with
  | zero => rw [ofJsonWithin, ofJsonWithin]
  | succ bound =>
    cases element
    simp [ofJsonWithin, toJson, entries, Occurs.entries, Occurs.ofRecord]

/-- One level further down, the bound suffices for two more steps. -/
theorem enough_of_mem {members : List (String × Json)} {bound : Nat}
    (enough : 2 * Json.height (.obj members) < bound + 1) (key : String) {value : Json}
    (entered : (key, value) ∈ members) : 2 * value.height + 1 < bound := by
  have below : value.height < Json.height (.obj members) := height_lt_obj entered
  omega

-- A particle is read once for its kind and once more for what it holds, everything else once. So
-- two steps are enough for each level of a value.
mutual

theorem ComplexType.ofJsonWithin_toJson : ∀ (type : ComplexType) (bound : Nat), type.IsStorable →
    2 * type.toJson.height < bound →
      ComplexType.ofJsonWithin bound type.toJson = .ok type.withoutContainers
  | _, 0, _, enough => absurd enough (Nat.not_lt_zero _)
  | ⟨name, isAbstract, documentation, attributes, content, extension, simpleContent, _⟩,
      bound + 1, storable, enough => by
    rw [ComplexType.IsStorable] at storable
    obtain ⟨attributesStorable, contentStorable, extensionStorable, scalarStorable⟩ := storable
    rw [ComplexType.toJson] at enough ⊢
    have particles := content_asOption content bound contentStorable
      (enough_of_mem enough "content" (by simp))
    have extensions := extension_asOption extension bound extensionStorable
      (Nat.lt_of_succ_lt (enough_of_mem enough "extension" (by simp)))
    simp [ComplexType.ofJsonWithin, ComplexType.withoutContainers, Json.asBool, particles,
      extensions, AttributeItem.asList_toJson attributesStorable,
      SimpleContent.asOption_ofOption scalarStorable]

theorem content_asOption : ∀ (content : Option Particle) (bound : Nat), ContentStorable content →
    2 * (contentToJson content).height + 1 < bound →
      Json.asOption (Particle.ofJsonWithin bound) (contentToJson content) =
        .ok (contentWithoutContainers content)
  | none, _, _, _ => rfl
  | some particle, bound, storable, enough => by
    rw [ContentStorable] at storable
    rw [contentToJson] at enough ⊢
    rw [Json.asOption_of_ne_null particle.toJson_ne_null,
      Particle.ofJsonWithin_toJson particle bound storable enough]
    rfl

theorem extension_asOption : ∀ (extension : Option Extension) (bound : Nat),
    ExtensionStorable extension → 2 * (extensionToJson extension).height < bound →
      Json.asOption (Extension.ofJsonWithin bound) (extensionToJson extension) =
        .ok (extensionWithoutContainers extension)
  | none, _, _, _ => rfl
  | some _, 0, _, enough => absurd enough (Nat.not_lt_zero _)
  | some ⟨base, attributes, content⟩, bound + 1, storable, enough => by
    rw [ExtensionStorable] at storable
    rw [extensionToJson] at enough ⊢
    have particles := content_asOption content bound storable.2
      (enough_of_mem enough "content" (by simp))
    simp [Extension.ofJsonWithin, extensionWithoutContainers, Json.asString, particles,
      AttributeItem.asList_toJson storable.1, Except.map]

theorem Particle.ofJsonWithin_toJson : ∀ (particle : Particle) (bound : Nat),
    particle.IsStorable → 2 * particle.toJson.height + 1 < bound →
      Particle.ofJsonWithin bound particle.toJson = .ok particle.withoutContainers
  | _, 0, _, enough => absurd enough (Nat.not_lt_zero _)
  | .element declaration, bound + 1, storable, enough => by
    rw [Particle.IsStorable] at storable
    rw [Particle.toJson] at enough ⊢
    -- The kind is one more member, and the element is read from the same object.
    have taller : declaration.toJson.height ≤
        Json.height (.obj (("kind", .str "element") :: declaration.entries)) := by
      rw [Element.toJson, Json.height, Json.height, Json.heightMembers]
      exact Nat.succ_le_succ (le_max_right _ _)
    have elements := Element.ofJsonWithin_toJson declaration bound storable (by omega)
    have distinct : (keysOf (("kind", Json.str "element") :: declaration.entries)).Nodup := by
      cases declaration
      simp [Element.entries, Occurs.entries]
    simp [Particle.ofJsonWithin, Particle.withoutContainers, Json.variant_obj distinct,
      Json.asString, Element.ofJsonWithin_kind, elements]
  | .compositor _ _ _, 1, _, enough => absurd (Nat.lt_of_succ_lt_succ enough) (Nat.not_lt_zero _)
  | .compositor kind occurs parts, bound + 2, storable, enough => by
    rw [Particle.IsStorable] at storable
    rw [Particle.toJson] at enough ⊢
    have below := enough_of_mem (Nat.lt_of_succ_lt_succ enough) "particles"
      (List.mem_append_right _ List.mem_cons_self)
    rw [Json.height] at below
    have each := parts_mapM parts bound storable.2 (by omega)
    have least := Json.asNat_ofNat storable.1.least
    cases kind <;>
      simp [Particle.ofJsonWithin, compositorOfJsonWithin, Particle.withoutContainers,
        Compositor.text, Occurs.entries, Occurs.ofRecord, Json.asCount, Json.asString, Json.asList,
        least, MaxOccurs.ofJson_toJson storable.1.most, each]
  | .group reference occurs, bound + 1, storable, enough => by
    rw [Particle.IsStorable] at storable
    have least := Json.asNat_ofNat storable.least
    simp [Particle.ofJsonWithin, Particle.toJson, Particle.withoutContainers, Occurs.entries,
      Occurs.ofRecord, Json.asCount, Json.asString, least, MaxOccurs.ofJson_toJson storable.most]
  | .any wildcard, bound + 1, storable, enough => by
    rw [Particle.IsStorable] at storable
    have named : Json.variant "kind" wildcard.toJson = .ok ("any", wildcard.toJson) :=
      Json.variant_obj (by simp [Occurs.entries]) rfl
    rw [Particle.toJson, Particle.ofJsonWithin, named, Json.ok_bind]
    dsimp only
    rw [Wildcard.ofJson_toJson storable]
    rfl

theorem parts_mapM : ∀ (parts : List Particle) (bound : Nat), PartsStorable parts →
    2 * Json.heightItems (partsToJson parts) + 1 < bound →
      (partsToJson parts).mapM (Particle.ofJsonWithin bound) = .ok (partsWithoutContainers parts)
  | [], _, _, _ => rfl
  | part :: rest, bound, storable, enough => by
    rw [PartsStorable] at storable
    rw [partsToJson, Json.heightItems] at enough
    rw [partsToJson, List.mapM_cons,
      Particle.ofJsonWithin_toJson part bound storable.1 (by omega),
      parts_mapM rest bound storable.2 (by omega)]
    rfl

theorem Element.ofJsonWithin_toJson : ∀ (element : Element) (bound : Nat), element.IsStorable →
    2 * element.toJson.height < bound →
      Element.ofJsonWithin bound element.toJson = .ok element.withoutContainers
  | _, 0, _, enough => absurd enough (Nat.not_lt_zero _)
  | ⟨name, reference, typeName, complexType, simpleType, occurs, defaultText, fixedText,
      documentation⟩, bound + 1, storable, enough => by
    rw [Element.IsStorable] at storable
    rw [Element.toJson, Element.entries] at enough ⊢
    have types := inline_asOption complexType bound storable.1
      (Nat.lt_of_succ_lt (enough_of_mem enough "complex_type" (by simp)))
    have least := Json.asNat_ofNat storable.2.2.least
    simp [Element.ofJsonWithin, Element.withoutContainers, Occurs.entries, Occurs.ofRecord,
      Json.asCount, least, MaxOccurs.ofJson_toJson storable.2.2.most, types,
      SimpleType.asOption_ofOption storable.2.1]

theorem inline_asOption : ∀ (type : Option ComplexType) (bound : Nat), InlineStorable type →
    2 * (inlineToJson type).height < bound →
      Json.asOption (ComplexType.ofJsonWithin bound) (inlineToJson type) =
        .ok (inlineWithoutContainers type)
  | none, _, _, _ => rfl
  | some type, bound, storable, enough => by
    rw [InlineStorable] at storable
    rw [inlineToJson] at enough ⊢
    rw [Json.asOption_of_ne_null type.toJson_ne_null,
      ComplexType.ofJsonWithin_toJson type bound storable enough]
    rfl

end

theorem ComplexType.ofJson_toJson {type : ComplexType} (storable : type.IsStorable) :
    ofJson type.toJson = .ok type.withoutContainers :=
  ofJsonWithin_toJson type _ storable (Nat.lt_succ_of_lt (Nat.lt_succ_self _))

theorem Particle.ofJson_toJson {particle : Particle} (storable : particle.IsStorable) :
    ofJson particle.toJson = .ok particle.withoutContainers :=
  ofJsonWithin_toJson particle _ storable (Nat.lt_succ_self _)

theorem Element.ofJson_toJson {element : Element} (storable : element.IsStorable) :
    ofJson element.toJson = .ok element.withoutContainers :=
  ofJsonWithin_toJson element _ storable (Nat.lt_succ_of_lt (Nat.lt_succ_self _))

/-! ## Decoded documents -/

theorem MaxOccurs.isStorable_of_ofJson {value : Json} {bound : MaxOccurs}
    (read : ofJson value = .ok bound) : bound.IsStorable := by
  unfold ofJson at read
  split at read
  · cases read
    trivial
  · split at read
    next count known =>
      cases read
      rw [readCount?, Option.filter_eq_some_iff] at known
      show count ≤ Decimal.maxCount
      simpa using known.2
    · cases read
  · cases count : Json.asCount value with
    | ok known =>
      rw [count] at read
      cases read
      exact Json.le_of_asCount count
    | error failure =>
      rw [count] at read
      cases read

theorem Occurs.isStorable_of_ofRecord {record : Record} {occurs : Occurs}
    (read : ofRecord record = .ok occurs) : occurs.IsStorable := by
  simp only [ofRecord, bind_eq_ok, Json.pure_eq_ok, Except.ok.injEq] at read
  obtain ⟨least, leastRead, most, mostRead, rfl⟩ := read
  constructor
  · rcases Json.exists_of_defaulted leastRead with rfl | ⟨json, decoded⟩
    · show 1 ≤ Decimal.maxCount
      decide
    · exact Json.le_of_asCount decoded
  · rcases Json.exists_of_defaulted mostRead with rfl | ⟨json, decoded⟩
    · show 1 ≤ Decimal.maxCount
      decide
    · exact MaxOccurs.isStorable_of_ofJson decoded

theorem Facets.isStorable_of_ofJson {value : Json} {facets : Facets}
    (read : ofJson value = .ok facets) : facets.IsStorable := by
  simp only [ofJson, bind_eq_ok, Json.pure_eq_ok, Except.ok.injEq] at read
  obtain ⟨record, -, length, lengthRead, minLength, minRead, maxLength, maxRead, patterns, -,
    enumerations, -, totalDigits, totalRead, fractionDigits, fractionRead, -, -, -, -, -, -, -, -,
    rfl⟩ := read
  exact ⟨Json.le_of_optional lengthRead, Json.le_of_optional minRead, Json.le_of_optional maxRead,
    Json.le_of_optional totalRead, Json.le_of_optional fractionRead⟩

theorem SimpleType.isStorable_of_ofJson {value : Json} {type : SimpleType}
    (read : ofJson value = .ok type) : type.IsStorable := by
  simp only [ofJson, bind_eq_ok, Json.pure_eq_ok, Except.ok.injEq] at read
  obtain ⟨record, -, name, -, documentation, -, base, -, facets, facetsRead, rfl⟩ := read
  rcases Json.exists_of_defaulted facetsRead with rfl | ⟨json, decoded⟩
  · exact ⟨nofun, nofun, nofun, nofun, nofun⟩
  · exact Facets.isStorable_of_ofJson decoded

theorem Attribute.isStorable_of_ofJson {value : Json} {self : Attribute}
    (read : ofJson value = .ok self) : self.IsStorable := by
  simp only [ofJson, bind_eq_ok, Json.pure_eq_ok, Except.ok.injEq] at read
  obtain ⟨record, -, name, -, reference, -, typeName, -, simpleType, typeRead, -, -, -, -, -, -,
    -, -, rfl⟩ := read
  intro type has
  obtain ⟨json, decoded⟩ := Json.exists_of_optional typeRead type has
  exact SimpleType.isStorable_of_ofJson decoded

theorem AttributeItem.isStorable_of_ofJson {value : Json} {item : AttributeItem}
    (read : ofJson value = .ok item) : item.IsStorable := by
  simp only [ofJson, bind_eq_ok] at read
  obtain ⟨⟨kind, entries⟩, -, read⟩ := read
  dsimp only at read
  split at read
  · obtain ⟨declaration, decoded, rfl⟩ := by
      simpa only [bind_eq_ok, Json.pure_eq_ok, Except.ok.injEq] using read
    exact Attribute.isStorable_of_ofJson decoded
  · simp only [bind_eq_ok, Json.pure_eq_ok, Except.ok.injEq] at read
    obtain ⟨record, -, reference, -, rfl⟩ := read
    trivial
  · cases read

theorem SimpleContent.isStorable_of_ofJson {value : Json} {content : SimpleContent}
    (read : ofJson value = .ok content) : content.IsStorable := by
  simp only [ofJson, bind_eq_ok, Json.pure_eq_ok, Except.ok.injEq] at read
  obtain ⟨record, -, base, -, attributes, attributesRead, rfl⟩ := read
  intro item member
  obtain ⟨json, decoded⟩ := Json.exists_of_list attributesRead item member
  exact AttributeItem.isStorable_of_ofJson decoded

theorem Wildcard.isStorable_of_ofJson {value : Json} {wildcard : Wildcard}
    (read : ofJson value = .ok wildcard) : wildcard.occurs.IsStorable := by
  simp only [ofJson, bind_eq_ok, Json.pure_eq_ok, Except.ok.injEq] at read
  obtain ⟨record, -, space, -, documentation, -, occurs, occursRead, rfl⟩ := read
  exact Occurs.isStorable_of_ofRecord occursRead

/-- Everything inside can be stored, and there is no enclosing element. -/
def ComplexType.IsPlain (type : ComplexType) : Prop :=
  type.IsStorable ∧ type.withoutContainers = type

def Particle.IsPlain (particle : Particle) : Prop :=
  particle.IsStorable ∧ particle.withoutContainers = particle

def Extension.IsPlain (extension : Extension) : Prop :=
  ExtensionStorable (some extension) ∧ extensionWithoutContainers (some extension) = some extension

def Element.IsPlain (element : Element) : Prop :=
  element.IsStorable ∧ element.withoutContainers = element

theorem content_isPlain {content : Option Particle} (plain : ∀ known ∈ content, known.IsPlain) :
    ContentStorable content ∧ contentWithoutContainers content = content := by
  cases content with
  | none => exact ⟨trivial, rfl⟩
  | some particle => exact ⟨(plain particle rfl).1, congrArg some (plain particle rfl).2⟩

theorem extension_isPlain {extension : Option Extension}
    (plain : ∀ known ∈ extension, known.IsPlain) :
    ExtensionStorable extension ∧ extensionWithoutContainers extension = extension := by
  cases extension with
  | none => exact ⟨trivial, rfl⟩
  | some extension => exact plain extension rfl

theorem inline_isPlain {type : Option ComplexType} (plain : ∀ known ∈ type, known.IsPlain) :
    InlineStorable type ∧ inlineWithoutContainers type = type := by
  cases type with
  | none => exact ⟨trivial, rfl⟩
  | some type => exact ⟨(plain type rfl).1, congrArg some (plain type rfl).2⟩

theorem parts_isPlain {parts : List Particle} (plain : ∀ part ∈ parts, part.IsPlain) :
    PartsStorable parts ∧ partsWithoutContainers parts = parts := by
  induction parts with
  | nil => exact ⟨trivial, rfl⟩
  | cons part rest ih =>
    obtain ⟨first, others⟩ := List.forall_mem_cons.mp plain
    obtain ⟨restStorable, restSame⟩ := ih others
    refine ⟨⟨first.1, restStorable⟩, ?_⟩
    rw [partsWithoutContainers, first.2, restSame]

mutual

theorem ComplexType.isPlain_of_ofJsonWithin : ∀ (bound : Nat) {value : Json} {type : ComplexType},
    ComplexType.ofJsonWithin bound value = .ok type → type.IsPlain
  | 0, _, _, read => nomatch read
  | bound + 1, value, type, read => by
    simp only [ComplexType.ofJsonWithin, bind_eq_ok, Json.pure_eq_ok, Except.ok.injEq] at read
    obtain ⟨record, -, name, -, isAbstract, -, documentation, -, attributes, attributesRead,
      content, contentRead, extension, extensionRead, scalar, scalarRead, rfl⟩ := read
    have items (item : AttributeItem) (member : item ∈ attributes) : item.IsStorable := by
      obtain ⟨json, decoded⟩ := Json.exists_of_list attributesRead item member
      exact AttributeItem.isStorable_of_ofJson decoded
    have scalars (known : SimpleContent) (has : known ∈ scalar) : known.IsStorable := by
      obtain ⟨json, decoded⟩ := Json.exists_of_optional scalarRead known has
      exact SimpleContent.isStorable_of_ofJson decoded
    obtain ⟨contentStorable, contentSame⟩ := content_isPlain fun particle has => by
      obtain ⟨json, decoded⟩ := Json.exists_of_optional contentRead particle has
      exact Particle.isPlain_of_ofJsonWithin bound decoded
    obtain ⟨extensionStorable, extensionSame⟩ := extension_isPlain fun known has => by
      obtain ⟨json, decoded⟩ := Json.exists_of_optional extensionRead known has
      exact Extension.isPlain_of_ofJsonWithin bound decoded
    refine ⟨⟨items, contentStorable, extensionStorable, scalars⟩, ?_⟩
    rw [ComplexType.withoutContainers, contentSame, extensionSame]

theorem Extension.isPlain_of_ofJsonWithin : ∀ (bound : Nat) {value : Json} {extension : Extension},
    Extension.ofJsonWithin bound value = .ok extension → extension.IsPlain
  | 0, _, _, read => nomatch read
  | bound + 1, value, extension, read => by
    simp only [Extension.ofJsonWithin, bind_eq_ok, Json.pure_eq_ok, Except.ok.injEq] at read
    obtain ⟨record, -, base, -, attributes, attributesRead, content, contentRead, rfl⟩ := read
    have items (item : AttributeItem) (member : item ∈ attributes) : item.IsStorable := by
      obtain ⟨json, decoded⟩ := Json.exists_of_list attributesRead item member
      exact AttributeItem.isStorable_of_ofJson decoded
    obtain ⟨contentStorable, contentSame⟩ := content_isPlain fun particle has => by
      obtain ⟨json, decoded⟩ := Json.exists_of_optional contentRead particle has
      exact Particle.isPlain_of_ofJsonWithin bound decoded
    refine ⟨⟨items, contentStorable⟩, ?_⟩
    rw [extensionWithoutContainers, contentSame]

theorem Particle.isPlain_of_ofJsonWithin : ∀ (bound : Nat) {value : Json} {particle : Particle},
    Particle.ofJsonWithin bound value = .ok particle → particle.IsPlain
  | 0, _, _, read => nomatch read
  | bound + 1, value, particle, read => by
    rw [Particle.ofJsonWithin] at read
    obtain ⟨⟨kind, entries⟩, -, read⟩ := bind_eq_ok.mp read
    dsimp only at read
    split at read
    · obtain ⟨declaration, decoded, read⟩ := bind_eq_ok.mp read
      cases read
      obtain ⟨storable, same⟩ := Element.isPlain_of_ofJsonWithin bound decoded
      exact ⟨storable, congrArg Particle.element same⟩
    · exact compositor_isPlain_of_ofJsonWithin bound read
    · exact compositor_isPlain_of_ofJsonWithin bound read
    · simp only [bind_eq_ok, Json.pure_eq_ok, Except.ok.injEq] at read
      obtain ⟨record, -, reference, -, occurs, occursRead, rfl⟩ := read
      exact ⟨Occurs.isStorable_of_ofRecord occursRead, rfl⟩
    · obtain ⟨wildcard, decoded, read⟩ := bind_eq_ok.mp read
      cases read
      exact ⟨Wildcard.isStorable_of_ofJson decoded, rfl⟩
    · cases read

theorem compositor_isPlain_of_ofJsonWithin : ∀ (bound : Nat) {kind : Compositor} {value : Json}
    {particle : Particle}, compositorOfJsonWithin bound kind value = .ok particle →
      particle.IsPlain
  | 0, _, _, _, read => nomatch read
  | bound + 1, kind, value, particle, read => by
    simp only [compositorOfJsonWithin, bind_eq_ok, Json.pure_eq_ok, Except.ok.injEq] at read
    obtain ⟨record, -, occurs, occursRead, parts, partsRead, rfl⟩ := read
    obtain ⟨partsStorable, partsSame⟩ := parts_isPlain fun part member => by
      obtain ⟨json, decoded⟩ := Json.exists_of_list partsRead part member
      exact Particle.isPlain_of_ofJsonWithin bound decoded
    refine ⟨⟨Occurs.isStorable_of_ofRecord occursRead, partsStorable⟩, ?_⟩
    rw [Particle.withoutContainers, partsSame]

theorem Element.isPlain_of_ofJsonWithin : ∀ (bound : Nat) {value : Json} {element : Element},
    Element.ofJsonWithin bound value = .ok element → element.IsPlain
  | 0, _, _, read => nomatch read
  | bound + 1, value, element, read => by
    simp only [Element.ofJsonWithin, bind_eq_ok, Json.pure_eq_ok, Except.ok.injEq] at read
    obtain ⟨record, -, name, -, reference, -, typeName, -, complexType, complexRead, simpleType,
      simpleRead, occurs, occursRead, -, -, -, -, -, -, rfl⟩ := read
    obtain ⟨typeStorable, typeSame⟩ := inline_isPlain fun known has => by
      obtain ⟨json, decoded⟩ := Json.exists_of_optional complexRead known has
      exact ComplexType.isPlain_of_ofJsonWithin bound decoded
    have simple (known : SimpleType) (has : known ∈ simpleType) : known.IsStorable := by
      obtain ⟨json, decoded⟩ := Json.exists_of_optional simpleRead known has
      exact SimpleType.isStorable_of_ofJson decoded
    refine ⟨⟨typeStorable, simple, Occurs.isStorable_of_ofRecord occursRead⟩, ?_⟩
    rw [Element.withoutContainers, typeSame]

end

theorem AttributeGroup.ofJson_toJson {group : AttributeGroup}
    (storable : ∀ item ∈ group.attributes, item.IsStorable) :
    ofJson group.toJson = .ok group := by
  simp [ofJson, toJson, Json.asString, AttributeItem.asList_toJson storable]

theorem ModelGroup.ofJson_toJson {group : ModelGroup} (storable : group.particle.IsStorable) :
    ofJson group.toJson = .ok group.withoutContainers := by
  simp [ofJson, toJson, withoutContainers, Json.asString, Particle.ofJson_toJson storable]

theorem Import.ofJson_toJson (self : Import) : ofJson self.toJson = .ok self := by
  simp [ofJson, toJson, Json.asString]

namespace Document

theorem ofJson_toJson {document : Document} (storable : document.IsStorable) :
    ofJson document.toJson = .ok document.withoutContainers := by
  have namespaces := Json.asStringMap_obj storable.namespaces
  have imports := asList_map fun self (_ : self ∈ document.imports) => Import.ofJson_toJson self
  have complexTypes := Json.asList_map_eq fun type member =>
    ComplexType.ofJson_toJson (storable.complexTypes type member)
  have simpleTypes := asList_map fun type member =>
    SimpleType.ofJson_toJson (storable.simpleTypes type member)
  have elements := Json.asList_map_eq fun element member =>
    Element.ofJson_toJson (storable.elements element member)
  have attributes := asList_map fun declaration member =>
    Attribute.ofJson_toJson (storable.attributes declaration member)
  have attributeGroups := asList_map fun group member =>
    AttributeGroup.ofJson_toJson (storable.attributeGroups group member)
  have groups := Json.asList_map_eq fun group member =>
    ModelGroup.ofJson_toJson (storable.groups group member)
  simp [ofJson, toJson, withoutContainers, namespaces, imports, complexTypes, simpleTypes,
    elements, attributes, attributeGroups, groups]

theorem map_eq_self {α : Type} {change : α → α} {items : List α}
    (same : ∀ item ∈ items, change item = item) : items.map change = items := by
  rw [List.map_congr_left same, List.map_id']

theorem isStorable_of_ofJson {value : Json} {document : Document}
    (read : ofJson value = .ok document) :
    document.IsStorable ∧ document.withoutContainers = document := by
  simp only [ofJson, bind_eq_ok, Json.pure_eq_ok, Except.ok.injEq] at read
  obtain ⟨record, -, namespaces, namespacesRead, imports, -, complexTypes, complexRead,
    simpleTypes, simpleRead, elements, elementsRead, attributes, attributesRead, attributeGroups,
    attributeGroupsRead, groups, groupsRead, rfl⟩ := read
  -- Whatever has been decoded can be stored and has no enclosing elements.
  have types (type : ComplexType) (member : type ∈ complexTypes) : type.IsPlain := by
    obtain ⟨json, decoded⟩ := Json.exists_of_list complexRead type member
    exact ComplexType.isPlain_of_ofJsonWithin _ decoded
  have declared (element : Element) (member : element ∈ elements) : element.IsPlain := by
    obtain ⟨json, decoded⟩ := Json.exists_of_list elementsRead element member
    exact Element.isPlain_of_ofJsonWithin _ decoded
  have grouped (group : ModelGroup) (member : group ∈ groups) : group.particle.IsPlain := by
    obtain ⟨json, decoded⟩ := Json.exists_of_list groupsRead group member
    simp only [ModelGroup.ofJson, bind_eq_ok, Json.pure_eq_ok, Except.ok.injEq] at decoded
    obtain ⟨record, -, name, -, particle, particleRead, rfl⟩ := decoded
    obtain ⟨json, decoded⟩ := Json.exists_of_required particleRead
    exact Particle.isPlain_of_ofJsonWithin _ decoded
  refine ⟨⟨?_, fun type member => (types type member).1, ?_,
    fun element member => (declared element member).1, ?_, ?_,
    fun group member => (grouped group member).1⟩, ?_⟩
  · rcases Json.exists_of_defaulted namespacesRead with rfl | ⟨json, decoded⟩
    · exact Table.sorted_nil
    · exact Json.sorted_of_asStringMap decoded
  · intro type member
    obtain ⟨json, decoded⟩ := Json.exists_of_list simpleRead type member
    exact SimpleType.isStorable_of_ofJson decoded
  · intro declaration member
    obtain ⟨json, decoded⟩ := Json.exists_of_list attributesRead declaration member
    exact Attribute.isStorable_of_ofJson decoded
  · intro group member item inGroup
    obtain ⟨json, decoded⟩ := Json.exists_of_list attributeGroupsRead group member
    simp only [AttributeGroup.ofJson, bind_eq_ok, Json.pure_eq_ok, Except.ok.injEq] at decoded
    obtain ⟨record, -, name, -, items, itemsRead, rfl⟩ := decoded
    obtain ⟨json, decoded⟩ := Json.exists_of_list itemsRead item inGroup
    exact AttributeItem.isStorable_of_ofJson decoded
  · have sameGroups : groups.map ModelGroup.withoutContainers = groups :=
      map_eq_self fun group member => by
        rw [ModelGroup.withoutContainers, (grouped group member).2]
    simp only [withoutContainers, map_eq_self fun type member => (types type member).2,
      map_eq_self fun element member => (declared element member).2, sameGroups]

/-- Decoding undoes encoding, up to the enclosing elements of anonymous types, which are not
written; and a document that was decoded has none. -/
theorem decoding_undoes_encoding :
    (∀ document : Document, document.IsStorable →
      ofJson document.toJson = .ok document.withoutContainers) ∧
    ∀ (value : Json) (document : Document), ofJson value = .ok document →
      ofJson document.toJson = .ok document := by
  refine ⟨fun document storable => ofJson_toJson storable, fun value document read => ?_⟩
  obtain ⟨storable, same⟩ := isStorable_of_ofJson read
  rw [ofJson_toJson storable, same]

/-- A document with orders, whose lines are of an anonymous type that extends another. -/
def ofOrders : Document where
  namespaces := [("", "urn:orders"), ("common", "urn:common")]
  imports := [⟨some "urn:common", "common.json"⟩, ⟨none, "codes.json"⟩]
  complexTypes := [
    ⟨some "Order", false, some "An order.",
      [.single ⟨some "id", none, some "xs:ID", none, .required, none, none, none⟩, .group "audit"],
      some (.compositor .sequence ⟨0, .unbounded⟩ [
        .element ⟨some "line", none, none,
          some ⟨none, false, none, [], none,
            some ⟨"Line", [],
              some (.compositor .choice .once [.any ⟨none, none, ⟨0, .bounded 7⟩⟩])⟩,
            none, some ⟨"line", some "A line."⟩⟩,
          none, ⟨1, .unbounded⟩, none, none, none⟩,
        .group "remarks" ⟨0, .one⟩]),
      none, none, none⟩,
    ⟨some "Amount", true, none, [], none, none, some ⟨"xs:decimal", [.group "audit"]⟩, none⟩]
  simpleTypes := [
    ⟨some "Code", none, "xs:string", { Facets.none with
      maxLength := some 8, patterns := ["[A-Z]+"], enumerations := [⟨"A", some "First."⟩] }⟩]
  elements := [⟨some "order", none, some "Order", none, none, .once, none, none, none⟩]
  attributes := [⟨some "lang", none, none, some ⟨none, none, "xs:string", .none⟩, .optional,
    some "en", none, none⟩]
  attributeGroups :=
    [⟨"audit", [.single ⟨none, some "lang", none, none, .optional, none, none, none⟩]⟩]
  groups := [⟨"remarks", .element ⟨none, some "remark", none, none, none, .once, none, none, none⟩⟩]

theorem decoding_undoes_encoding_ofOrders : ofOrders.IsStorable ∧
    ofJson ofOrders.toJson = .ok ofOrders.withoutContainers := by
  have storable : ofOrders.IsStorable := by
    constructor
    · decide
    all_goals
      simp [ofOrders, ComplexType.IsStorable, ContentStorable, ExtensionStorable,
        Particle.IsStorable, PartsStorable, Element.IsStorable, InlineStorable]
      decide
  exact ⟨storable, decoding_undoes_encoding.1 ofOrders storable⟩

end Document

end EntityGraph.Schema
