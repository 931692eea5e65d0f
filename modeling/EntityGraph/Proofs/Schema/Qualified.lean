import EntityGraph.Schema.Qualify
import Mathlib.Data.List.Forall2

/-!
# Qualified documents

Every name in a declaration either refers to another declaration or is that of an inner one. To
qualify a declaration is to qualify each name that refers, in its place, and a declaration in which
all of them have a prefix stays as it is. So a document has a prefix at every name and reference
after it has been qualified, and is not changed by qualifying it once more. The inline types of
top-level attributes are the exception: their bases stay as they are written.
-/
namespace EntityGraph.Schema

/-- Whether a name has a namespace prefix. -/
def HasPrefix (name : String) : Prop := ':' ∈ name.toList

instance (name : String) : Decidable (HasPrefix name) :=
  inferInstanceAs (Decidable (':' ∈ name.toList))

theorem hasPrefix_of_isBuiltin {name : String} (is : isBuiltin name = true) : HasPrefix name := by
  rw [isBuiltin, String.startsWith_string_iff] at is
  obtain ⟨rest, same⟩ := is
  rw [HasPrefix, ← same]
  simp

theorem qualify_eq_self {name : String} (has : HasPrefix name) (space : String) :
    qualify space name = name := by
  have contained : name.toList.contains ':' = true := List.contains_iff_mem.mpr has
  rw [qualify, contained, Bool.true_or, if_pos rfl]

theorem qualify_eq_append {name : String} (lacks : ¬HasPrefix name) (space : String) :
    qualify space name = space ++ ":" ++ name := by
  have notBuiltin : isBuiltin name = false :=
    eq_false_of_ne_true fun is => lacks (hasPrefix_of_isBuiltin is)
  have absent : name.toList.contains ':' = false :=
    eq_false_of_ne_true fun contained => lacks (List.contains_iff_mem.mp contained)
  rw [qualify, absent, notBuiltin, Bool.or_self, if_neg Bool.false_ne_true]

theorem hasPrefix_qualify (space name : String) : HasPrefix (qualify space name) := by
  by_cases has : HasPrefix name
  · rwa [qualify_eq_self has]
  · rw [qualify_eq_append has, HasPrefix]
    simp

/-- A name is kept, or gets a prefix if it had none. -/
def Gains (space before after : String) : Prop :=
  after = before ∨ ¬HasPrefix before ∧ after = space ++ ":" ++ before

theorem gains_qualify (space name : String) : Gains space name (qualify space name) := by
  by_cases has : HasPrefix name
  · exact .inl (qualify_eq_self has space)
  · exact .inr ⟨has, qualify_eq_append has space⟩

/-! ## The names in a declaration -/

/-- A name in a declaration. -/
inductive Mention where
  /-- The name of another declaration. -/
  | reference (name : String)
  /-- The name of a declaration inside. -/
  | inner (name : String)
  deriving DecidableEq, Repr

namespace Mention

def qualify (space : String) : Mention → Mention
  | reference name => reference (Schema.qualify space name)
  | inner name => inner name

def reference? : Mention → Option String
  | reference name => some name
  | inner _ => none

def inner? : Mention → Option String
  | reference _ => none
  | inner name => some name

end Mention

def mentionsReference (name : Option String) : List Mention := name.toList.map .reference

def mentionsInner (name : Option String) : List Mention := name.toList.map .inner

def mentionsSimple : Option SimpleType → List Mention
  | some type => mentionsInner type.name ++ [.reference type.base]
  | none => []

/-- The names in an attribute, apart from its own and its inline type. -/
def Attribute.mentionsOutside (declaration : Attribute) : List Mention :=
  mentionsReference declaration.reference ++ mentionsReference declaration.typeName

def AttributeItem.mentions : AttributeItem → List Mention
  | .single declaration =>
    mentionsInner declaration.name ++ declaration.mentionsOutside ++
      mentionsSimple declaration.simpleType
  | .group reference => [.reference reference]

def SimpleContent.mentions (content : SimpleContent) : List Mention :=
  .reference content.base :: content.attributes.flatMap AttributeItem.mentions

mutual

/-- The names in a complex type, apart from its own. -/
def ComplexType.mentions : ComplexType → List Mention
  | ⟨_, _, _, attributes, content, extension, simpleContent, _⟩ =>
    attributes.flatMap AttributeItem.mentions ++ mentionsContent content ++
      mentionsExtension extension ++ simpleContent.toList.flatMap SimpleContent.mentions

def mentionsContent : Option Particle → List Mention
  | some particle => particle.mentions
  | none => []

def mentionsExtension : Option Extension → List Mention
  | some ⟨base, attributes, content⟩ =>
    .reference base :: attributes.flatMap AttributeItem.mentions ++ mentionsContent content
  | none => []

def Particle.mentions : Particle → List Mention
  | .element declaration => mentionsInner declaration.name ++ declaration.mentions
  | .compositor _ _ parts => mentionsParts parts
  | .group reference _ => [.reference reference]
  | .any _ => []

def mentionsParts : List Particle → List Mention
  | [] => []
  | part :: rest => part.mentions ++ mentionsParts rest

/-- The names in an element, apart from its own. -/
def Element.mentions : Element → List Mention
  | ⟨_, reference, typeName, complexType, simpleType, _, _, _, _⟩ =>
    mentionsReference reference ++ mentionsReference typeName ++ mentionsInline complexType ++
      mentionsSimple simpleType

def mentionsInline : Option ComplexType → List Mention
  | some type => mentionsInner type.name ++ type.mentions
  | none => []

end

/-! ## What becomes of them -/

variable {space : String}

@[simp] theorem mentionsReference_map (name : Option String) :
    mentionsReference (name.map (qualify space)) =
      (mentionsReference name).map (Mention.qualify space) := by
  cases name <;> rfl

@[simp] theorem mentionsInner_qualify (name : Option String) :
    (mentionsInner name).map (Mention.qualify space) = mentionsInner name := by
  cases name <;> rfl

@[simp] theorem mentionsSimple_qualify (type : Option SimpleType) :
    mentionsSimple (type.map (SimpleType.qualify space)) =
      (mentionsSimple type).map (Mention.qualify space) := by
  cases type with
  | none => rfl
  | some type =>
    simp [mentionsSimple, SimpleType.qualify, Mention.qualify]

theorem AttributeItem.mentions_qualify (item : AttributeItem) :
    (item.qualify space).mentions = item.mentions.map (Mention.qualify space) := by
  cases item with
  | single declaration =>
    simp [AttributeItem.qualify, Attribute.qualify, mentions, Attribute.mentionsOutside]
  | group reference => rfl

@[simp] theorem mentions_attributes (items : List AttributeItem) :
    (items.map (AttributeItem.qualify space)).flatMap AttributeItem.mentions =
      (items.flatMap AttributeItem.mentions).map (Mention.qualify space) := by
  rw [List.flatMap_map, List.map_flatMap]
  exact congrArg (items.flatMap ·) (funext AttributeItem.mentions_qualify)

theorem SimpleContent.mentions_qualify (content : SimpleContent) :
    (content.qualify space).mentions = content.mentions.map (Mention.qualify space) := by
  simp [SimpleContent.qualify, mentions, Mention.qualify]

mutual

theorem ComplexType.mentions_qualify (type : ComplexType) :
    (type.qualify space).mentions = type.mentions.map (Mention.qualify space) := by
  match type with
  | ⟨_, _, _, attributes, content, extension, simpleContent, _⟩ =>
    have wrapped : (simpleContent.map (SimpleContent.qualify space)).toList.flatMap
        SimpleContent.mentions =
          (simpleContent.toList.flatMap SimpleContent.mentions).map (Mention.qualify space) := by
      cases simpleContent with
      | none => rfl
      | some inner => simpa using inner.mentions_qualify
    rw [ComplexType.qualify, ComplexType.mentions, ComplexType.mentions, mentions_attributes,
      mentionsContent_qualify content, mentionsExtension_qualify extension, wrapped]
    simp only [List.map_append]

theorem mentionsContent_qualify (content : Option Particle) :
    mentionsContent (qualifyContent space content) =
      (mentionsContent content).map (Mention.qualify space) := by
  match content with
  | some particle =>
    rw [qualifyContent, mentionsContent, mentionsContent, particle.mentions_qualify]
  | none => rw [qualifyContent, mentionsContent, List.map_nil]

theorem mentionsExtension_qualify (extension : Option Extension) :
    mentionsExtension (qualifyExtension space extension) =
      (mentionsExtension extension).map (Mention.qualify space) := by
  match extension with
  | some ⟨base, attributes, content⟩ =>
    rw [qualifyExtension, mentionsExtension, mentionsExtension, mentions_attributes,
      mentionsContent_qualify content]
    simp only [List.cons_append, List.map_cons, List.map_append, Mention.qualify]
  | none => rw [qualifyExtension, mentionsExtension, List.map_nil]

theorem Particle.mentions_qualify (particle : Particle) :
    (particle.qualify space).mentions = particle.mentions.map (Mention.qualify space) := by
  match particle with
  | .element declaration =>
    have same : (declaration.qualify space).name = declaration.name := by
      obtain ⟨_, _, _, _, _, _, _, _, _⟩ := declaration
      rw [Element.qualify]
    rw [Particle.qualify, Particle.mentions, Particle.mentions, same, declaration.mentions_qualify,
      List.map_append, mentionsInner_qualify]
  | .compositor _ _ parts =>
    rw [Particle.qualify, Particle.mentions, Particle.mentions, mentionsParts_qualify parts]
  | .group reference _ =>
    rw [Particle.qualify, Particle.mentions, Particle.mentions, List.map_singleton, Mention.qualify]
  | .any _ => rw [Particle.qualify, Particle.mentions, List.map_nil]

theorem mentionsParts_qualify (parts : List Particle) :
    mentionsParts (qualifyParts space parts) =
      (mentionsParts parts).map (Mention.qualify space) := by
  match parts with
  | [] => rw [qualifyParts, mentionsParts, List.map_nil]
  | part :: rest =>
    rw [qualifyParts, mentionsParts, mentionsParts, part.mentions_qualify,
      mentionsParts_qualify rest, List.map_append]

theorem Element.mentions_qualify (declaration : Element) :
    (declaration.qualify space).mentions =
      declaration.mentions.map (Mention.qualify space) := by
  match declaration with
  | ⟨_, reference, typeName, complexType, simpleType, _, _, _, _⟩ =>
    rw [Element.qualify, Element.mentions, Element.mentions, mentionsInline_qualify complexType]
    simp only [mentionsReference_map, mentionsSimple_qualify, List.map_append]

theorem mentionsInline_qualify (complexType : Option ComplexType) :
    mentionsInline (qualifyInline space complexType) =
      (mentionsInline complexType).map (Mention.qualify space) := by
  match complexType with
  | some type =>
    have same : (type.qualify space).name = type.name := by
      obtain ⟨_, _, _, _, _, _, _, _⟩ := type
      rw [ComplexType.qualify]
    rw [qualifyInline, mentionsInline, mentionsInline, same, type.mentions_qualify,
      List.map_append, mentionsInner_qualify]
  | none => rw [qualifyInline, mentionsInline, List.map_nil]

end

/-! ## Declarations that stay as they are

Read off the names alone: where every reference has a prefix, no part of a declaration is changed.
-/

/-- Every reference has a prefix. -/
def AllPrefixed (mentions : List Mention) : Prop :=
  ∀ name, .reference name ∈ mentions → HasPrefix name

@[simp] theorem allPrefixed_append {first second : List Mention} :
    AllPrefixed (first ++ second) ↔ AllPrefixed first ∧ AllPrefixed second := by
  simp only [AllPrefixed, List.mem_append, or_imp, forall_and]

@[simp] theorem allPrefixed_reference {name : String} {mentions : List Mention} :
    AllPrefixed (.reference name :: mentions) ↔ HasPrefix name ∧ AllPrefixed mentions := by
  simp [AllPrefixed, or_imp, forall_and]

theorem allPrefixed_qualify (space : String) (mentions : List Mention) :
    AllPrefixed (mentions.map (Mention.qualify space)) := by
  intro name member
  obtain ⟨mention, _, same⟩ := List.mem_map.mp member
  cases mention with
  | reference written =>
    obtain rfl := Mention.reference.inj same
    exact hasPrefix_qualify space written
  | inner _ => cases same

@[simp] theorem allPrefixed_mentionsReference {name : Option String} :
    AllPrefixed (mentionsReference name) ↔ ∀ own ∈ name.toList, HasPrefix own := by
  cases name <;> simp [mentionsReference, AllPrefixed]

@[simp] theorem allPrefixed_flatMap {α : Type} {items : List α} {view : α → List Mention} :
    AllPrefixed (items.flatMap view) ↔ ∀ item ∈ items, AllPrefixed (view item) := by
  simp only [AllPrefixed, List.mem_flatMap]
  exact ⟨fun all item member name mentioned => all name ⟨item, member, mentioned⟩,
    fun each name ⟨item, member, mentioned⟩ => each item member name mentioned⟩

theorem map_eq_self {α : Type} {change : α → α} {items : List α}
    (each : ∀ item ∈ items, change item = item) : items.map change = items :=
  (List.map_congr_left each).trans (List.map_id items)

theorem map_qualify_of_prefixed {name : Option String}
    (all : ∀ own ∈ name.toList, HasPrefix own) : name.map (qualify space) = name := by
  cases name with
  | none => rfl
  | some name => exact congrArg some (qualify_eq_self (all name List.mem_cons_self) space)

theorem mapSimple_qualify_of_prefixed {type : Option SimpleType}
    (all : AllPrefixed (mentionsSimple type)) : type.map (SimpleType.qualify space) = type := by
  cases type with
  | none => rfl
  | some type =>
    have base := all type.base (List.mem_append_right _ List.mem_cons_self)
    rw [Option.map_some, SimpleType.qualify, qualify_eq_self base]

theorem AttributeItem.qualify_of_prefixed {item : AttributeItem} (all : AllPrefixed item.mentions) :
    item.qualify space = item := by
  cases item with
  | single declaration =>
    simp only [mentions, Attribute.mentionsOutside, allPrefixed_append,
      allPrefixed_mentionsReference] at all
    obtain ⟨⟨_, reference, typeName⟩, simpleType⟩ := all
    rw [AttributeItem.qualify, Attribute.qualify, map_qualify_of_prefixed reference,
      map_qualify_of_prefixed typeName, mapSimple_qualify_of_prefixed simpleType]
  | group reference =>
    rw [AttributeItem.qualify, qualify_eq_self (all reference List.mem_cons_self)]

theorem mapAttributes_qualify_of_prefixed {items : List AttributeItem}
    (all : AllPrefixed (items.flatMap AttributeItem.mentions)) :
    items.map (AttributeItem.qualify space) = items :=
  map_eq_self fun item member => item.qualify_of_prefixed (allPrefixed_flatMap.mp all item member)

theorem mapWrapped_qualify_of_prefixed {content : Option SimpleContent}
    (all : AllPrefixed (content.toList.flatMap SimpleContent.mentions)) :
    content.map (SimpleContent.qualify space) = content := by
  cases content with
  | none => rfl
  | some inner =>
    simp only [Option.toList_some, List.flatMap_singleton, SimpleContent.mentions,
      allPrefixed_reference] at all
    rw [Option.map_some, SimpleContent.qualify, qualify_eq_self all.1,
      mapAttributes_qualify_of_prefixed all.2]

mutual

theorem ComplexType.qualify_of_prefixed {type : ComplexType} (all : AllPrefixed type.mentions) :
    type.qualify space = type := by
  match type with
  | ⟨_, _, _, attributes, content, extension, simpleContent, _⟩ =>
    simp only [ComplexType.mentions, allPrefixed_append] at all
    obtain ⟨⟨⟨own, inside⟩, extends_⟩, wrapped⟩ := all
    rw [ComplexType.qualify, mapAttributes_qualify_of_prefixed own,
      qualifyContent_of_prefixed inside, qualifyExtension_of_prefixed extends_,
      mapWrapped_qualify_of_prefixed wrapped]

theorem qualifyContent_of_prefixed {content : Option Particle}
    (all : AllPrefixed (mentionsContent content)) : qualifyContent space content = content := by
  match content with
  | some particle =>
    rw [mentionsContent] at all
    rw [qualifyContent, particle.qualify_of_prefixed all]
  | none => rw [qualifyContent]

theorem qualifyExtension_of_prefixed {extension : Option Extension}
    (all : AllPrefixed (mentionsExtension extension)) :
    qualifyExtension space extension = extension := by
  match extension with
  | some ⟨base, attributes, content⟩ =>
    simp only [mentionsExtension, List.cons_append, allPrefixed_reference,
      allPrefixed_append] at all
    obtain ⟨extends_, own, inside⟩ := all
    rw [qualifyExtension, qualify_eq_self extends_, mapAttributes_qualify_of_prefixed own,
      qualifyContent_of_prefixed inside]
  | none => rw [qualifyExtension]

theorem Particle.qualify_of_prefixed {particle : Particle} (all : AllPrefixed particle.mentions) :
    particle.qualify space = particle := by
  match particle with
  | .element declaration =>
    rw [Particle.mentions, allPrefixed_append] at all
    rw [Particle.qualify, declaration.qualify_of_prefixed all.2]
  | .compositor _ _ parts =>
    rw [Particle.mentions] at all
    rw [Particle.qualify, qualifyParts_of_prefixed all]
  | .group reference _ =>
    rw [Particle.mentions] at all
    rw [Particle.qualify, qualify_eq_self (all reference List.mem_cons_self)]
  | .any _ => rw [Particle.qualify]

theorem qualifyParts_of_prefixed {parts : List Particle}
    (all : AllPrefixed (mentionsParts parts)) : qualifyParts space parts = parts := by
  match parts with
  | [] => rw [qualifyParts]
  | part :: rest =>
    rw [mentionsParts, allPrefixed_append] at all
    rw [qualifyParts, part.qualify_of_prefixed all.1, qualifyParts_of_prefixed all.2]

theorem Element.qualify_of_prefixed {declaration : Element}
    (all : AllPrefixed declaration.mentions) : declaration.qualify space = declaration := by
  match declaration with
  | ⟨_, reference, typeName, complexType, simpleType, _, _, _, _⟩ =>
    simp only [Element.mentions, allPrefixed_append, allPrefixed_mentionsReference] at all
    obtain ⟨⟨⟨refers, typed⟩, inline⟩, simple⟩ := all
    rw [Element.qualify, map_qualify_of_prefixed refers, map_qualify_of_prefixed typed,
      qualifyInline_of_prefixed inline, mapSimple_qualify_of_prefixed simple]

theorem qualifyInline_of_prefixed {complexType : Option ComplexType}
    (all : AllPrefixed (mentionsInline complexType)) :
    qualifyInline space complexType = complexType := by
  match complexType with
  | some type =>
    rw [mentionsInline, allPrefixed_append] at all
    rw [qualifyInline, type.qualify_of_prefixed all.2]
  | none => rw [qualifyInline]

end

/-! ## Documents -/

theorem ComplexType.mentions_qualifyNamed (type : ComplexType) :
    (type.qualifyNamed space).mentions = type.mentions.map (Mention.qualify space) := by
  rw [← type.mentions_qualify]
  obtain ⟨_, _, _, _, _, _, _, _⟩ := type
  simp only [qualifyNamed, ComplexType.qualify, ComplexType.mentions]

theorem Element.mentions_qualifyNamed (declaration : Element) :
    (declaration.qualifyNamed space).mentions =
      declaration.mentions.map (Mention.qualify space) := by
  rw [← declaration.mentions_qualify]
  obtain ⟨_, _, _, _, _, _, _, _, _⟩ := declaration
  simp only [qualifyNamed, Element.qualify, Element.mentions]

theorem ComplexType.qualifyNamed_of_prefixed {type : ComplexType}
    (name : ∀ own ∈ type.name.toList, HasPrefix own) (all : AllPrefixed type.mentions) :
    type.qualifyNamed space = type := by
  rw [qualifyNamed, type.qualify_of_prefixed all, map_qualify_of_prefixed name]
  obtain ⟨_, _, _, _, _, _, _, _⟩ := type
  rfl

theorem Element.qualifyNamed_of_prefixed {declaration : Element}
    (name : ∀ own ∈ declaration.name.toList, HasPrefix own)
    (all : AllPrefixed declaration.mentions) : declaration.qualifyNamed space = declaration := by
  rw [qualifyNamed, declaration.qualify_of_prefixed all, map_qualify_of_prefixed name]
  obtain ⟨_, _, _, _, _, _, _, _, _⟩ := declaration
  rfl

namespace Document

/-- The names of the top-level declarations. -/
def declared (document : Document) : List String :=
  document.complexTypes.flatMap (·.name.toList) ++ document.simpleTypes.flatMap (·.name.toList) ++
    document.elements.flatMap (·.name.toList) ++ document.attributes.flatMap (·.name.toList) ++
    document.attributeGroups.map (·.name) ++ document.groups.map (·.name)

/-- The names in the top-level declarations, apart from the inline types of attributes. -/
def mentions (document : Document) : List Mention :=
  document.complexTypes.flatMap ComplexType.mentions ++
    document.simpleTypes.map (fun type => .reference type.base) ++
    document.elements.flatMap Element.mentions ++
    document.attributes.flatMap Attribute.mentionsOutside ++
    document.attributeGroups.flatMap (fun group =>
      group.attributes.flatMap AttributeItem.mentions) ++
    document.groups.flatMap (fun group => group.particle.mentions)

/-- The inline types of the top-level attributes. -/
def attributeTypes (document : Document) : List SimpleType :=
  document.attributes.filterMap (·.simpleType)

/-- All references, at any depth. -/
def references (document : Document) : List String :=
  document.mentions.filterMap Mention.reference? ++ document.attributeTypes.map (·.base)

/-- The names of all declarations inside of others, at any depth. -/
def innerNames (document : Document) : List String :=
  document.mentions.filterMap Mention.inner? ++ document.attributeTypes.flatMap (·.name.toList)

theorem declared_qualify (document : Document) :
    (document.qualify space).declared = document.declared.map (Schema.qualify space) := by
  have name (name : Option String) :
      (name.map (Schema.qualify space)).toList = name.toList.map (Schema.qualify space) := by
    cases name <;> rfl
  simp [declared, qualify, ComplexType.qualifyNamed, SimpleType.qualifyNamed, Element.qualifyNamed,
    Attribute.qualifyNamed, AttributeGroup.qualify, ModelGroup.qualify, name, List.flatMap_map,
    List.map_flatMap, Function.comp_def]

theorem mentions_qualify (document : Document) :
    (document.qualify space).mentions = document.mentions.map (Mention.qualify space) := by
  have outside (declaration : Attribute) : (declaration.qualifyNamed space).mentionsOutside =
      declaration.mentionsOutside.map (Mention.qualify space) := by
    simp [Attribute.mentionsOutside, Attribute.qualifyNamed]
  simp [mentions, qualify, ComplexType.mentions_qualifyNamed, SimpleType.qualifyNamed,
    SimpleType.qualify, Element.mentions_qualifyNamed, outside, AttributeGroup.qualify,
    AttributeItem.mentions_qualify, ModelGroup.qualify, Particle.mentions_qualify, Mention.qualify,
    List.flatMap_map, List.map_flatMap, Function.comp_def]

theorem attributeTypes_qualify (document : Document) :
    (document.qualify space).attributeTypes = document.attributeTypes := by
  rw [attributeTypes, qualify, List.filterMap_map]
  rfl

theorem qualify_of_prefixed {document : Document}
    (names : ∀ name ∈ document.declared, HasPrefix name) (all : AllPrefixed document.mentions) :
    document.qualify space = document := by
  simp only [declared, List.mem_append, or_imp, forall_and, List.forall_mem_flatMap,
    List.forall_mem_map] at names
  simp only [mentions, allPrefixed_append, allPrefixed_flatMap, Attribute.mentionsOutside,
    allPrefixed_mentionsReference] at all
  obtain ⟨⟨⟨⟨⟨complexNames, simpleNames⟩, elementNames⟩, attributeNames⟩, attributeGroupNames⟩,
    groupNames⟩ := names
  obtain ⟨⟨⟨⟨⟨inComplex, inSimple⟩, inElements⟩, inAttributes⟩, inAttributeGroups⟩, inGroups⟩ := all
  have complexTypes := @map_eq_self _ (ComplexType.qualifyNamed space) _ fun type member =>
    type.qualifyNamed_of_prefixed (complexNames type member) (inComplex type member)
  have simpleTypes := @map_eq_self _ (SimpleType.qualifyNamed space) _ fun type member => by
    rw [SimpleType.qualifyNamed, SimpleType.qualify,
      qualify_eq_self (inSimple _ (List.mem_map_of_mem member)),
      map_qualify_of_prefixed (simpleNames type member)]
  have elements := @map_eq_self _ (Element.qualifyNamed space) _ fun declaration member =>
    declaration.qualifyNamed_of_prefixed (elementNames declaration member)
      (inElements declaration member)
  have attributes := @map_eq_self _ (Attribute.qualifyNamed space) _ fun declaration member => by
    rw [Attribute.qualifyNamed, map_qualify_of_prefixed (attributeNames declaration member),
      map_qualify_of_prefixed (inAttributes declaration member).1,
      map_qualify_of_prefixed (inAttributes declaration member).2]
  have attributeGroups := @map_eq_self _ (AttributeGroup.qualify space) _ fun group member => by
    rw [AttributeGroup.qualify, qualify_eq_self (attributeGroupNames group member),
      mapAttributes_qualify_of_prefixed (allPrefixed_flatMap.mpr (inAttributeGroups group member))]
  have groups := @map_eq_self _ (ModelGroup.qualify space) _ fun group member => by
    rw [ModelGroup.qualify, qualify_eq_self (groupNames group member),
      group.particle.qualify_of_prefixed (inGroups group member)]
  rw [qualify, complexTypes, simpleTypes, elements, attributes, attributeGroups, groups]

theorem references_qualify (document : Document) :
    (document.qualify space).references =
      (document.mentions.filterMap Mention.reference?).map (Schema.qualify space) ++
        document.attributeTypes.map (·.base) := by
  have each (mention : Mention) : (mention.qualify space).reference? =
      mention.reference?.map (Schema.qualify space) := by
    cases mention <;> rfl
  rw [references, mentions_qualify, attributeTypes_qualify, List.filterMap_map, List.map_filterMap]
  simp only [Function.comp_def, each]

theorem innerNames_qualify (document : Document) :
    (document.qualify space).innerNames = document.innerNames := by
  have each (mention : Mention) : (mention.qualify space).inner? = mention.inner? := by
    cases mention <;> rfl
  rw [innerNames, mentions_qualify, attributeTypes_qualify, List.filterMap_map]
  simp only [Function.comp_def, each, innerNames]

/-- A qualified document has a prefix at the name of every declaration, and at every reference if
and only if the bases of the inline types of its top-level attributes had one. A name that had a
prefix keeps it, the names of inner declarations stay, and to qualify the document again changes
nothing. -/
theorem qualify_prefixes (document : Document) (space : String) :
    (∀ name ∈ (document.qualify space).declared, HasPrefix name) ∧
    ((∀ name ∈ (document.qualify space).references, HasPrefix name) ↔
      ∀ type ∈ document.attributeTypes, HasPrefix type.base) ∧
    List.Forall₂ (Gains space) document.declared (document.qualify space).declared ∧
    List.Forall₂ (Gains space) document.references (document.qualify space).references ∧
    (document.qualify space).innerNames = document.innerNames ∧
    ∀ other, (document.qualify space).qualify other = document.qualify space := by
  have declared : ∀ name ∈ (document.qualify space).declared, HasPrefix name := by
    rw [declared_qualify, List.forall_mem_map]
    exact fun name _ => hasPrefix_qualify space name
  have gained (names : List String) :
      List.Forall₂ (Gains space) names (names.map (Schema.qualify space)) := by
    rw [List.forall₂_map_right_iff, List.forall₂_same]
    exact fun name _ => gains_qualify space name
  refine ⟨declared, ?_, ?_, ?_, innerNames_qualify document, fun other => ?_⟩
  · rw [references_qualify]
    simp only [List.forall_mem_append, List.forall_mem_map]
    exact and_iff_right fun name _ => hasPrefix_qualify space name
  · rw [declared_qualify]
    exact gained document.declared
  · rw [references_qualify]
    exact List.rel_append (gained _) (List.forall₂_same.mpr fun _ _ => .inl rfl)
  · refine qualify_of_prefixed declared ?_
    rw [mentions_qualify]
    exact allPrefixed_qualify space document.mentions

/-! ## A code -/

/-- An attribute with an inline type whose base is a declared type. -/
def attributeDocument : Document :=
  { (default : Document) with
    attributes := [⟨some "code", none, none, some ⟨none, none, "Code", .none⟩, .optional, none,
      none, none⟩]
    simpleTypes := [⟨some "Code", none, "xs:string", .none⟩] }

/-- The declared type gets a prefix, the base of the inline type does not. -/
theorem attribute_base_left_behind :
    (attributeDocument.qualify "shop").declared = ["shop:Code", "shop:code"] ∧
      "Code" ∈ (attributeDocument.qualify "shop").references ∧ ¬HasPrefix "Code" := by
  decide +kernel

end Document

end EntityGraph.Schema
