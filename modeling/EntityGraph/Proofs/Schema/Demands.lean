import EntityGraph.Schema.Content

/-!
# What is asked of the names in a schema

A demand on the names of complex types, on references and on the types inside elements holds of a
declaration if it holds of all its parts, at any depth. Simple types inside elements and attributes
are left out.
-/
namespace EntityGraph.Schema

structure Demands where
  /-- The name of a type, where it is declared and where it is used. -/
  type : String → Prop
  /-- The name of an element or attribute that another one refers to. -/
  reference : String → Prop
  /-- The name of a group that is referred to. -/
  group : String → Prop
  /-- A complex type inside an element. -/
  inner : ComplexType → Prop

def Attribute.Meets (demands : Demands) (declaration : Attribute) : Prop :=
  (∀ name, declaration.typeName = some name → demands.type name) ∧
    ∀ name, declaration.reference = some name → demands.reference name

def AttributeItem.Meets (demands : Demands) : AttributeItem → Prop
  | .single declaration => declaration.Meets demands
  | .group reference => demands.group reference

def AttributesMeet (demands : Demands) (items : List AttributeItem) : Prop :=
  ∀ item ∈ items, item.Meets demands

def SimpleContent.Meets (demands : Demands) (content : SimpleContent) : Prop :=
  demands.type content.base ∧ AttributesMeet demands content.attributes

mutual

def ComplexType.Meets (demands : Demands) : ComplexType → Prop
  | ⟨name, _, _, attributes, content, extension, simpleContent, _⟩ =>
    (∀ own, name = some own → demands.type own) ∧ AttributesMeet demands attributes ∧
      ContentMeets demands content ∧ ExtensionMeets demands extension ∧
      ∀ inner, simpleContent = some inner → inner.Meets demands

def ContentMeets (demands : Demands) : Option Particle → Prop
  | some particle => particle.Meets demands
  | none => True

def ExtensionMeets (demands : Demands) : Option Extension → Prop
  | some ⟨base, attributes, content⟩ =>
    demands.type base ∧ AttributesMeet demands attributes ∧ ContentMeets demands content
  | none => True

def Particle.Meets (demands : Demands) : Particle → Prop
  | .element declaration => declaration.Meets demands
  | .compositor _ _ parts => PartsMeet demands parts
  | .group reference _ => demands.group reference
  | .any _ => True

def PartsMeet (demands : Demands) : List Particle → Prop
  | [] => True
  | part :: rest => part.Meets demands ∧ PartsMeet demands rest

def Element.Meets (demands : Demands) : Element → Prop
  | ⟨_, reference, typeName, complexType, _, _, _, _, _⟩ =>
    (∀ name, typeName = some name → demands.type name) ∧
      (∀ name, reference = some name → demands.reference name) ∧ InlineMeets demands complexType

def InlineMeets (demands : Demands) : Option ComplexType → Prop
  | some type => demands.inner type ∧ type.Meets demands
  | none => True

end

/-- Every declaration of a document meets the demands. -/
structure Document.Meets (demands : Demands) (document : Document) : Prop where
  complexTypes : ∀ type ∈ document.complexTypes, type.Meets demands
  elements : ∀ declaration ∈ document.elements, declaration.Meets demands
  attributes : ∀ declaration ∈ document.attributes, declaration.Meets demands
  attributeGroups : ∀ group ∈ document.attributeGroups, AttributesMeet demands group.attributes
  groups : ∀ group ∈ document.groups, group.particle.Meets demands

variable {demands : Demands}

/-! ## Parts -/

theorem Element.meets_iff {declaration : Element} :
    declaration.Meets demands ↔
      (∀ name, declaration.typeName = some name → demands.type name) ∧
        (∀ name, declaration.reference = some name → demands.reference name) ∧
        InlineMeets demands declaration.complexType := by
  obtain ⟨_, _, _, _, _, _, _, _, _⟩ := declaration
  rw [Element.Meets]

theorem ComplexType.meets_iff {type : ComplexType} :
    type.Meets demands ↔
      (∀ own, type.name = some own → demands.type own) ∧ AttributesMeet demands type.attributes ∧
        ContentMeets demands type.content ∧ ExtensionMeets demands type.extension ∧
        ∀ inner, type.simpleContent = some inner → inner.Meets demands := by
  obtain ⟨_, _, _, _, _, _, _, _⟩ := type
  rw [ComplexType.Meets]

theorem Element.Meets.inline {declaration : Element} (meets : declaration.Meets demands)
    {type : ComplexType} (has : declaration.complexType = some type) :
    demands.inner type ∧ type.Meets demands := by
  have inside := (Element.meets_iff.mp meets).2.2
  rwa [has, InlineMeets] at inside

theorem ComplexType.Meets.name {type : ComplexType} (meets : type.Meets demands) {own : String}
    (has : type.name = some own) : demands.type own := (ComplexType.meets_iff.mp meets).1 own has

theorem ComplexType.Meets.simpleContent {type : ComplexType} (meets : type.Meets demands)
    {inner : SimpleContent} (has : type.simpleContent = some inner) : inner.Meets demands :=
  (ComplexType.meets_iff.mp meets).2.2.2.2 inner has

theorem ComplexType.Meets.extension {type : ComplexType} (meets : type.Meets demands)
    {extension : Extension} (has : type.extension = some extension) :
    demands.type extension.base ∧ AttributesMeet demands extension.attributes ∧
      ContentMeets demands extension.content := by
  have inside := (ComplexType.meets_iff.mp meets).2.2.2.1
  obtain ⟨_, _, _⟩ := extension
  rwa [has, ExtensionMeets] at inside

/-- So does the base that an inline type extends without adding anything. -/
theorem Element.Meets.effectiveTypeName {declaration : Element} (meets : declaration.Meets demands)
    {name : String} (named : Index.effectiveTypeName declaration = some name) :
    demands.type name := by
  unfold Index.effectiveTypeName at named
  split at named
  next written has =>
    obtain rfl := Option.some.inj named
    exact (Element.meets_iff.mp meets).1 written has
  next =>
    obtain ⟨type, inside, named⟩ := Option.bind_eq_some_iff.mp named
    obtain ⟨extension, extends_, named⟩ := Option.bind_eq_some_iff.mp named
    split at named
    · obtain rfl := Option.some.inj named
      exact ((meets.inline inside).2.extension extends_).1
    · cases named

mutual

theorem Particle.Meets.element {particle : Particle} (meets : particle.Meets demands) :
    ∀ declaration ∈ particle.elements, declaration.Meets demands := by
  match particle with
  | .element declaration =>
    rw [Particle.Meets] at meets
    intro other member
    rw [Particle.elements, List.mem_singleton] at member
    exact member ▸ meets
  | .compositor _ _ parts =>
    rw [Particle.Meets] at meets
    rw [Particle.elements]
    exact elementsOf_meet meets
  | .group _ _ | .any _ =>
    intro other member
    rw [Particle.elements] at member
    cases member

theorem elementsOf_meet {parts : List Particle} (meet : PartsMeet demands parts) :
    ∀ declaration ∈ Particle.elementsOf parts, declaration.Meets demands := by
  match parts with
  | [] =>
    intro other member
    rw [Particle.elementsOf] at member
    cases member
  | part :: rest =>
    rw [PartsMeet] at meet
    intro other member
    rw [Particle.elementsOf, List.mem_append] at member
    rcases member with first | later
    · exact meet.1.element other first
    · exact elementsOf_meet meet.2 other later

end

theorem ComplexType.Meets.element {type : ComplexType} (meets : type.Meets demands)
    {content : Particle} (has : content ∈ type.contents) :
    ∀ declaration ∈ content.elements, declaration.Meets demands := by
  rw [ComplexType.contents, List.mem_append] at has
  rcases has with own | added
  · have inside := (ComplexType.meets_iff.mp meets).2.2.1
    rw [Option.mem_toList.mp own, ContentMeets] at inside
    exact inside.element
  · obtain ⟨extension, extends_, adds⟩ := Option.bind_eq_some_iff.mp (Option.mem_toList.mp added)
    have inside := (meets.extension extends_).2.2
    rw [adds, ContentMeets] at inside
    exact inside.element

theorem ComplexType.Meets.attrib {type : ComplexType} (meets : type.Meets demands) :
    AttributesMeet demands type.attributeItems := by
  intro item member
  simp only [ComplexType.attributeItems, List.mem_append] at member
  rcases member with (own | added) | wrapped
  · exact (ComplexType.meets_iff.mp meets).2.1 item own
  · cases extends_ : type.extension with
    | none => simp [extends_] at added
    | some extension =>
      simp only [extends_, Option.map_some, Option.getD_some] at added
      exact (meets.extension extends_).2.1 item added
  · cases wraps : type.simpleContent with
    | none => simp [wraps] at wrapped
    | some inner =>
      simp only [wraps, Option.map_some, Option.getD_some] at wrapped
      exact (meets.simpleContent wraps).2 item wrapped

/-! ## Nothing asked -/

/-- No demand at all. -/
def Demands.none : Demands :=
  ⟨fun _ => True, fun _ => True, fun _ => True, fun _ => True⟩

theorem attributesMeet_none (items : List AttributeItem) : AttributesMeet .none items := by
  intro item _
  cases item with
  | single declaration =>
    exact ⟨fun _ _ => trivial, fun _ _ => trivial⟩
  | group reference => trivial

mutual

theorem ComplexType.meets_none (type : ComplexType) : type.Meets .none := by
  match type with
  | ⟨_, _, _, attributes, content, extension, _, _⟩ =>
    rw [ComplexType.Meets]
    exact ⟨fun _ _ => trivial, attributesMeet_none attributes, contentMeets_none content,
      extensionMeets_none extension, fun _ _ => ⟨trivial, attributesMeet_none _⟩⟩

theorem contentMeets_none (content : Option Particle) : ContentMeets .none content := by
  match content with
  | some particle =>
    rw [ContentMeets]
    exact particle.meets_none
  | none =>
    rw [ContentMeets]
    trivial

theorem extensionMeets_none (extension : Option Extension) : ExtensionMeets .none extension := by
  match extension with
  | some ⟨_, attributes, content⟩ =>
    rw [ExtensionMeets]
    exact ⟨trivial, attributesMeet_none attributes, contentMeets_none content⟩
  | none =>
    rw [ExtensionMeets]
    trivial

theorem Particle.meets_none (particle : Particle) : particle.Meets .none := by
  match particle with
  | .element declaration =>
    rw [Particle.Meets]
    exact declaration.meets_none
  | .compositor _ _ parts =>
    rw [Particle.Meets]
    exact partsMeet_none parts
  | .group _ _ | .any _ =>
    rw [Particle.Meets]
    trivial

theorem partsMeet_none (parts : List Particle) : PartsMeet .none parts := by
  match parts with
  | [] =>
    rw [PartsMeet]
    trivial
  | part :: rest =>
    rw [PartsMeet]
    exact ⟨part.meets_none, partsMeet_none rest⟩

theorem Element.meets_none (declaration : Element) : declaration.Meets .none := by
  match declaration with
  | ⟨_, _, _, complexType, _, _, _, _, _⟩ =>
    rw [Element.Meets]
    exact ⟨fun _ _ => trivial, fun _ _ => trivial, inlineMeets_none complexType⟩

theorem inlineMeets_none (complexType : Option ComplexType) : InlineMeets .none complexType := by
  match complexType with
  | some type =>
    rw [InlineMeets]
    exact ⟨trivial, type.meets_none⟩
  | none =>
    rw [InlineMeets]
    trivial

end

theorem Document.meets_none (document : Document) : document.Meets .none :=
  ⟨fun type _ => type.meets_none, fun declaration _ => declaration.meets_none,
    fun declaration _ => attributesMeet_none [.single declaration] _ List.mem_cons_self,
    fun group _ => attributesMeet_none group.attributes, fun group _ => group.particle.meets_none⟩

end EntityGraph.Schema
