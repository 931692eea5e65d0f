import EntityGraph.Schema.Document

/-!
# Qualified names

A document that is taken into another one gets its names from there: each top-level name and each
reference gets the prefix that the receiving document has for the namespace. Names that have a
prefix, which includes those of built-in types, stay as they are, and so do the names of inner
declarations, because nothing refers to them.
-/
namespace EntityGraph.Schema

/-- The name under a namespace prefix, unless it has one. -/
def qualify (space name : String) : String :=
  if name.toList.contains ':' || isBuiltin name then name else space ++ ":" ++ name

def SimpleType.qualify (space : String) (type : SimpleType) : SimpleType :=
  { type with base := Schema.qualify space type.base }

/-- Qualifies the references of an attribute of a type or of a group. -/
def Attribute.qualify (space : String) (declaration : Attribute) : Attribute :=
  { declaration with
    reference := declaration.reference.map (Schema.qualify space)
    typeName := declaration.typeName.map (Schema.qualify space)
    simpleType := declaration.simpleType.map (SimpleType.qualify space) }

/-- Qualifies the name and the references of a top-level attribute; its inline type stays. -/
def Attribute.qualifyNamed (space : String) (declaration : Attribute) : Attribute :=
  { declaration with
    name := declaration.name.map (Schema.qualify space)
    reference := declaration.reference.map (Schema.qualify space)
    typeName := declaration.typeName.map (Schema.qualify space) }

def AttributeItem.qualify (space : String) : AttributeItem → AttributeItem
  | single declaration => .single (declaration.qualify space)
  | group reference => .group (Schema.qualify space reference)

def SimpleContent.qualify (space : String) (content : SimpleContent) : SimpleContent :=
  { base := Schema.qualify space content.base
    attributes := content.attributes.map (AttributeItem.qualify space) }

mutual

/-- Qualifies the references of a complex type; its name stays. -/
def ComplexType.qualify (space : String) : ComplexType → ComplexType
  | ⟨name, isAbstract, documentation, attributes, content, extension, simpleContent, container⟩ =>
    { name, isAbstract, documentation, container
      attributes := attributes.map (AttributeItem.qualify space)
      content := qualifyContent space content
      extension := qualifyExtension space extension
      simpleContent := simpleContent.map (SimpleContent.qualify space) }

def qualifyContent (space : String) : Option Particle → Option Particle
  | some particle => some (particle.qualify space)
  | none => none

def qualifyExtension (space : String) : Option Extension → Option Extension
  | some ⟨base, attributes, content⟩ =>
    some {
      base := Schema.qualify space base
      attributes := attributes.map (AttributeItem.qualify space)
      content := qualifyContent space content }
  | none => none

def Particle.qualify (space : String) : Particle → Particle
  | .element declaration => .element (declaration.qualify space)
  | .compositor kind occurs parts => .compositor kind occurs (qualifyParts space parts)
  | .group reference occurs => .group (Schema.qualify space reference) occurs
  | .any wildcard => .any wildcard

def qualifyParts (space : String) : List Particle → List Particle
  | [] => []
  | part :: rest => part.qualify space :: qualifyParts space rest

/-- Qualifies the references of an element; its name stays. -/
def Element.qualify (space : String) : Element → Element
  | ⟨name, reference, typeName, complexType, simpleType, occurs, defaultText, fixedText,
      documentation⟩ =>
    { name, occurs, defaultText, fixedText, documentation
      reference := reference.map (Schema.qualify space)
      typeName := typeName.map (Schema.qualify space)
      complexType := qualifyInline space complexType
      simpleType := simpleType.map (SimpleType.qualify space) }

def qualifyInline (space : String) : Option ComplexType → Option ComplexType
  | some type => some (type.qualify space)
  | none => none

end

/-- Qualifies a named declaration: its references, and its name. -/
def ComplexType.qualifyNamed (space : String) (type : ComplexType) : ComplexType :=
  { type.qualify space with name := type.name.map (Schema.qualify space) }

def SimpleType.qualifyNamed (space : String) (type : SimpleType) : SimpleType :=
  { type.qualify space with name := type.name.map (Schema.qualify space) }

def Element.qualifyNamed (space : String) (element : Element) : Element :=
  { element.qualify space with name := element.name.map (Schema.qualify space) }

def AttributeGroup.qualify (space : String) (group : AttributeGroup) : AttributeGroup :=
  { name := Schema.qualify space group.name
    attributes := group.attributes.map (AttributeItem.qualify space) }

def ModelGroup.qualify (space : String) (group : ModelGroup) : ModelGroup :=
  { name := Schema.qualify space group.name
    particle := group.particle.qualify space }

/-- The document with a namespace prefix at every top-level name and every reference. -/
def Document.qualify (space : String) (document : Document) : Document :=
  { document with
    complexTypes := document.complexTypes.map (ComplexType.qualifyNamed space)
    simpleTypes := document.simpleTypes.map (SimpleType.qualifyNamed space)
    elements := document.elements.map (Element.qualifyNamed space)
    attributes := document.attributes.map (Attribute.qualifyNamed space)
    attributeGroups := document.attributeGroups.map (AttributeGroup.qualify space)
    groups := document.groups.map (ModelGroup.qualify space) }

end EntityGraph.Schema
