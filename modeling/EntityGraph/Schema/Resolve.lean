import EntityGraph.Error
import EntityGraph.Schema.Namespace

/-!
# Resolution of references

Replaces every reference of a document by what it refers to: attribute groups and model groups by
their members, elements and attributes by the declaration, names by their canonical form. Entering
a group, or a referenced element with an inline type, is recorded on a trail; entering the same one
again inside itself is a cycle.

The recursion has two layers. Inside one declaration it follows the syntax. Each entry on the trail
starts a new layer, and as a trail holds no declaration twice, the number of declarations bounds
the number of layers.
-/
namespace EntityGraph.Schema

/-- What references can refer to, by canonical name. -/
structure Declarations where
  names : Namespaces
  attributeGroups : Table AttributeGroup
  groups : Table ModelGroup
  elements : Table Element
  attributes : Table Attribute

/-- The declarations that a resolution is inside of, the outermost first. -/
abbrev Trail := List String

/-- Enters a declaration. -/
def Trail.enter (trail : Trail) (key : String) : Result Trail :=
  if trail.contains key then .error (.cyclicReference (trail ++ [key])) else .ok (trail ++ [key])

namespace Declarations

def ofDocument (document : Document) : Declarations :=
  let names : Namespaces := document.namespaces
  { names
    attributeGroups :=
      .ofList (document.attributeGroups.map fun group => (names.canonical group.name, group))
    groups := .ofList (document.groups.map fun group => (names.canonical group.name, group))
    elements := .ofList
      (document.elements.filterMap fun element =>
        element.name.map fun name => (names.canonical name, element))
    attributes := .ofList
      (document.attributes.filterMap fun declared =>
        declared.name.map fun name => (names.canonical name, declared)) }

/-- The declaration of a name, or an error that knows the other names. -/
def lookup {α : Type} (table : Table α) (name : String) : Result α :=
  match table.get? name with
  | some value => .ok value
  | none => .error (.unresolved name table.names)

/-- A simple type refers to its base by name only. -/
def simpleType (self : Declarations) (type : SimpleType) : SimpleType :=
  { type with
    name := type.name.map self.names.canonical
    base := self.names.canonical type.base }

/-- The declaration that an attribute refers to, with the use, value and documentation that the
place of the reference states. -/
def referencedAttribute (self : Declarations) (site : Attribute) (reference : String) :
    Result Attribute := do
  let name := self.names.canonical reference
  let target ← lookup self.attributes name
  let valued := site.valueText.isSome
  return { target with
    name := some name
    usage := site.usage
    defaultText := if valued then site.defaultText else target.defaultText
    fixedText := if valued then site.fixedText else target.fixedText
    documentation := site.documentation <|> target.documentation }

def attributeDeclaration (self : Declarations) (site : Attribute) : Result Attribute := do
  let declared ← match site.reference with
    | some reference => self.referencedAttribute site reference
    | none => pure site
  return { declared with
    typeName := declared.typeName.map self.names.canonical
    simpleType := declared.simpleType.map self.simpleType }

/-- Resolves an attribute list, where references to groups lead to the given members. -/
def attributesWith (self : Declarations) (members : String → Result (List AttributeItem)) :
    List AttributeItem → Result (List AttributeItem)
  | [] => .ok []
  | .single declared :: rest => do
    let declared ← self.attributeDeclaration declared
    return .single declared :: (← self.attributesWith members rest)
  | .group reference :: rest => do
    let found ← members reference
    return found ++ (← self.attributesWith members rest)

/-- Resolves an attribute list with at most `layers` groups inside each other. -/
def attributeItems (self : Declarations) :
    Nat → Trail → List AttributeItem → Result (List AttributeItem)
  | 0, trail, items => self.attributesWith (fun _ => .error (.cyclicReference trail)) items
  | layers + 1, trail, items =>
    let members (reference : String) : Result (List AttributeItem) := do
      let name := self.names.canonical reference
      let group ← lookup self.attributeGroups name
      let inner ← trail.enter ("attributeGroup " ++ name)
      self.attributeItems layers inner group.attributes
    self.attributesWith members items

/-- No trail enters more attribute groups than there are. -/
def attributeList (self : Declarations) (trail : Trail) (items : List AttributeItem) :
    Result (List AttributeItem) :=
  self.attributeItems (self.attributeGroups.length + 1) trail items

/-- The resolution of what a reference leads to: the next layer. -/
structure Layer where
  particle : Trail → Particle → Result Particle
  element : Trail → Element → Result Element

/-- The content of a group in the place of a reference to it: a sequence or choice takes the bounds
of the reference, with the smaller of the two least numbers, and anything else is wrapped into a
sequence. -/
def inPlaceOf (occurs : Occurs) : Particle → Particle
  | .compositor kind own parts =>
    .compositor kind ⟨min own.least occurs.least, occurs.most⟩ parts
  | other => .compositor .sequence occurs [other]

/-- The declaration that an element refers to, with the bounds and documentation that the place of
the reference states. -/
def referencedElement (site target : Element) (name : String) : Element :=
  { target with
    name := some name
    reference := none
    occurs := site.occurs
    documentation := site.documentation <|> target.documentation }

mutual

def complexType (self : Declarations) (next : Layer) (trail : Trail)
    (container : Option Container) : ComplexType → Result ComplexType
  | ⟨name, isAbstract, documentation, attributes, content, extension, simpleContent, _⟩ => do
    let attributes ← self.attributeList trail attributes
    let content ← self.content next trail content
    let extension ← self.extension next trail extension
    let simpleContent ← match simpleContent with
      | some inner =>
        pure (some { base := self.names.canonical inner.base
                     attributes := ← self.attributeList trail inner.attributes : SimpleContent })
      | none => pure none
    return { name := name.map self.names.canonical, isAbstract, documentation, attributes, content,
             extension, simpleContent, container }

def content (self : Declarations) (next : Layer) (trail : Trail) :
    Option Particle → Result (Option Particle)
  | some particle => do return some (← self.particle next trail particle)
  | none => .ok none

def extension (self : Declarations) (next : Layer) (trail : Trail) :
    Option Extension → Result (Option Extension)
  | some ⟨base, attributes, content⟩ => do
    let attributes ← self.attributeList trail attributes
    let content ← self.content next trail content
    return some ⟨self.names.canonical base, attributes, content⟩
  | none => .ok none

def particle (self : Declarations) (next : Layer) (trail : Trail) : Particle → Result Particle
  | .element declaration => do return .element (← self.element next trail declaration)
  | .compositor kind occurs parts => do
    return .compositor kind occurs (← self.parts next trail parts)
  | .any wildcard => .ok (.any wildcard)
  | .group reference occurs => do
    let name := self.names.canonical reference
    let group ← lookup self.groups name
    let inner ← trail.enter ("group " ++ name)
    return inPlaceOf occurs (← next.particle inner group.particle)

def parts (self : Declarations) (next : Layer) (trail : Trail) :
    List Particle → Result (List Particle)
  | [] => .ok []
  | part :: rest => do
    let part ← self.particle next trail part
    return part :: (← self.parts next trail rest)

def element (self : Declarations) (next : Layer) (trail : Trail) : Element → Result Element
  | ⟨name, some reference, typeName, complexType, simpleType, occurs, defaultText, fixedText,
      documentation⟩ => do
    let site : Element := ⟨name, some reference, typeName, complexType, simpleType, occurs,
      defaultText, fixedText, documentation⟩
    let name := self.names.canonical reference
    let resolved := referencedElement site (← lookup self.elements name) name
    if resolved.complexType.isSome then
      let inner ← trail.enter ("element " ++ name)
      next.element inner resolved
    else
      return { resolved with
        typeName := resolved.typeName.map self.names.canonical
        simpleType := (site.simpleType.map self.simpleType) <|> resolved.simpleType }
  | ⟨name, none, typeName, complexType, simpleType, occurs, defaultText, fixedText,
      documentation⟩ => do
    let complexType ←
      self.inlineType next trail ⟨name.getD "", documentation⟩ complexType
    return { name, reference := none, typeName := typeName.map self.names.canonical, complexType,
             simpleType := simpleType.map self.simpleType, occurs, defaultText, fixedText,
             documentation }

def inlineType (self : Declarations) (next : Layer) (trail : Trail) (container : Container) :
    Option ComplexType → Result (Option ComplexType)
  | some type => do return some (← self.complexType next trail (some container) type)
  | none => .ok none

end

/-- The resolution with at most the given number of layers. -/
def layer (self : Declarations) : Nat → Layer
  | 0 =>
    ⟨fun trail _ => .error (.cyclicReference trail), fun trail _ => .error (.cyclicReference trail)⟩
  | count + 1 => ⟨self.particle (self.layer count), self.element (self.layer count)⟩

/-- Enough layers for every trail. -/
def allLayers (self : Declarations) : Layer :=
  self.layer (self.groups.length + self.elements.length + 1)

end Declarations

end EntityGraph.Schema
