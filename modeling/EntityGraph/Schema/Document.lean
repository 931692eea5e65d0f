/-!
# Schema documents

A schema is a set of named declarations: complex types with attributes and a content model, simple
types with facets, elements, attributes, and groups of attributes or of content that other
declarations refer to. Names may carry a namespace prefix before a colon; the prefix `xs` marks the
built-in types.
-/
namespace EntityGraph.Schema

/-- Whether a name denotes a built-in type. -/
def isBuiltin (name : String) : Bool := name.startsWith "xs:"

/-- The upper bound of an occurrence range. -/
inductive MaxOccurs where
  | bounded (count : Nat)
  | unbounded
  deriving DecidableEq, Repr, Inhabited

namespace MaxOccurs

/-- The bound of a particle that states none. -/
def one : MaxOccurs := .bounded 1

def isOne (bound : MaxOccurs) : Bool := bound == one

def isUnbounded (bound : MaxOccurs) : Bool := bound == unbounded

/-- The bound as it is written in a message. -/
def text : MaxOccurs → String
  | bounded count => toString count
  | unbounded => "unbounded"

end MaxOccurs

/-- An occurrence range. -/
structure Occurs where
  least : Nat
  most : MaxOccurs
  deriving DecidableEq, Repr, Inhabited

/-- Exactly once. -/
def Occurs.once : Occurs := ⟨1, .one⟩

/-- One value of a closed enumeration. -/
structure Enumeration where
  value : String
  documentation : Option String
  deriving DecidableEq, Repr, Inhabited

/-- The constraining facets of a restriction. -/
structure Facets where
  length : Option Nat
  minLength : Option Nat
  maxLength : Option Nat
  patterns : List String
  enumerations : List Enumeration
  totalDigits : Option Nat
  fractionDigits : Option Nat
  minInclusive : Option String
  maxInclusive : Option String
  minExclusive : Option String
  maxExclusive : Option String
  deriving DecidableEq, Repr, Inhabited

/-- No facet at all. -/
def Facets.none : Facets :=
  ⟨.none, .none, .none, [], [], .none, .none, .none, .none, .none, .none⟩

/-- A restriction of a base type. -/
structure SimpleType where
  name : Option String
  documentation : Option String
  base : String
  facets : Facets
  deriving DecidableEq, Repr, Inhabited

/-- Whether an attribute may, must or must not be given. -/
inductive AttributeUse where
  | optional
  | required
  | prohibited
  deriving DecidableEq, Repr, Inhabited

/-- An attribute declaration, or a reference to a top-level one. -/
structure Attribute where
  name : Option String
  reference : Option String
  typeName : Option String
  simpleType : Option SimpleType
  usage : AttributeUse
  defaultText : Option String
  fixedText : Option String
  documentation : Option String
  deriving DecidableEq, Repr, Inhabited

namespace Attribute

/-- The name, or the referenced name while the reference stands. -/
def localName (self : Attribute) : String := (self.name <|> self.reference).getD ""

def isRequired (self : Attribute) : Bool := self.usage == .required

/-- The value of an absent attribute: its default, else its fixed value. -/
def valueText (self : Attribute) : Option String := self.defaultText <|> self.fixedText

end Attribute

/-- An entry of an attribute list. -/
inductive AttributeItem where
  | single (declaration : Attribute)
  /-- All attributes of a named group. -/
  | group (reference : String)
  deriving DecidableEq, Repr, Inhabited

/-- A scalar inside a complex type: its value type and its attributes. -/
structure SimpleContent where
  base : String
  attributes : List AttributeItem
  deriving DecidableEq, Repr, Inhabited

/-- The element around an anonymous type. -/
structure Container where
  element : String
  documentation : Option String
  deriving DecidableEq, Repr, Inhabited

/-- A place for elements that the schema does not name. -/
structure Wildcard where
  space : Option String
  documentation : Option String
  occurs : Occurs
  deriving DecidableEq, Repr, Inhabited

/-- How the parts of a model group combine. -/
inductive Compositor where
  /-- All parts, in order. -/
  | sequence
  /-- One of the parts. -/
  | choice
  deriving DecidableEq, Repr, Inhabited

mutual

/-- A complex type, named or inside an element. -/
structure ComplexType where
  name : Option String
  isAbstract : Bool
  documentation : Option String
  attributes : List AttributeItem
  content : Option Particle
  extension : Option Extension
  simpleContent : Option SimpleContent
  /-- The enclosing element of an anonymous type; set by resolution and not part of a document. -/
  container : Option Container

/-- A derivation that adds attributes and content to a base type. -/
structure Extension where
  base : String
  attributes : List AttributeItem
  content : Option Particle

/-- A part of a content model. -/
inductive Particle where
  | element (declaration : Element)
  | compositor (kind : Compositor) (occurs : Occurs) (parts : List Particle)
  /-- The content of a named group. -/
  | group (reference : String) (occurs : Occurs)
  | any (wildcard : Wildcard)

/-- An element declaration, or a reference to a top-level one. -/
structure Element where
  name : Option String
  reference : Option String
  typeName : Option String
  complexType : Option ComplexType
  simpleType : Option SimpleType
  occurs : Occurs
  defaultText : Option String
  fixedText : Option String
  documentation : Option String

end

instance : Inhabited ComplexType := ⟨⟨none, false, none, [], none, none, none, none⟩⟩

namespace ComplexType

/-- The name in messages. -/
def label (type : ComplexType) : String := type.name.getD "<anonymous>"

end ComplexType

/-- An extension that adds neither attributes nor content. -/
def Extension.isEmpty (extension : Extension) : Bool :=
  extension.attributes.isEmpty && extension.content.isNone

namespace Element

/-- The name, or the referenced name while the reference stands. -/
def localName (element : Element) : String := (element.name <|> element.reference).getD ""

def isOptional (element : Element) : Bool := element.occurs.least == 0

/-- The value of an empty element: its default, else its fixed value. -/
def valueText (element : Element) : Option String := element.defaultText <|> element.fixedText

end Element

/-- A named list of attributes. -/
structure AttributeGroup where
  name : String
  attributes : List AttributeItem

/-- A named piece of content model. -/
structure ModelGroup where
  name : String
  particle : Particle

/-- A reference to another document. -/
structure Import where
  space : Option String
  /-- Path relative to the document. -/
  location : String
  deriving DecidableEq, Repr, Inhabited

/-- One schema document. -/
structure Document where
  /-- Namespace names by prefix, in prefix order; the empty prefix is the default namespace. -/
  namespaces : List (String × String)
  imports : List Import
  complexTypes : List ComplexType
  simpleTypes : List SimpleType
  elements : List Element
  attributes : List Attribute
  attributeGroups : List AttributeGroup
  groups : List ModelGroup

instance : Inhabited Document := ⟨⟨[], [], [], [], [], [], [], []⟩⟩

end EntityGraph.Schema
