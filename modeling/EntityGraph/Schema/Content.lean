import EntityGraph.Entity.Field
import EntityGraph.Schema.Index
import EntityGraph.Text.Documentation

/-!
# Members of types

What a compilation asks about the content of a complex type: its elements, the only one, the first
one that repeats, the bases that it extends, and the documentation of everything beneath it.
-/
namespace EntityGraph.Schema

/-- A member of a type. -/
inductive Member where
  | element (declaration : Element)
  | attrib (declaration : Attribute)

namespace Member

def localName : Member → String
  | element declaration => declaration.localName
  | attrib declaration => declaration.localName

/-- The path of a member below its ancestors; an attribute is marked. -/
def dottedPath (ancestors localName : String) : Member → String
  | element _ => ancestors ++ localName
  | attrib _ => ancestors ++ "@" ++ localName

/-- The documentation of a member, or of the type inside it. -/
def documentation : Member → Option String
  | element declaration =>
    declaration.documentation <|> declaration.complexType.bind (·.documentation)
  | attrib declaration => declaration.documentation

def valueText : Member → Option String
  | element declaration => declaration.valueText
  | attrib declaration => declaration.valueText

def element? : Member → Option Element
  | element declaration => some declaration
  | attrib _ => none

end Member

/-- A documentation text in normal form; empty if there is none. -/
def cleanDoc (doc : Option String) : String :=
  (doc.map Text.Documentation.normalize).getD ""

/-- A documentation text in normal form, if it says anything. -/
def usefulDoc? (doc : Option String) : Option String :=
  (doc.map Text.Documentation.normalize).filter (!·.isEmpty)

namespace Particle

mutual

/-- The elements of a content model, at any depth of its compositors. -/
def elements : Particle → List Element
  | .element declaration => [declaration]
  | .compositor _ _ parts => elementsOf parts
  | .group .. | .any _ => []

def elementsOf : List Particle → List Element
  | [] => []
  | part :: rest => elements part ++ elementsOf rest

end

/-- The first element of a name, at any depth of the compositors. -/
def element? (particle : Particle) (name : String) : Option Element :=
  particle.elements.find? (·.localName == name)

end Particle

namespace ComplexType

/-- The only part of the content, if it is an element. -/
def soleElement? (type : ComplexType) : Option Element :=
  match type.content with
  | some (.compositor _ _ [.element declaration]) | some (.element declaration) =>
    some declaration
  | _ => none

/-- The element of a part that repeats without bound. -/
def unboundedPart? : Particle → Option Element
  | .element declaration => if declaration.occurs.most.isUnbounded then some declaration else none
  | _ => none

/-- The first element of the outermost sequence that repeats without bound. -/
def unboundedChild? (type : ComplexType) : Option Element :=
  match type.content with
  | some (.compositor .sequence _ parts) => parts.findSome? unboundedPart?
  | some part@(.element _) => unboundedPart? part
  | _ => none

def firstElement? (type : ComplexType) : Option Element :=
  type.content.bind fun content => content.elements.head?

/-- The names by which a type is recognized among the bases of others: only a type that stands for
itself has one. -/
def ownNames (type : ComplexType) : List String :=
  if type.container.isNone then type.name.toList else []

/-- The contents of a type: its own and that of its extension. -/
def contents (type : ComplexType) : List Particle :=
  type.content.toList ++ (type.extension.bind (·.content)).toList

/-- The attribute lists of a type: its own, and those of its extension and its simple content. -/
def attributeItems (type : ComplexType) : List AttributeItem :=
  type.attributes ++ ((type.extension.map (·.attributes)).getD [])
    ++ ((type.simpleContent.map (·.attributes)).getD [])

end ComplexType

namespace Index

/-- The base type of an extension. -/
def baseType? (index : Index) (type : ComplexType) : Option ComplexType :=
  type.extension.bind fun extension => index.complexType? extension.base

/-- A type and the bases that it extends, the nearest first, up to a base that has been `seen`.
`steps` bounds their number. -/
def basesWithin (index : Index) : Nat → List String → ComplexType → List ComplexType
  | 0, _, type => [type]
  | steps + 1, seen, type =>
    match index.baseType? type with
    | some base =>
      if base.ownNames.any seen.contains then [type]
      else type :: basesWithin index steps (seen ++ base.ownNames) base
    | none => [type]

/-- A type and the bases that it extends, the outermost first. No base occurs twice. -/
def lineage (index : Index) (type : ComplexType) : List ComplexType :=
  (index.basesWithin (index.complexTypes.length + 1) type.ownNames type).reverse

/-! ## Documentation of bags -/

/-- The documentation of everything beneath an element so far, by path, and the named types that
have been entered. -/
structure BagDocs where
  visited : List String
  entries : Bag

namespace BagDocs

def put (docs : BagDocs) (path : String) (doc : Option String) : BagDocs :=
  { docs with entries := docs.entries.set path (cleanDoc doc) }

/-- Enters a type, unless it has a name that has been entered before. -/
def enter? (docs : BagDocs) (type : ComplexType) : Option BagDocs :=
  match type.name with
  | some name =>
    if docs.visited.contains name then none else some { docs with visited := name :: docs.visited }
  | none => some docs

end BagDocs

/-- Documents an attribute. -/
def documentAttribute (path : String) (docs : BagDocs) : AttributeItem → BagDocs
  | .single declaration =>
    docs.put (path ++ "@" ++ declaration.localName) declaration.documentation
  | .group _ => docs

/-- Documents everything beneath a type: the base first, then the attributes and the elements.
`depth` bounds how deep types are inside each other. -/
def documentType (index : Index) : Nat → String → ComplexType → BagDocs → BagDocs
  | 0, _, _, docs => docs
  | depth + 1, path, type, docs =>
    match docs.enter? type with
    | none => docs
    | some docs =>
      let docs := match index.baseType? type with
        | some base => documentType index depth path base docs
        | none => docs
      let docs := type.attributeItems.foldl (documentAttribute path) docs
      (type.contents.flatMap Particle.elements).foldl
        (fun docs declaration =>
          let below := path ++ "." ++ declaration.localName
          let docs := docs.put below (Member.element declaration).documentation
          match index.elementComplexType declaration with
          | .ok (some inner) => documentType index depth below inner docs
          | _ => docs)
        docs

end Index

/-! ## All types -/

namespace Particle

mutual

/-- The anonymous types inside of a content model, at any depth. -/
def innerTypes : Particle → List ComplexType
  | .element declaration => elementTypes declaration
  | .compositor _ _ parts => innerTypesOf parts
  | .group .. | .any _ => []

def innerTypesOf : List Particle → List ComplexType
  | [] => []
  | part :: rest => innerTypes part ++ innerTypesOf rest

/-- The anonymous type of an element and those inside of it. -/
def elementTypes : Element → List ComplexType
  | ⟨_, _, _, inner, _, _, _, _, _⟩ => typesWithin inner

/-- A type and the anonymous types inside of it. -/
def typesWithin : Option ComplexType → List ComplexType
  | none => []
  | some ⟨name, isAbstract, doc, attributes, content, extension, simpleContent, container⟩ =>
    ⟨name, isAbstract, doc, attributes, content, extension, simpleContent, container⟩
      :: (contentTypes content ++ extensionTypes extension)

def extensionTypes : Option Extension → List ComplexType
  | none => []
  | some ⟨_, _, content⟩ => contentTypes content

def contentTypes : Option Particle → List ComplexType
  | none => []
  | some particle => innerTypes particle

end

end Particle

namespace Index

/-- The declared types and all anonymous ones. -/
def types (index : Index) : List ComplexType :=
  index.complexTypes.flatMap (fun entry => Particle.typesWithin (some entry.2))
    ++ index.elements.flatMap fun entry => Particle.elementTypes entry.2

/-- The documentation of everything beneath a type. No named type is entered twice, and between two
named ones anonymous types are at most as deep as there are types. -/
def bagDocs (index : Index) (path : String) (type : ComplexType) : Bag :=
  let breadth := index.types.length + 1
  (index.documentType (breadth * breadth) path type ⟨[], []⟩).entries

end Index

/-- The type name of an attribute. -/
def AttributeItem.typeName? : AttributeItem → Option String
  | .single declaration => declaration.typeName
  | .group _ => none

/-- The names of types that a type has or uses: its own, that of its base, and those of its
attributes and elements. -/
def ComplexType.typeNames (type : ComplexType) : List String :=
  type.name.toList ++ (type.extension.map (·.base)).toList
    ++ type.attributeItems.filterMap AttributeItem.typeName?
    ++ (type.contents.flatMap Particle.elements).filterMap Index.effectiveTypeName

end EntityGraph.Schema
