import EntityGraph.Schema.Codec
import EntityGraph.Schema.Resolve

/-!
# The schema index

The resolved declarations of a document by canonical name, and the questions that a compilation
asks: what a name stands for, what an element contains, and which built-in type a simple type comes
down to.
-/
namespace EntityGraph.Schema

structure Index where
  namespaces : Namespaces
  complexTypes : Table ComplexType
  simpleTypes : Table SimpleType
  elements : Table Element

instance : Inhabited Index := ⟨⟨[], [], [], []⟩⟩

namespace Index

/-- Resolves the named complex types in document order; the last of equal names stays. -/
def resolveTypes (declarations : Declarations) :
    List ComplexType → Result (List (String × ComplexType))
  | [] => .ok []
  | type :: rest =>
    match type.name with
    | none => resolveTypes declarations rest
    | some name => do
      let resolved ← declarations.complexType declarations.allLayers [] none type
      return (declarations.names.canonical name, resolved) :: (← resolveTypes declarations rest)

/-- Resolves the top-level elements in name order; each one stands on its own trail. -/
def resolveElements (declarations : Declarations) : Table Element → Result (Table Element)
  | [] => .ok []
  | (name, element) :: rest => do
    let resolved ← declarations.element declarations.allLayers ["element " ++ name] element
    return (name, resolved) :: (← resolveElements declarations rest)

def build (document : Document) : Result Index := do
  let declarations := Declarations.ofDocument document
  let complexTypes ← resolveTypes declarations document.complexTypes
  let simpleTypes := document.simpleTypes.filterMap fun type =>
    type.name.map fun name => (declarations.names.canonical name, declarations.simpleType type)
  let elements ← resolveElements declarations declarations.elements
  return { namespaces := document.namespaces
           complexTypes := .ofList complexTypes
           simpleTypes := .ofList simpleTypes
           elements }

/-- Reads and resolves a document. -/
def ofText (text : String) : Result Index := do build (← Document.ofText text)

def canonical (index : Index) (name : String) : String := index.namespaces.canonical name

/-- Looks a name up as it is written, then in canonical form. -/
def lookup? {α : Type} (index : Index) (table : Table α) (name : String) : Option α :=
  table.get? name <|> table.get? (index.canonical name)

def complexType? (index : Index) (name : String) : Option ComplexType :=
  index.lookup? index.complexTypes name

def complexType (index : Index) (name : String) : Result ComplexType :=
  match index.complexType? name with
  | some type => .ok type
  | none => .error (.unresolved name index.complexTypes.names)

def simpleType? (index : Index) (name : String) : Option SimpleType :=
  index.lookup? index.simpleTypes name

def element (index : Index) (name : String) : Result Element :=
  match index.lookup? index.elements name with
  | some element => .ok element
  | none => .error (.unresolved name index.elements.names)

/-- A name that stands for no type at all. -/
def unknownType (index : Index) (name : String) : Error :=
  .unresolved name (index.complexTypes.names ++ index.simpleTypes.names)

/-- The type name of an element. An inline type that extends a named type without adding anything
counts as that type. -/
def effectiveTypeName (element : Element) : Option String :=
  match element.typeName with
  | some name => some name
  | none => do
    let type ← element.complexType
    let extension ← type.extension
    if extension.isEmpty && type.attributes.isEmpty && type.content.isNone then
      some extension.base
    else none

/-- The complex type of an element; none if its content is simple. -/
def elementComplexType (index : Index) (element : Element) : Result (Option ComplexType) :=
  match effectiveTypeName element with
  | some name =>
    if isBuiltin name then .ok none
    else
      match index.complexType? name with
      | some type => .ok (some type)
      | none =>
        if (index.simpleType? name).isSome then .ok none else .error (index.unknownType name)
  | none => .ok element.complexType

/-- What a root selector selects: `/name` the type of a top-level element, anything else a type by
its name. The result carries the path under which the type is built. -/
def resolveRoot (index : Index) (selector : String) : Result (String × ComplexType) :=
  match Text.dropStart? "/" selector with
  | some elementName => do
    let element ← index.element elementName
    match ← index.elementComplexType element with
    | none => throw (.notComplexType selector "Root")
    | some type => return (type.name.getD (index.canonical elementName), type)
  | none => do
    let name := index.canonical selector
    return (name, ← index.complexType name)

/-- The base of a named type that is a simple type or wraps a scalar. -/
def scalarBase? (index : Index) (name : String) : Option String :=
  match index.simpleType? name with
  | some type => some type.base
  | none => do
    let type ← index.complexType? name
    let inner ← type.simpleContent
    some inner.base

/-- Follows bases down to a built-in type. `seen` holds the names on the way; `steps` bounds their
number. -/
def primitiveBaseWithin (index : Index) : Nat → List String → String → Result String
  | 0, seen, _ => .error (.cyclicReference (Text.sortDistinct seen))
  | steps + 1, seen, name =>
    if isBuiltin name then .ok name
    else if seen.contains name then .error (.cyclicReference (Text.sortDistinct seen))
    else
      match index.scalarBase? name with
      | some base => primitiveBaseWithin index steps (name :: seen) base
      | none => .error (index.unknownType name)

/-- The built-in type that a name comes down to. Every name on the way but the first is the base of
a declared type, so their number bounds the way. -/
def primitiveBase (index : Index) (name : String) : Result String :=
  index.primitiveBaseWithin (index.simpleTypes.length + index.complexTypes.length + 3) [] name

def restrictionChainWithin (index : Index) : Nat → String → List SimpleType
  | 0, _ => []
  | steps + 1, name =>
    match index.simpleType? name with
    | some type => type :: restrictionChainWithin index steps type.base
    | none => []

/-- The named simple types from a name down to its built-in base, one more than there are at
most. -/
def restrictionChain (index : Index) (name : String) : List SimpleType :=
  index.restrictionChainWithin (index.simpleTypes.length + 1) name

end Index

end EntityGraph.Schema
