import EntityGraph.Compile.Fields

/-!
# Classification

What an attribute or element becomes: a scalar, a list of scalars, a relation, an entry of the bag,
a set of flattened fields, or nothing. The rules of the settings are tried in a fixed order, and
where none applies the number of occurrences decides. Building the entity at the other end of a
relation, and walking the members of another type, is left to the caller, who passes it as
`Onward`.
-/
namespace EntityGraph.Compile

open Schema (Attribute AttributeItem ComplexType Element Extension Index MaxOccurs Member Particle
  Wildcard)

/-- How the walk leaves the type at hand. -/
structure Onward where
  /-- Builds the entity of a type path, with further fields, and gives its name. -/
  build : String → Option ComplexType → List Field → Walk String
  /-- Walks the members of a type and of its bases in another place. -/
  members : Scope → ComplexType → Walk Unit
  /-- Walks what an extension adds in another place. -/
  extension : Scope → Extension → Walk Unit

/-- A field that is about to be added. -/
structure Site where
  name : String
  dottedPath : String
  doc : Option String
  nullable : Bool
  coalescedFrom : Option String

/-- The field at a site. -/
def Site.field (site : Site) (scope : Scope) (kind : FieldKind) : Field :=
  { Field.ofKind site.name site.dottedPath kind with
    nullable := site.nullable
    documentation := site.doc.toList
    coalescedFrom := site.coalescedFrom
    choiceGroup := scope.choiceGroup }

/-- A field kind, and the primitive type as whose value a default is read. -/
structure ResolvedKind where
  kind : FieldKind
  primitive : Option String

/-- A reference to an entity. -/
def ResolvedKind.reference (target : String) (oneToOne : Bool) (onDelete : OnDelete) :
    ResolvedKind :=
  ⟨.toOne target oneToOne onDelete none, none⟩

/-! ## Relations to many -/

/-- A type path, and its type unless it is named in the settings. -/
structure Target where
  path : String
  type : Option ComplexType

/-- Whether a rule takes the decision away from the number of occurrences. -/
def hasExplicitRule (rules : FieldRules) (name : String) (isComplex : Bool) : Bool :=
  rules.oneToOne.contains name
    || rules.oneToMany.contains name
    || rules.manyToMany.contains name
    || (rules.oneToManyTarget? name).isSome
    || (rules.manyToManyTarget? name).isSome
    || rules.json.contains name
    || rules.flatten.contains name
    || (isComplex && rules.hasFlattenPrefix name)
    || rules.array.contains name
    || rules.referenceExtension.contains name
    || (rules.foreignKeyTarget? name).isSome

/-- Whether an element repeats without bound, or wraps exactly one element of complex type that
does. -/
def isRepeated (index : Index) (declaration : Element) : Result Bool := do
  match ← index.elementComplexType declaration with
  | none => return false
  | some type =>
    if declaration.occurs.most.isUnbounded then return true
    else if !declaration.occurs.most.isOne || !type.attributes.isEmpty then return false
    else
      match type.soleElement? with
      | some child =>
        if child.occurs.most.isUnbounded then
          return (← index.elementComplexType child).isSome
        else return false
      | none => return false

/-- The element whose type a relation to many leads to, and the name it gives to an anonymous
type. -/
def repeatedElement (context : Context) (scope : Scope) (site : Site) (declaration : Element) :
    Walk (Element × String) := do
  if declaration.occurs.most.isUnbounded then return (declaration, site.name)
  else
    match (← context.index.elementComplexType declaration).bind (·.unboundedChild?) with
    | some child => return (child, site.name ++ "_" ++ child.localName)
    | none =>
      notify (.assumedUnbounded (scope.memberPath site.dottedPath))
      return (declaration, site.name)

/-- The target of a relation to many. -/
def repeatedTarget (context : Context) (scope : Scope) (site : Site) (declaration : Element) :
    Walk Target := do
  let (inner, name) ← repeatedElement context scope site declaration
  match ← context.index.elementComplexType inner with
  | some type => return ⟨type.name.getD (scope.memberPath name), some type⟩
  | none => throw (.notComplexType (scope.memberPath site.dottedPath) "N:many")

/-- The target of a relation that the number of occurrences asks for. -/
def inferTarget? (context : Context) (scope : Scope) (site : Site) (declaration : Element)
    (isComplex : Bool) : Walk (Option Target) := do
  if hasExplicitRule scope.rules site.name isComplex then return none
  else if ← isRepeated context.index declaration then
    return some (← repeatedTarget context scope site declaration)
  else return none

/-- The target of a one-to-one relation. -/
def singleTarget (context : Context) (scope : Scope) (site : Site) (declaration : Element) :
    Walk Target := do
  match ← context.index.elementComplexType declaration with
  | some type => return ⟨type.name.getD (scope.memberPath site.name), some type⟩
  | none => throw (.notComplexType (scope.memberPath site.dottedPath) "1:1")

/-- The target of a relation to many: that of the settings, the inferred one, or the one that the
element itself leads to. -/
def manyTarget (context : Context) (scope : Scope) (site : Site) (declaration : Element)
    (configured : Option String) (inferred : Option Target) : Walk Target := do
  match configured, inferred with
  | some path, _ => return ⟨path, none⟩
  | none, some target => return target
  | none, none => repeatedTarget context scope site declaration

/-- Whether a field is the other end of a relation. -/
def isOtherEnd (relation : String) (field : Field) : Bool :=
  match field.kind with
  | .toOne _ _ _ (some name) => name == relation
  | _ => false

/-- The name of the field by which owned rows refer back. -/
def reverseFieldName (state : State) (scope : Scope) (site : Site) (target : String) : String :=
  let name := Text.snakeCase scope.entity
  match (state.entities.get? target).bind (·.field? name) with
  | some field => if isOtherEnd site.name field then name else name ++ "_" ++ site.name
  | none => name

/-- Adds a relation to owned rows, which get a field that refers back. -/
def addReverse (context : Context) (onward : Onward) (scope : Scope) (site : Site)
    (oneToOne : Bool) (target : Target) : Walk Unit := do
  let reverseField := reverseFieldName (← get) scope site target.path
  let back := Field.ofKind reverseField ""
    (.toOne scope.entity oneToOne .cascade (some site.name))
  let entity ← onward.build target.path target.type [back]
  let field := if oneToOne then site.field scope (.reverseOneToOne entity reverseField)
    else { site.field scope (.reverseOneToMany entity reverseField) with maxOccurs := .unbounded }
  addField context scope.rules scope.typePath (← finishField context scope none none field)

def addManyToMany (context : Context) (onward : Onward) (scope : Scope) (site : Site)
    (target : Target) : Walk Unit := do
  let entity ← onward.build target.path target.type []
  let field := { site.field scope (.manyToMany entity none) with maxOccurs := .unbounded }
  addField context scope.rules scope.typePath (← finishField context scope none none field)

/-! ## Values -/

/-- Whether a type name stands for a scalar. -/
def isScalarName (context : Context) (name : String) : Bool :=
  Schema.isBuiltin name || (context.settings.typeOverride? name).isSome
    || (context.index.simpleType? name).isSome

/-- The primitive type of a scalar type. -/
def primitiveOf? (index : Index) (name : String) : Option String :=
  if Schema.isBuiltin name then some name else (index.primitiveBase name).toOption

/-- The kind of a member of a named type. -/
def resolveNamed (context : Context) (onward : Onward) (name : String) : Walk ResolvedKind := do
  if isScalarName context name then
    let repr ← namedScalar context name
    return ⟨.scalar repr, primitiveOf? context.index name⟩
  else
    let type ← context.index.complexType name
    return .reference (← onward.build name (some type) []) false .protect

/-- The declared types of a member: a type name, an anonymous simple type, an anonymous complex
type; and the type of a member without any. -/
structure DeclaredTypes where
  name : Option String
  simple : Option Schema.SimpleType
  complex : Option ComplexType
  fallback : String

def declaredTypes : Member → DeclaredTypes
  | .element declaration =>
    ⟨Index.effectiveTypeName declaration, declaration.simpleType, declaration.complexType,
      "xs:anyType"⟩
  | .attrib declaration => ⟨declaration.typeName, declaration.simpleType, none, "xs:string"⟩

/-- The kind of a member that no rule applies to: a scalar if its type is simple, a reference if it
is complex. An anonymous complex type makes a row of its own. A hint takes the place of the type
name. -/
def resolveValue (context : Context) (onward : Onward) (scope : Scope) (name : String)
    (hint : Option String) (member : Member) : Walk ResolvedKind := do
  let types := declaredTypes member
  match hint <|> types.name, types.simple, types.complex with
  | some typeName, _, _ => resolveNamed context onward typeName
  | none, some simple, _ =>
    let repr ← deriveScalar (Scalar.inline ⟨context.index, context.settings⟩ simple)
    return ⟨.scalar repr, (context.index.primitiveBase simple.base).toOption⟩
  | none, none, some complex =>
    let target ← onward.build (scope.memberPath name) (some complex) []
    return .reference target true .cascade
  | none, none, none =>
    let repr ← namedScalar context types.fallback
    return ⟨.scalar repr, none⟩

/-- The kind of a list of scalars. -/
def listKind (resolved : ResolvedKind) (path : String) : Result ResolvedKind :=
  match resolved.kind with
  | .scalar repr => .ok ⟨.collection repr, resolved.primitive⟩
  | _ => .error (.notSimpleType path)

/-- A list of the values of an element, or of the first element of its type. The site comes back
with the documentation of both. -/
def resolveArray (context : Context) (onward : Onward) (scope : Scope) (site : Site)
    (declaration : Element) (type : Option ComplexType) :
    Walk (ResolvedKind × MaxOccurs × Site) := do
  let path := scope.memberPath site.dottedPath
  match type with
  | none =>
    let resolved ← resolveValue context onward scope site.name none (.element declaration)
    return (← listKind resolved path, declaration.occurs.most, site)
  | some type =>
    match type.firstElement? with
    | none => throw (.notSimpleType path)
    | some first =>
      let most :=
        if declaration.occurs.most.isOne then first.occurs.most else declaration.occurs.most
      let inner := (Schema.usefulDoc? first.documentation).getD first.localName
      let site := { site with doc := some (site.doc.getD site.name ++ "::" ++ inner) }
      let resolved ← resolveValue context onward scope site.name none (.element first)
      return (← listKind resolved path, most, site)

/-- A reference to the entity that the settings name: that of the anonymous type at the place
itself, or of a named type. -/
def resolveForeignKey (onward : Onward) (scope : Scope) (name target : String)
    (type : Option ComplexType) : Walk ResolvedKind := do
  if target = scope.memberPath name then
    match type with
    | some type => return .reference (← onward.build target (some type) []) false .protect
    | none => throw (.notComplexType target "Foreign key")
  else return .reference (← onward.build target none []) false .protect

/-! ## Flattening and bags -/

/-- Adds the members of a type to the entity at hand. -/
def flatten (onward : Onward) (scope : Scope) (site : Site) (type : ComplexType) : Walk Unit := do
  let before ← produced scope.typePath
  onward.members
    (scope.flattened site.dottedPath (site.doc.getD site.name) site.nullable) type
  if (← produced scope.typePath) = before then
    throw (.emptyFlatten (scope.memberPath site.dottedPath) type.label)

/-- Keeps an element and everything beneath it in the bag. -/
def recordBag (context : Context) (scope : Scope) (key : String) (doc : Option String)
    (type : Option ComplexType) : Walk Unit :=
  let beneath := (type.map (context.index.bagDocs key)).getD []
  addToBag scope.typePath (beneath.set key (doc.getD ""))

/-- What a wildcard says about the elements it stands for. -/
def wildcardDoc (wildcard : Wildcard) : String :=
  match wildcard.documentation, wildcard.space with
  | some doc, _ => Text.Documentation.normalize doc
  | none, some space => "any element from " ++ space
  | none, none => "any element"

def recordWildcard (scope : Scope) (wildcard : Wildcard) : Walk Unit :=
  addToBag scope.typePath [(scope.ancestors ++ "*", scope.docStart ++ wildcardDoc wildcard)]

/-! ## The decision -/

/-- The documentation of a field: that of the settings, or its own behind that of the flattened
ancestors. -/
def fieldDoc? (scope : Scope) (member : Member) (name : String) : Option String :=
  match scope.rules.fieldDoc? name with
  | some doc => some doc
  | none =>
    let own := Schema.usefulDoc? member.documentation
    if scope.docStart.isEmpty then own else some (scope.docStart ++ own.getD name)

/-- A relation that the rules or the number of occurrences ask for. -/
inductive Relation where
  | oneToOne
  | oneToMany
  | manyToMany

/-- The relation that an element becomes, given the target that was inferred. An inferred relation
is one to many unless its target is a root. -/
def relation? (context : Context) (rules : FieldRules) (name : String) (inferred : Option Target) :
    Option Relation :=
  let inferredMany := inferred.map fun target => context.roots.contains target.path
  if rules.oneToOne.contains name then some .oneToOne
  else if rules.oneToMany.contains name || (rules.oneToManyTarget? name).isSome
      || inferredMany == some false then
    some .oneToMany
  else if rules.manyToMany.contains name || (rules.manyToManyTarget? name).isSome
      || inferredMany == some true then
    some .manyToMany
  else none

def addRelation (context : Context) (onward : Onward) (scope : Scope) (site : Site)
    (declaration : Element) (inferred : Option Target) : Relation → Walk Unit
  | .oneToOne => do
    addReverse context onward scope site true (← singleTarget context scope site declaration)
  | .oneToMany => do
    addReverse context onward scope site false
      (← manyTarget context scope site declaration (scope.rules.oneToManyTarget? site.name)
        inferred)
  | .manyToMany => do
    addManyToMany context onward scope site
      (← manyTarget context scope site declaration (scope.rules.manyToManyTarget? site.name)
        inferred)

/-- Whether the rules ask for an element to be flattened. -/
def asksForFlattening (rules : FieldRules) (name : String) (isComplex : Bool) : Bool :=
  rules.flatten.contains name || (isComplex && rules.hasFlattenPrefix name)

/-- What comes of a request to flatten an element that has no members to flatten: its scalar, or
the element as it is. -/
def flatteningHint (scope : Scope) (site : Site) (type : Option ComplexType) :
    Walk (Option String) := do
  let path := scope.memberPath site.dottedPath
  match type with
  | none =>
    notify (.plain path .flattenWithoutComplexType
      "complexType not found for flattening, using the plain type")
    return none
  | some type =>
    match type.simpleContent with
    | some inner =>
      notify (.plain path .flattenReinterpreted
        (type.label ++ " has simple content, using its " ++ inner.base ++ " value"))
      return some inner.base
    | none => return none

/-- The extension whose base a field refers to, if the rules ask for that. -/
def referencedExtension? (scope : Scope) (site : Site) (type : Option ComplexType) :
    Walk (Option Extension) := do
  if !scope.rules.referenceExtension.contains site.name then return none
  else
    let path := scope.memberPath site.dottedPath
    match type with
    | none => throw (.notComplexType path "Reference extension")
    | some type =>
      if type.extension.isNone then
        notify (.plain path .referenceExtensionFallback
          (type.label ++ " has no extension, treating it as a plain reference"))
      return type.extension

/-- The kind of an element that is neither a relation to many nor flattened nor kept in the bag. -/
def resolveElement (context : Context) (onward : Onward) (scope : Scope) (site : Site)
    (declaration : Element) (type : Option ComplexType) (hint : Option String)
    (extension : Option Extension) : Walk (ResolvedKind × MaxOccurs × Site) := do
  if scope.rules.array.contains site.name then
    resolveArray context onward scope site declaration type
  else
    let resolved ← match scope.rules.foreignKeyTarget? site.name, extension with
      | some target, _ => resolveForeignKey onward scope site.name target type
      | none, some extension =>
        pure (.reference (← onward.build extension.base none []) false .protect)
      | none, none =>
        resolveValue context onward scope site.name hint (.element declaration)
    return (resolved, declaration.occurs.most, site)

/-- Adds the field of a member, given its kind. -/
def addMember (context : Context) (scope : Scope) (site : Site) (member : Member)
    (resolved : ResolvedKind) (most : MaxOccurs) : Walk Unit := do
  let field := { site.field scope resolved.kind with maxOccurs := most }
  if let .element declaration := member then
    if most.isOne == field.kind.isCollection then
      throw (.cardinality (scope.memberPath site.dottedPath) most
        ((Index.effectiveTypeName declaration).getD ""))
  addField context scope.rules scope.typePath
    (← finishField context scope member.valueText resolved.primitive field)

/-- What an attribute becomes once its name is settled. -/
def classifyAttribute (context : Context) (onward : Onward) (scope : Scope) (site : Site)
    (bagKey : String) (declaration : Attribute) : Walk Unit := do
  if scope.rules.json.contains site.name then
    if !scope.rules.dropAfterProcessing.contains site.name then
      recordBag context scope bagKey site.doc none
  else
    let resolved ← resolveValue context onward scope site.name none (.attrib declaration)
    addMember context scope site (.attrib declaration) resolved .one

/-- A plain element, which no earlier rule has taken. -/
def classifyPlain (context : Context) (onward : Onward) (scope : Scope) (site : Site)
    (declaration : Element) (type : Option ComplexType) (hint : Option String) : Walk Unit := do
  let extension ← referencedExtension? scope site type
  let (resolved, most, documented) ←
    resolveElement context onward scope site declaration type hint extension
  addMember context scope documented (.element declaration) resolved most
  match extension with
  | some extension =>
    onward.extension
      { scope with ancestors := site.dottedPath ++ ".", nullable := site.nullable } extension
  | none => return

/-- What an element becomes once its name is settled. -/
def classifyElement (context : Context) (onward : Onward) (scope : Scope) (site : Site)
    (bagKey : String) (declaration : Element) : Walk Unit := do
  let rules := scope.rules
  let type ← context.index.elementComplexType declaration
  let inferred ← inferTarget? context scope site declaration type.isSome
  match relation? context rules site.name inferred with
  | some relation => addRelation context onward scope site declaration inferred relation
  | none =>
    if rules.json.contains site.name then
      if !rules.dropAfterProcessing.contains site.name then
        recordBag context scope bagKey site.doc type
    else if asksForFlattening rules site.name type.isSome then
      match type with
      | some members =>
        if members.simpleContent.isNone then flatten onward scope site members
        else
          let hint ← flatteningHint scope site type
          classifyPlain context onward scope site declaration type hint
      | none =>
        let hint ← flatteningHint scope site type
        classifyPlain context onward scope site declaration type hint
    else classifyPlain context onward scope site declaration type none

/-- Settles the name of a member and decides what it becomes. -/
def classify (context : Context) (onward : Onward) (scope : Scope) (nullable : Bool)
    (member : Member) : Walk Unit := do
  let rules := scope.rules
  let localName := (rules.rename.renamed? member.localName).getD member.localName
  let dottedPath := member.dottedPath scope.ancestors localName
  let name := scope.fieldName localName
  if rules.drop.contains name then
    addField context rules scope.typePath (.ofKind name dottedPath .dropped)
  else if rules.options.parentField == some name then
    addField context rules scope.typePath (.ofKind name dottedPath .parentAlias)
  else
    let coalesced := rules.coalesce.renamed? name
    let settled := coalesced.getD name
    let bagKey := if name = dottedPath then settled else dottedPath
    let site : Site := {
      name := settled
      dottedPath
      doc := fieldDoc? scope member settled
      nullable
      coalescedFrom := coalesced.map fun _ => name }
    match member with
    | .attrib declaration => classifyAttribute context onward scope site bagKey declaration
    | .element declaration => classifyElement context onward scope site bagKey declaration

/-! ## Walking -/

/-- Whether an attribute is walked at all. -/
def isWalked (declaration : Attribute) : Bool := declaration.usage != .prohibited

def walkAttributes (context : Context) (onward : Onward) (scope : Scope)
    (items : List AttributeItem) : Walk Unit :=
  items.forM fun item =>
    match item with
    | .single declaration =>
      if isWalked declaration then
        classify context onward scope (scope.nullable || !declaration.isRequired)
          (.attrib declaration)
      else pure ()
    | .group reference => throw (.unresolved reference [])

mutual

/-- Walks a content model. The parts of an optional sequence and of any choice are optional; those
of a choice are marked with its number. -/
def walkParticle (context : Context) (onward : Onward) (scope : Scope) : Particle → Walk Unit
  | .element declaration =>
    classify context onward scope (scope.nullable || declaration.isOptional) (.element declaration)
  | .compositor .sequence occurs parts =>
    walkParts context onward
      { scope with nullable := scope.nullable || occurs.least == 0 } parts
  | .compositor .choice _ parts => do
    let choice ← nextChoice
    walkParts context onward { scope with nullable := true, choiceGroup := some choice } parts
  | .any wildcard => recordWildcard scope wildcard
  | .group reference _ => throw (.unresolved reference [])

def walkParts (context : Context) (onward : Onward) (scope : Scope) : List Particle → Walk Unit
  | [] => pure ()
  | part :: rest => do
    walkParticle context onward scope part
    walkParts context onward scope rest

end

def walkContent (context : Context) (onward : Onward) (scope : Scope) :
    Option Particle → Walk Unit
  | some content => walkParticle context onward scope content
  | none => pure ()

/-- Walks what an extension adds. -/
def walkExtension (context : Context) (onward : Onward) (scope : Scope) (extension : Extension) :
    Walk Unit := do
  walkAttributes context onward scope extension.attributes
  walkContent context onward scope extension.content

/-- Walks the members of one type, without those of its base. -/
def walkOwnMembers (context : Context) (onward : Onward) (scope : Scope) (type : ComplexType) :
    Walk Unit := do
  walkAttributes context onward scope type.attributes
  walkAttributes context onward scope ((type.simpleContent.map (·.attributes)).getD [])
  walkAttributes context onward scope ((type.extension.map (·.attributes)).getD [])
  walkContent context onward scope type.content
  walkContent context onward scope (type.extension.bind (·.content))

/-- Walks the members of a type and of its bases, those of the outermost base first. -/
def walkMembers (context : Context) (onward : Onward) (scope : Scope) (type : ComplexType) :
    Walk Unit :=
  (context.index.lineage type).forM (walkOwnMembers context onward scope)

end EntityGraph.Compile
