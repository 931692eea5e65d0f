import EntityGraph.Compile.Classify

/-!
# Building entities

The entity of one type path: its documentation, its attributes, its parent, its content, its bag and
the fields that the settings add. Every type path is built once; a later request only adds fields.

Building an entity leads to others, and flattening leads into other types. Each such step goes one
level deeper, and `onward` gives the steps at a number of levels.
-/
namespace EntityGraph

namespace Compile

open Schema (ComplexType Element Index Particle)

/-- Adds fields one after the other. -/
def addFields (context : Context) (rules : FieldRules) (path : String) (fields : List Field) :
    Walk Unit :=
  fields.forM (addField context rules path)

/-- Adds fields to an entity that has been built before, or that is being built. -/
def extendBuilt (context : Context) (path : String) (fields : List Field) : Walk Unit := do
  if fields.isEmpty then return
  let entity ← entityAt context path
  addFields context (← context.book.forType entity.name path) path fields
  modifyEntity context path Entity.close

/-- What the walk through the outer parts of a type leaves to be done. -/
structure Outline where
  /-- The type path of the parent. -/
  parent : Option String
  content : Option Particle

/-- Gives an entity what its type says about it. -/
def describe (type : ComplexType) (entity : Entity) : Entity :=
  let doc := type.documentation <|> type.container.bind (·.documentation)
  { entity with
    isAbstract := type.isAbstract
    documentation := entity.documentation ++ (Schema.usefulDoc? doc).toList }

/-- The outline of a type: its content, else its extension, else its scalar. -/
def outline (context : Context) (onward : Onward) (scope : Scope) (type : ComplexType) :
    Walk Outline := do
  match type.content, type.extension, type.simpleContent with
  | some content, _, _ => return ⟨none, some content⟩
  | none, some extension, _ =>
    if extension.isEmpty then
      notify (.plain scope.typePath .emptyExtension
        ("extension of " ++ extension.base ++ " adds nothing"))
    walkAttributes context onward scope extension.attributes
    return ⟨some extension.base, extension.content⟩
  | none, none, some inner =>
    walkAttributes context onward scope inner.attributes
    let repr ← namedScalar context inner.base
    let repr := Scalar.finalize context.settings.compiler.textThreshold repr
    addField context scope.rules scope.typePath (.ofKind "value" "value" (.scalar repr))
    return ⟨none, none⟩
  | none, none, none =>
    notify (.plain scope.typePath .missingContent
      ("no sequence, choice or extension in " ++ type.label))
    return ⟨none, none⟩

/-- The parent that the rules select by one of the elements. -/
def parentByField (scope : Scope) (field : String) (content : Option Particle) :
    Result (Option String) :=
  match content.bind (·.element? field) with
  | some declaration => .ok (Index.effectiveTypeName declaration)
  | none => .error (.missingParentField scope.typePath field)

/-- Walks the outer parts of a type, and finds the parent. -/
def walkOutline (context : Context) (onward : Onward) (scope : Scope) (type : ComplexType) :
    Walk Outline := do
  modifyEntity context scope.typePath (describe type)
  walkAttributes context onward scope type.attributes
  let outline ← outline context onward scope type
  match outline.parent, scope.rules.options.parentField with
  | none, some field =>
    return { outline with parent := ← parentByField scope field outline.content }
  | _, _ => return outline

/-- The outline of an entity. One whose fields all come from the settings has no type. -/
def outlineOf (context : Context) (onward : Onward) (scope : Scope) (type : Option ComplexType) :
    Walk Outline := do
  if scope.rules.isCustom then return ⟨none, none⟩
  else
    let type ← match type with
      | some type => pure type
      | none => liftM (context.index.complexType scope.typePath)
    walkOutline context onward scope type

/-- Connects an entity with its parent, or walks the members of the parent in its place. -/
def inherit (context : Context) (onward : Onward) (scope : Scope) (parent : String) :
    Walk Unit := do
  if scope.rules.includesParentFields then
    onward.members scope (← context.index.complexType parent)
  else
    let name ← onward.build parent none []
    modifyEntity context scope.typePath fun entity => { entity with parent := some name }

/-- Makes the bag of an entity a field. -/
def addBag (context : Context) (scope : Scope) : Walk Unit := do
  match ← takeBag scope.typePath with
  | none => return
  | some entries =>
    let field := Field.ofKind context.settings.compiler.bagFieldName "" (.jsonBag entries)
    addField context scope.rules scope.typePath
      { field with nullable := true, documentation := [Bag.documentation entries] }

/-- The entity that an extra field refers to. It is built if a type path is known for it. -/
def extraTarget (context : Context) (onward : Onward) (target : String) : Walk String := do
  let state ← get
  match state.resolver.reverse? target with
  | some path =>
    if (context.index.complexType? path).isSome || state.isBuilt path then
      onward.build path none []
    else return target
  | none => return target

/-- The kind of an extra field. -/
def extraKind (context : Context) (onward : Onward) (extra : ExtraField) : Walk FieldKind := do
  match extra.target with
  | some target =>
    let entity ← extraTarget context onward target
    if extra.manyToMany then return .manyToMany entity none
    else return .toOne entity false .protect none
  | none =>
    return .scalar
      { ScalarRepr.ofKind (extra.kind.getD .text) with maxLength := extra.maxLength }

/-- Adds a field that the schema does not have. -/
def addExtra (context : Context) (onward : Onward) (scope : Scope) (extra : ExtraField) :
    Walk Unit := do
  let kind ← extraKind context onward extra
  addField context scope.rules scope.typePath
    { Field.ofKind extra.name "" kind with
      nullable := extra.nullable
      documentation := extra.documentation.toList }

/-- Gives an entity the properties that depend on all of its fields. -/
def complete (rules : FieldRules) (inheritedNumber : Option String) (entity : Entity) : Entity :=
  let primary := rules.options.primaryKey.filter fun name => (entity.field? name).isSome
  let entity := { entity with
    numberField := primary <|> rules.options.numberField <|> inheritedNumber
    matchFields := rules.options.matchFields
    isAbstract := rules.options.isAbstract.getD entity.isAbstract }
  entity.close

/-- The number field of the parent. -/
def inheritedNumber? (state : State) (path : String) : Option String := do
  let entity ← state.entities.get? path
  let parent ← state.entityNamed? (← entity.parent)
  parent.numberField

/-- Builds the entity of a type path that has not been built before. -/
def buildNew (context : Context) (onward : Onward) (path entity : String)
    (type : Option ComplexType) (fields : List Field) : Walk Unit := do
  modify fun state =>
    { state with entities := state.entities.set path (.ofTypePath entity path) }
  let rules ← context.book.forType entity path
  let scope := Scope.outermost path entity rules
  let outline ← outlineOf context onward scope type
  match rules.options.parentType <|> outline.parent with
  | some parent => inherit context onward scope parent
  | none => pure ()
  walkContent context onward scope outline.content
  addBag context scope
  rules.options.addFields.forM (addExtra context onward scope)
  addFields context rules path fields
  let inherited := inheritedNumber? (← get) path
  modifyEntity context path (complete rules inherited)

/-- Builds the entity of a type path, or adds fields to it if it is there, and gives its name. Two
type paths may have the same entity only if their names permit merging. -/
def buildEntity (context : Context) (onward : Onward) (path : String) (type : Option ComplexType)
    (fields : List Field) : Walk String := do
  let name ← resolveName path
  let state ← get
  if state.isBuilt path then extendBuilt context path fields
  else
    match state.entityNamed? name.entity with
    | some existing =>
      if name.merge then buildNew context onward path name.entity type fields
      else
        throw (.duplicateEntity name.entity path (", ".intercalate existing.sourceTypes))
    | none => buildNew context onward path name.entity type fields
  return name.entity

/-- The steps that lead to other entities and types, at most `levels` deep. -/
def onward (context : Context) : Nat → Onward
  | 0 => {
      build := fun path _ _ => throw (.endlessNesting path)
      members := fun scope _ => throw (.endlessNesting scope.typePath)
      extension := fun scope _ => throw (.endlessNesting scope.typePath) }
  | levels + 1 => {
      build := fun path type fields => buildEntity context (onward context levels) path type fields
      members := fun scope type => walkMembers context (onward context levels) scope type
      extension := fun scope extension =>
        walkExtension context (onward context levels) scope extension }

end Compile

/-! ## How deep a build goes -/

/-- The type paths that options name as the targets of relations, or as that of the parent. -/
def EntityOptions.targets (options : EntityOptions) : List String :=
  options.parentType.toList ++ options.oneToManyOverrides.map (·.target)
    ++ options.manyToManyOverrides.map (·.target) ++ options.foreignKeyOverrides.map (·.target)

/-- Whether anything may be flattened. -/
def EntityOptions.flattens (options : EntityOptions) : Bool :=
  !options.flattenFields.isEmpty || !options.flattenPrefixes.isEmpty

/-- The options of all entities, those of each entity and those of its overlays. -/
def Settings.allOptions (settings : Settings) : List EntityOptions :=
  settings.global :: settings.entities.flatMap fun rules =>
    rules.options :: rules.overlays.map (·.options)

namespace Compile

/-- The type paths that the schema or the settings name. Any other one belongs to an anonymous
type. -/
def namedPaths (index : Schema.Index) (settings : Settings) : List String :=
  index.types.flatMap (·.typeNames) ++ settings.allOptions.flatMap (·.targets)
    ++ settings.typeMap.filterMap fun rule => literalText? rule.pattern

/-- Levels that are enough for a build that ends where nothing is flattened. Between two named type
paths the types of the entities are inside each other. Inside of one entity, each extension that is
walked in its place makes the names of the fields longer, up to the limit. What is flattened, and
then dropped or put into a bag, has names without a limit. There a pattern may count the levels, as
far as its own size allows. -/
def levelBound (index : Schema.Index) (settings : Settings) : Nat :=
  ((namedPaths index settings).length + 1) * (index.types.length + 1)
    * (settings.compiler.identifierLimit + 3) + 1
    + if settings.allOptions.any (·.flattens) then Pattern.sizeLimit else 0

end Compile

end EntityGraph
