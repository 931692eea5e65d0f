import EntityGraph.Compile.State
import EntityGraph.Schema.Content

/-!
# Fields under construction

The options that a field gets whatever its kind, and how it is added to its entity: late drops, the
length of its name, the name of its reverse accessor, and what happens when a field of its name is
there already.
-/
namespace EntityGraph.Compile

open Schema (MaxOccurs)

/-! ## Options -/

/-- The line of a choice in the documentation. -/
def choiceLine (choice : Choice) : String :=
  if choice.label = choice.value then choice.value else choice.value ++ " - " ++ choice.label

/-- Whether a text occurs in another. -/
def occursIn (part whole : String) : Bool :=
  let rec go : List Char → Bool
    | [] => part.isEmpty
    | c :: rest => part.toList.isPrefixOf (c :: rest) || go rest
  go whole.toList

/-- Documents the choices that the documentation does not mention yet. -/
def documentChoices (field : Field) : Field :=
  let choices := ((field.kind.repr?.map (·.choices)).getD []).map choiceLine
  let lines := choices.filter fun line => !field.documentation.any (occursIn line)
  if lines.isEmpty then field
  else { field with documentation := field.documentation ++ ["\n".intercalate lines] }

/-- Replaces the scalar kind of a field, or the whole kind if it is no scalar. -/
def overrideKind (rules : FieldRules) (field : Field) : Field :=
  match rules.kind? field.name with
  | none => field
  | some kind =>
    match field.kind.repr? with
    | some _ => { field with kind := field.kind.mapRepr ({ · with kind }) }
    | none => { field with kind := .scalar (.ofKind kind) }

/-- Sets the default value of a scalar. -/
def setDefault (primitive path : String) (raw : Option String) (field : Field) : Result Field := do
  match raw, field.kind.repr? with
  | some raw, some _ =>
    let literal ← Scalar.parseDefault primitive raw path
    return { field with kind := field.kind.mapRepr ({ · with defaultValue := some literal }) }
  | _, _ => return field

/-- Makes a field the primary key, unique or indexed; the first of these that applies counts. -/
def setKeys (rules : FieldRules) (field : Field) : Field :=
  if rules.isPrimaryKey field.name then { field with primaryKey := true }
  else if rules.unique.contains field.name then { field with unique := true }
  else if rules.index.contains field.name then { field with dbIndex := true }
  else field

/-- Replaces the sizes of a scalar. -/
def overrideSizes (options : FieldOverride) (repr : ScalarRepr) : ScalarRepr :=
  { repr with
    maxLength := options.maxLength <|> repr.maxLength
    maxDigits := options.maxDigits <|> repr.maxDigits
    decimalPlaces := options.decimalPlaces <|> repr.decimalPlaces
    notBlank := (options.blank.map (!·)).getD repr.notBlank }

def setRelatedName (relatedName : Option String) (kind : FieldKind) : FieldKind :=
  match relatedName, kind with
  | some name, .toOne target oneToOne onDelete _ => .toOne target oneToOne onDelete (some name)
  | some name, .manyToMany target _ => .manyToMany target (some name)
  | _, kind => kind

/-- Applies the properties that the settings give for a field. -/
def overrideField (options : FieldOverride) (primitive path : String) (field : Field) :
    Result Field := do
  let field := { field with kind := field.kind.mapRepr (overrideSizes options) }
  let field ← setDefault primitive path options.defaultText field
  return { field with
    nullable := options.null.getD field.nullable
    unique := options.unique.getD field.unique
    dbIndex := options.dbIndex.getD field.dbIndex
    kind := setRelatedName options.relatedName field.kind }

/-- Gives a field all options that do not depend on where its kind comes from. A default value is
read as a value of the primitive type. -/
def finishField (context : Context) (scope : Scope) (defaultText primitive : Option String)
    (field : Field) : Result Field := do
  let rules := scope.rules
  let path := scope.memberPath field.dottedPath
  let primitive := primitive.getD "xs:string"
  let threshold := context.settings.compiler.textThreshold
  let field := { field with kind := field.kind.mapRepr (Scalar.finalize threshold) }
  let field := overrideKind rules (documentChoices field)
  let field := { field with nullable := field.nullable || rules.null.contains field.name }
  let field ← setDefault primitive path defaultText field
  let field := setKeys rules field
  let field ← match rules.fieldOverride? field.name with
    | some options => overrideField options primitive path field
    | none => pure field
  if field.primaryKey && field.nullable then throw (.nullablePrimaryKey scope.entity field.name)
  return field

/-! ## Adding -/

/-- The target of a reference that has no name for its other end. -/
def unnamedTarget? : FieldKind → Option String
  | .toOne target false _ none | .manyToMany target none => some target
  | _ => none

/-- An entity and its ancestors, the nearest first. `steps` bounds their number. -/
def ancestors (state : State) : Nat → Entity → List Entity
  | 0, _ => []
  | steps + 1, entity =>
    entity :: (((entity.parent.bind state.entityNamed?).map (ancestors state steps)).getD [])

/-- Whether a field is a reference like another one, under a different name. -/
def isRival (field : Field) (target : String) (other : Field) : Bool :=
  other.isMaterialized && other.name != field.name
    && other.kind.category == field.kind.category && other.kind.target? == some target

/-- The name for the other end of a reference, if the entity or one of its ancestors refers to the
same target in the same way. -/
def accessorName? (state : State) (path : String) (field : Field) : Option String := do
  let target ← unnamedTarget? field.kind
  let entity ← state.entities.get? path
  let owners := ancestors state (state.entities.length + 1) entity
  if owners.any (·.fields.any (isRival field target)) then
    some (Text.snakeCase entity.name ++ "_as_" ++ field.name)
  else none

/-- The first list, followed by the texts of the second that are not yet there. -/
def addTexts (known more : List String) : List String :=
  more.foldl (fun all text => if all.contains text then all else all ++ [text]) known

/-- Puts a field behind those of an entity. If a materialized field of its name is there, a
coalesced one becomes its alias, the same one adds nothing, and any other is an error. -/
def insertField (entity : Entity) (field : Field) : Result Entity :=
  let existing := entity.fields.findIdx? fun known =>
    known.name == field.name && known.isMaterialized
  match existing.bind (fun slot => entity.fields[slot]?.map (slot, ·)), field.coalescedFrom with
  | some (slot, first), some former =>
    let first := { first with
      documentation := addTexts first.documentation field.documentation }
    let pointer := { field with
      name := former
      kind := .coalescedAlias field.name
      coalescedFrom := none
      documentation := [] }
    .ok { entity with fields := entity.fields.set slot first ++ [pointer] }
  | some (_, first), none =>
    if !field.isMaterialized then .ok { entity with fields := entity.fields ++ [field] }
    else if first.kind == field.kind && first.dottedPath == field.dottedPath then .ok entity
    else .error (.duplicateField entity.name field.name)
  | none, _ => .ok { entity with fields := entity.fields ++ [field] }

/-- The name for the other end of a field that is added. -/
def reverseName? (state : State) (path : String) (field : Field) : Option String :=
  if field.isMaterialized then accessorName? state path field else none

/-- Adds a field to the entity of a type path. The rules are those of that entity. -/
def addField (context : Context) (rules : FieldRules) (path : String) (field : Field) :
    Walk Unit := do
  let entity ← entityAt context path
  if field.isMaterialized && rules.dropAfterProcessing.contains field.name then return
  let limit := context.settings.compiler.identifierLimit
  if field.isMaterialized && field.name.length > limit then
    throw (.identifierTooLong (path ++ "." ++ field.dottedPath) field.name limit)
  let relatedName := reverseName? (← get) path field
  let field := { field with kind := setRelatedName relatedName field.kind }
  let entity ← insertField entity field
  modify fun state => { state with entities := state.entities.set path entity }

end EntityGraph.Compile
