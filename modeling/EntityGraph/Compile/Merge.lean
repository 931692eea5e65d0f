import EntityGraph.Compile.Bag
import EntityGraph.Compile.Rules
import EntityGraph.Entity.Codec
import EntityGraph.Json.Printer
import EntityGraph.Text.LineDiff

/-!
# Merging

Entities of one name that come from several types become one. Two fields are the same if they have
the same name and path; a field that some of the types lack, or have as nullable, is nullable in the
result. Fields that are the same but have different signatures cannot be merged, unless a rule
tolerates it. Entities without parent are merged first and the others after their parents.
-/
namespace EntityGraph.Compile

/-! ## Signatures -/

/-- The members of a serialized field in which merged fields may differ. -/
def ignoredMembers : List String :=
  ["documentation", "annotations", "choice_group", "related_name", "coalesced_from"]

/-- The text by which fields are compared. -/
def signature (field : Field) : String :=
  match field.toJson with
  | .obj members => (Json.obj (members.filter (!ignoredMembers.contains ·.1))).sortKeys.pretty
  | other => other.pretty

/-- The type paths of an entity in messages and notes. -/
def sourceLabel (entity : Entity) : String := "; ".intercalate entity.sourceTypes

/-- The type paths of all members. -/
def sourceTypes (members : List Entity) : List String :=
  Text.sorted (members.flatMap (·.sourceTypes))

/-- The rules under which an entity was built. -/
def rulesOf (book : RuleBook) (entity : Entity) : Result FieldRules :=
  book.forType entity.name (entity.sourceTypes.head?.getD "")

def mismatch (entity path firstType secondType first second : String) : Error :=
  .mergeMismatch entity path firstType secondType (Text.LineDiff.render first second)

/-! ## Parents -/

/-- The positions of an entity and its ancestors, the nearest first. `steps` bounds their number. -/
def ancestry (merged : List Entity) (missing : String → Error) :
    Nat → List Nat → String → Result (List Nat)
  | 0, lineage, _ => .ok lineage
  | steps + 1, lineage, name =>
    match merged.findIdx? (·.name == name) with
    | none => .error (missing name)
    | some position =>
      if lineage.contains position then .ok lineage
      else
        match merged[position]?.bind (·.parent) with
        | some parent => ancestry merged missing steps (lineage ++ [position]) parent
        | none => .ok (lineage ++ [position])

def hasIdentity (name dottedPath : String) (field : Field) : Bool :=
  field.name == name && field.dottedPath == dottedPath

/-- The nearest ancestor with a field of the same name and path, and that field's position. -/
def inherited? (merged : List Entity) (lineage : List Nat) (field : Field) :
    Option (Nat × Entity × Nat × Field) :=
  lineage.findSome? fun position => do
    let ancestor ← merged[position]?
    let slot ← ancestor.fields.findIdx? (hasIdentity field.name field.dottedPath)
    let found ← ancestor.fields[slot]?
    return (position, ancestor, slot, found)

/-- A field with the entries of another bag, if both are bags. -/
def joinBags? (field other : Field) : Option Field :=
  match field.kind, other.kind with
  | .jsonBag entries, .jsonBag more =>
    let joined := Bag.merge entries more
    some { field with kind := .jsonBag joined, documentation := [Bag.documentation joined] }
  | _, _ => none

/-- What becomes of a field of an entity that adopts a parent: it stays if no ancestor has it, and
goes if an ancestor has the same. -/
def adoptField (book : RuleBook) (name memberType : String) (lineage : List Nat)
    (state : List Field × List Entity) (field : Field) : Result (List Field × List Entity) := do
  let (kept, merged) := state
  match inherited? merged lineage field with
  | none => return (kept ++ [field], merged)
  | some (position, ancestor, slot, found) =>
    match joinBags? found field with
    | some joined =>
      return (kept, merged.modify position fun entity =>
        { entity with fields := entity.fields.set slot joined })
    | none =>
      if signature found = signature field then return (kept, merged)
      else
        let rules ← rulesOf book ancestor
        if rules.ignoreMergeMismatch.contains field.dottedPath then return (kept, merged)
        else
          throw (mismatch name field.dottedPath (sourceLabel ancestor) memberType (signature found)
            (signature field))

/-- Gives a parent to an entity that has none. -/
def adopt (book : RuleBook) (name parent : String) (lineage : List Nat)
    (state : List Entity × List Entity) (member : Entity) :
    Result (List Entity × List Entity) := do
  let (members, merged) := state
  if member.parent.isSome then return (members ++ [member], merged)
  else
    let (kept, merged) ←
      member.fields.foldlM (adoptField book name (sourceLabel member) lineage) ([], merged)
    return (members ++ [{ member with parent := some parent, fields := kept }], merged)

/-- The common parent of the members. Where some have none and all others the same one, it becomes
the parent of all. The result has the members and the merged entities as they are afterwards. -/
def mergeParents (book : RuleBook) (name : String) (members merged : List Entity) :
    Result (Option String × List Entity × List Entity) := do
  let parents := Text.sortDistinct (members.filterMap (·.parent))
  match parents with
  | [] => return (none, members, merged)
  | [parent] =>
    if members.all (·.parent.isSome) then return (some parent, members, merged)
    else
      let missing (ancestor : String) : Error := .missingParent name ancestor (sourceTypes members)
      let lineage ← ancestry merged missing (merged.length + 1) [] parent
      let (members, merged) ← members.foldlM (adopt book name parent lineage) ([], merged)
      return (some parent, members, merged)
  | _ => throw (.differentParents parents (sourceTypes members))

/-! ## Fields -/

/-- An array of the same scalar wins over a single value. -/
def widen (first other : Field) : Field × Field :=
  match first.kind, other.kind with
  | .scalar single, .collection array =>
    if single == array then
      ({ first with kind := other.kind, maxOccurs := other.maxOccurs }, other)
    else (first, other)
  | .collection array, .scalar single =>
    if single == array then
      (first, { other with kind := first.kind, maxOccurs := first.maxOccurs })
    else (first, other)
  | _, _ => (first, other)

/-- A plain reference wins over a one-to-one reference to the same target. -/
def relax (first other : Field) : Field × Field :=
  match first.kind, other.kind with
  | .toOne target oneToOne .., .toOne otherTarget otherOneToOne .. =>
    if target = otherTarget ∧ oneToOne ≠ otherOneToOne then
      if oneToOne then ({ first with kind := other.kind }, other)
      else (first, { other with kind := first.kind })
    else (first, other)
  | _, _ => (first, other)

/-- A declared field wins over a dropped one. -/
def restore (first other : Field) (firstType otherType : String) : Field × Field :=
  if first.isDropped && !other.isDropped then
    let restored := other.annotate (.replacesDropped [firstType])
    (restored, { other with notes := restored.notes })
  else if other.isDropped && !first.isDropped then
    let restored := first.annotate (.replacesDropped [otherType])
    (restored, restored)
  else (first, other)

/-- Resolves the differences that merging accepts silently. -/
def unify (first other : Field) (firstType otherType : String) : Field × Field :=
  let (first, other) := widen first other
  let (first, other) := relax first other
  restore first other firstType otherType

/-- Merges the field of one more member into what the earlier ones gave. -/
def mergeNext (book : RuleBook) (entity firstType : String) (merged : Field)
    (next : Entity × Field) : Result Field := do
  let (member, field) := next
  match joinBags? merged field with
  | some joined => return joined
  | none =>
    let (first, other) := unify merged field firstType (sourceLabel member)
    let first := { first with
      documentation := Text.Documentation.squeeze (first.documentation ++ other.documentation) }
    if signature first = signature other then return first
    else
      let rules ← rulesOf book member
      if rules.ignoreMergeMismatch.contains field.dottedPath then
        return first.annotate (.mergeVariant [sourceLabel member, other.kind.describe])
      else
        throw (mismatch entity field.dottedPath firstType (sourceLabel member) (signature first)
          (signature other))

/-- The members that have a field of a name and path, with the field. -/
def holders (members : List Entity) (name dottedPath : String) : List (Entity × Field) :=
  members.filterMap fun member => (member.fieldAt? name dottedPath).map fun field => (member, field)

/-- The note on a field that some of the types lack. -/
def presenceNote (members : List Entity) (holding : List (Entity × Field)) : MergeNote :=
  let having := Text.sortDistinct (holding.flatMap (·.1.sourceTypes))
  if holding.length * 2 > members.length then
    .nullIn (Text.sortDistinct ((members.flatMap (·.sourceTypes)).filter (!having.contains ·)))
  else .onlyIn having

/-- Merges the fields of one name and path. -/
def mergeField (book : RuleBook) (entity : String) (members : List Entity)
    (identity : String × String) : Result Field := do
  let holding := holders members identity.1 identity.2
  let everywhere := holding.length = members.length
  let relaxed := !everywhere || holding.any (·.2.nullable)
  if relaxed && holding.any (·.2.primaryKey) then
    throw (.nullablePrimaryKey entity identity.1)
  let fields := holding.map fun (member, field) =>
    (member, if relaxed then { field with nullable := true } else field)
  match fields with
  | [] => throw (.duplicateField entity identity.1)
  | (member, first) :: others =>
    let merged ← others.foldlM (mergeNext book entity (sourceLabel member)) first
    if everywhere || !merged.isMaterialized then return merged
    else return merged.annotate (presenceNote members holding)

/-- The path as a name. -/
def pathName (dottedPath : String) : String :=
  String.ofList (dottedPath.toList.map fun c => if c = '.' ∨ c = '@' then '_' else c)

/-- Adds a field behind others. A second materialized field of a name becomes an alias of the first
if either of them was made equal to it. -/
def addMerged (entity : String) (fields : List Field) (field : Field) : Result (List Field) :=
  let existing := fields.findIdx? fun known => known.isMaterialized && known.name == field.name
  match existing.bind fun slot => fields[slot]?.map (slot, ·) with
  | some (slot, first) =>
    if !field.isMaterialized then .ok (fields ++ [field])
    else if field.coalescedFrom.isNone && first.coalescedFrom.isNone then
      .error (.duplicateField entity field.name)
    else
      let first := { first with
        documentation := Text.Documentation.squeeze (first.documentation ++ field.documentation) }
      let pointer := { field with
        name := field.coalescedFrom.getD (pathName field.dottedPath)
        kind := .coalescedAlias field.name
        documentation := []
        coalescedFrom := none }
      .ok (fields.set slot first ++ [pointer])
  | none => .ok (fields ++ [field])

/-- The first materialized field of each name, and aliases of it in place of the later ones. -/
def coalesceAliases (entity : String) (fields : List Field) : Result (List Field) :=
  fields.foldlM (addMerged entity) []

/-! ## Entities -/

/-- The names and paths of all fields, each once, in the order in which they first appear. -/
def identities (members : List Entity) : List (String × String) :=
  (members.flatMap fun member =>
    member.fields.map fun field => (field.name, field.dottedPath)).eraseDups

/-- Merges the members of one name. The second result is the merged entities before it, in which
bags may have grown. -/
def mergeGroup (book : RuleBook) (first : Entity) (others merged : List Entity) :
    Result (Entity × List Entity) := do
  let name := first.name
  let (parent, members, merged) ← mergeParents book name (first :: others) merged
  let fields ← (identities members).mapM (mergeField book name members)
  let fields ← coalesceAliases name fields
  let entity : Entity := {
    name
    sourceTypes := sourceTypes members
    parent
    fields
    isAbstract := members.all (·.isAbstract)
    documentation := Text.sortDistinct (members.flatMap (·.documentation))
    dependencies := []
    numberField := first.numberField
    matchFields := first.matchFields
    imports := ⟨false, false⟩ }
  return (entity.close, merged)

/-- Adds the entity of a group to the merged ones. -/
def mergeInto (book : RuleBook) (merged : List Entity) : List Entity → Result (List Entity)
  | [] => .ok merged
  | [entity] => .ok (merged ++ [entity])
  | first :: others => do
    let (entity, merged) ← mergeGroup book first others merged
    return merged ++ [entity]

/-- The entities of each name, in the order in which the names first appear. -/
def groupByName (entities : List Entity) : List (List Entity) :=
  (entities.map (·.name)).eraseDups.map fun name => entities.filter (·.name == name)

/-- The parents of a group. -/
def parentsOf (group : List Entity) : List String := group.filterMap (·.parent)

/-- A group whose parent has not been merged. -/
def missingParent (group merged : List Entity) : Error :=
  let unmerged := (parentsOf group).find? fun parent => !merged.any (·.name == parent)
  .missingParent ((group.head?.map (·.name)).getD "") (unmerged.getD "") (sourceTypes group)

/-- Merges groups after their parents, round by round. A parent outside of `names` is not waited
for. Every round merges a group, so the number of groups bounds the rounds. -/
def mergeRounds (book : RuleBook) (names : List String) :
    Nat → List (List Entity) → List Entity → Result (List Entity)
  | _, [], merged => .ok merged
  | 0, group :: _, merged => .error (missingParent group merged)
  | rounds + 1, pending@(group :: _), merged => do
    let isReady (group : List Entity) : Bool := (parentsOf group).all fun parent =>
      merged.any (·.name == parent) || !names.contains parent
    let ready := pending.filter isReady
    if ready.isEmpty then throw (missingParent group merged)
    else
      mergeRounds book names rounds (pending.filter (!isReady ·))
        (← ready.foldlM (mergeInto book) merged)

/-- Merges the entities that share a name. -/
def mergeEntities (book : RuleBook) (entities : List Entity) : Result (List Entity) := do
  let groups := groupByName entities
  let independent := groups.filter fun group => (parentsOf group).isEmpty
  let pending := groups.filter fun group => !(parentsOf group).isEmpty
  let merged ← independent.foldlM (mergeInto book) []
  mergeRounds book (entities.map (·.name)) pending.length pending merged

end EntityGraph.Compile
