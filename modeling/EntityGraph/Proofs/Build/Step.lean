import EntityGraph.Compile.Graph
import EntityGraph.Proofs.Build.Insertion
import EntityGraph.Proofs.Scalar.Recall
import EntityGraph.Proofs.Table
import Mathlib.Logic.Relation

/-!
# The steps of a build

Whatever a build does, it does by a few kinds of step, each of which changes one entity or none. A
step says all that is known when it happens: which entity is under construction, by which rules, and
where an added field comes from. What holds of every built entity is proved for each kind of step
once.
-/
open Relation (ReflTransGen)

namespace EntityGraph.Compile

/-- How far a build is. -/
structure Progress where
  /-- The type paths whose entities are being built or extended, the innermost first. -/
  pending : List String
  state : State

/-- A type path has been opened, and its entity has the name. -/
def State.NameAt (state : State) (path name : String) : Prop :=
  ∃ entity, state.entities.get? path = some entity ∧ entity.name = name

/-- A place belongs to an entity under construction, and has its rules. -/
structure Scope.Fits (context : Context) (progress : Progress) (scope : Scope) : Prop where
  pending : scope.typePath ∈ progress.pending
  named : progress.state.NameAt scope.typePath scope.entity
  rules : context.book.forType scope.entity scope.typePath = .ok scope.rules

/-- Another place of the same entity fits as well. -/
theorem Scope.Fits.moved {context : Context} {progress : Progress} {scope other : Scope}
    (fits : scope.Fits context progress)
    (same : (other.typePath, other.entity, other.rules) =
      (scope.typePath, scope.entity, scope.rules) := by rfl) : other.Fits context progress := by
  obtain ⟨path, entity, rules⟩ : other.typePath = scope.typePath ∧ other.entity = scope.entity ∧
      other.rules = scope.rules := by simpa using same
  exact ⟨path ▸ fits.pending, path ▸ entity ▸ fits.named, path ▸ entity ▸ rules ▸ fits.rules⟩

/-! ## Where fields come from -/

/-- The field by which owned rows refer back. -/
def backReference (owner relation name : String) (oneToOne : Bool) : Field :=
  .ofKind name "" (.toOne owner oneToOne .cascade (some relation))

/-- The rules of a type path leave a field of the name out. -/
def LeftOut (book : RuleBook) (path entity name : String) : Prop :=
  ∃ rules, book.forType entity path = .ok rules ∧ rules.dropAfterProcessing.contains name = true

/-- The entity refers back to the owner of a relation. -/
def RefersBack (entity : Entity) (owner relation name : String) (oneToOne : Bool) : Prop :=
  ∃ field ∈ entity.fields, field.name = name ∧ field.dottedPath = "" ∧
    field.kind = .toOne owner oneToOne .cascade (some relation)

/-- The entity of a type path is the other end of a relation, unless its rules leave that out. -/
def State.IsOtherEnd (book : RuleBook) (state : State) (path target owner relation name : String)
    (oneToOne : Bool) : Prop :=
  ∃ entity, state.entities.get? path = some entity ∧ entity.name = target ∧
    (LeftOut book path target name ∨ RefersBack entity owner relation name oneToOne)

/-- A scalar, a list of scalars, or a reference to an entity that has been opened. A one-to-one
reference owns its row. -/
def State.IsValue (state : State) : FieldKind → Prop
  | .scalar _ | .collection _ => True
  | .toOne target oneToOne onDelete none =>
    (∃ path, state.NameAt path target) ∧ (oneToOne = true → onDelete = .cascade)
  | _ => False

/-- A field before its options are applied. -/
inductive Draft (context : Context) (state : State) (scope : Scope) : Field → Prop
  | value {site : Site} {kind : FieldKind} {most : Schema.MaxOccurs} (value : state.IsValue kind)
      (consistent : kind.isCollection = !most.isOne) :
      Draft context state scope { site.field scope kind with maxOccurs := most }
  | reverseOneToMany {site : Site} {path target name : String}
      (back : state.IsOtherEnd context.book path target scope.entity site.name name false) :
      Draft context state scope
        { site.field scope (.reverseOneToMany target name) with maxOccurs := .unbounded }
  | reverseOneToOne {site : Site} {path target name : String}
      (back : state.IsOtherEnd context.book path target scope.entity site.name name true) :
      Draft context state scope (site.field scope (.reverseOneToOne target name))
  | manyToMany {site : Site} {path target : String} (built : state.NameAt path target) :
      Draft context state scope
        { site.field scope (.manyToMany target none) with maxOccurs := .unbounded }

/-- The kind that an extra field asks for. -/
inductive ExtraKind (state : State) (extra : ExtraField) : FieldKind → Prop
  | scalar {repr : ScalarRepr} (plain : extra.target = none) : ExtraKind state extra (.scalar repr)
  | toOne {target entity : String} (given : extra.target = some target)
      (single : extra.manyToMany = false)
      (known : entity = target ∨ ∃ path, state.NameAt path entity) :
      ExtraKind state extra (.toOne entity false .protect none)
  | manyToMany {target entity : String} (given : extra.target = some target)
      (many : extra.manyToMany = true)
      (known : entity = target ∨ ∃ path, state.NameAt path entity) :
      ExtraKind state extra (.manyToMany entity none)

/-- What a field that is added to the entity of a place comes from. -/
inductive Origin (context : Context) (state : State) (scope : Scope) : Field → Prop
  | dropped {name dottedPath : String} :
      Origin context state scope (.ofKind name dottedPath .dropped)
  | parentAlias {name dottedPath : String} :
      Origin context state scope (.ofKind name dottedPath .parentAlias)
  | content {repr : ScalarRepr} :
      Origin context state scope (.ofKind "value" "value" (.scalar repr))
  | finished {draft field : Field} {text primitive : Option String}
      (drafted : Draft context state scope draft)
      (finished : finishField context scope text primitive draft = .ok field) :
      Origin context state scope field
  | back {path owner relation name : String} {oneToOne : Bool} (built : state.NameAt path owner) :
      Origin context state scope (backReference owner relation name oneToOne)
  | bag {entries : Bag} {documentation : List String} :
      Origin context state scope
        { Field.ofKind context.settings.compiler.bagFieldName "" (.jsonBag entries) with
          nullable := true, documentation }
  | extra {extra : ExtraField} {kind : FieldKind}
      (configured : extra ∈ scope.rules.options.addFields) (asked : ExtraKind state extra kind) :
      Origin context state scope
        { Field.ofKind extra.name "" kind with
          nullable := extra.nullable
          documentation := extra.documentation.toList }

/-! ## Steps -/

/-- One step of a build. -/
inductive Step (context : Context) : Progress → Progress → Prop
  | noticed {pending : List String} {state : State} {notice : Diagnostic}
      (code : notice.code ≠ .unresolvedDependency) :
      Step context ⟨pending, state⟩ ⟨pending, state.addNotices [notice]⟩
  | named {pending : List String} {state : State} (path : String) :
      Step context ⟨pending, state⟩
        ⟨pending, { state.addNotices (state.resolver.resolve path).2.1 with
          resolver := (state.resolver.resolve path).2.2 }⟩
  | chosen {pending : List String} {state : State} :
      Step context ⟨pending, state⟩ ⟨pending, { state with choices := state.choices + 1 }⟩
  | derived {pending : List String} {state : State} {scalars : Scalar.State}
      (continues : state.scalars.Continues scalars) :
      Step context ⟨pending, state⟩ ⟨pending, { state with scalars }⟩
  | bagged {pending : List String} {state : State} (path : String) (entries : Bag) :
      Step context ⟨pending, state⟩
        ⟨pending, { state with
          bags := state.bags.set path (((state.bags.get? path).getD []).override entries) }⟩
  | unbagged {pending : List String} {state : State} (path : String) :
      Step context ⟨pending, state⟩ ⟨pending, { state with bags := state.bags.erase path }⟩
  /-- An entity without fields is put in place. -/
  | opened {pending : List String} {state : State} {path : String}
      (fresh : state.isBuilt path = false)
      (mergeable : (state.entityNamed? (nameOf state.resolver.rules path).entity).isSome = true →
        (nameOf state.resolver.rules path).merge = true) :
      Step context ⟨pending, state⟩
        ⟨path :: pending, { state with
          entities := state.entities.set path
            (.ofTypePath (nameOf state.resolver.rules path).entity path) }⟩
  | described {pending : List String} {state : State} {path : String} {entity : Entity}
      (building : path ∈ pending) (found : state.entities.get? path = some entity)
      (type : Schema.ComplexType) :
      Step context ⟨pending, state⟩
        ⟨pending, { state with entities := state.entities.set path (describe type entity) }⟩
  | inherited {pending : List String} {state : State} {path parentPath parent : String}
      {entity : Entity} (building : path ∈ pending)
      (found : state.entities.get? path = some entity) (built : state.NameAt parentPath parent) :
      Step context ⟨pending, state⟩
        ⟨pending, { state with
          entities := state.entities.set path { entity with parent := some parent } }⟩
  | added {pending : List String} {state : State} {scope : Scope} {entity after : Entity}
      {field : Field} (fits : scope.Fits context ⟨pending, state⟩)
      (found : state.entities.get? scope.typePath = some entity)
      (origin : Origin context state scope field)
      (wanted : field.isMaterialized = true →
        scope.rules.dropAfterProcessing.contains field.name = false)
      (short : field.isMaterialized = true →
        field.name.length ≤ context.settings.compiler.identifierLimit)
      (inserted : insertField entity { field with
        kind := setRelatedName (reverseName? state scope.typePath field) field.kind } = .ok after) :
      Step context ⟨pending, state⟩
        ⟨pending, { state with entities := state.entities.set scope.typePath after }⟩
  | completed {pending : List String} {state : State} {path : String} {entity : Entity}
      (found : state.entities.get? path = some entity) (rules : FieldRules)
      (inherited : Option String) :
      Step context ⟨path :: pending, state⟩
        ⟨pending, { state with
          entities := state.entities.set path (complete rules inherited entity) }⟩
  | reopened {pending : List String} {state : State} {path : String}
      (built : state.isBuilt path = true) :
      Step context ⟨pending, state⟩ ⟨path :: pending, state⟩
  | closed {pending : List String} {state : State} {path : String} {entity : Entity}
      (found : state.entities.get? path = some entity) :
      Step context ⟨path :: pending, state⟩
        ⟨pending, { state with entities := state.entities.set path entity.close }⟩

/-- Any number of steps. -/
abbrev Steps (context : Context) : Progress → Progress → Prop := ReflTransGen (Step context)

/-! ## What a step keeps -/

/-- The later form of an entity: it has its name and its source, and all of its fields. -/
structure Extends (entity after : Entity) : Prop where
  name : after.name = entity.name
  source : after.sourceTypes = entity.sourceTypes
  fields : ∀ field ∈ entity.fields, ∃ kept ∈ after.fields, kept.bare = field.bare

theorem Extends.of_same_fields {entity after : Entity} (name : after.name = entity.name)
    (source : after.sourceTypes = entity.sourceTypes) (fields : after.fields = entity.fields) :
    Extends entity after :=
  ⟨name, source, fun field member => ⟨field, fields ▸ member, rfl⟩⟩

theorem Extends.refl (entity : Entity) : Extends entity entity := .of_same_fields rfl rfl rfl

theorem Extends.trans {first second third : Entity} (left : Extends first second)
    (right : Extends second third) : Extends first third := by
  refine ⟨right.name.trans left.name, right.source.trans left.source, fun field member => ?_⟩
  obtain ⟨middle, middleMember, middleBare⟩ := left.fields field member
  obtain ⟨last, lastMember, lastBare⟩ := right.fields middle middleMember
  exact ⟨last, lastMember, lastBare.trans middleBare⟩

theorem Insertion.extends {entity after : Entity} {field : Field}
    (insertion : Insertion entity field after) : Extends entity after := by
  have only := insertion.eq_with_fields
  exact ⟨by rw [only], by rw [only], fun _ member => insertion.placed.keeps member⟩

/-- What a step does to the entities: nothing, or it puts an empty one at a new path, or the later
form of one in its place. -/
inductive Touches (rules : List NameRule) (before after : Table Entity) : Prop
  | nothing (same : after = before)
  | new {path : String} (fresh : path ∉ before.names)
      (changed : after = before.set path (.ofTypePath (nameOf rules path).entity path))
  | one {path : String} {entity later : Entity} (found : before.get? path = some entity)
      (changed : after = before.set path later) (extends_ : Extends entity later)

theorem Step.touches {context : Context} {before after : Progress}
    (step : Step context before after) :
    Touches before.state.resolver.rules before.state.entities after.state.entities := by
  cases step with
  | noticed | named | chosen | derived | bagged | unbagged | reopened => exact .nothing rfl
  | opened fresh _ =>
    refine .new ?_ rfl
    rw [← Table.has_iff_mem_names]
    exact Bool.eq_false_iff.mp fresh
  | described _ found _ => exact .one found rfl (.of_same_fields rfl rfl rfl)
  | inherited _ found _ => exact .one found rfl (.of_same_fields rfl rfl rfl)
  | added _ found _ _ _ inserted => exact .one found rfl (insertField_insertion inserted).extends
  | completed found _ _ => exact .one found rfl (.of_same_fields rfl rfl rfl)
  | closed found => exact .one found rfl (.of_same_fields rfl rfl rfl)

theorem Touches.keeps {rules : List NameRule} {before after : Table Entity}
    (touches : Touches rules before after) {path : String} {entity : Entity}
    (found : before.get? path = some entity) :
    ∃ later, after.get? path = some later ∧ Extends entity later := by
  cases touches with
  | nothing same => exact ⟨entity, same ▸ found, .refl entity⟩
  | @new newPath fresh changed =>
    have different : path ≠ newPath := by
      rintro rfl
      exact fresh (Table.mem_names_of_get? found)
    exact ⟨entity, by rw [changed, Table.get?_set_of_ne _ _ different, found], .refl entity⟩
  | @one other old later foundOld changed extends_ =>
    by_cases same : path = other
    · subst same
      obtain rfl : entity = old := Option.some.inj (found.symm.trans foundOld)
      exact ⟨later, by rw [changed, Table.get?_set_self], extends_⟩
    · exact ⟨entity, by rw [changed, Table.get?_set_of_ne _ _ same, found], .refl entity⟩

variable {context : Context} {before after : Progress}

/-- Every entity that is there stays there, with its name and its fields. -/
theorem Steps.keeps (steps : Steps context before after) {path : String} {entity : Entity}
    (found : before.state.entities.get? path = some entity) :
    ∃ later, after.state.entities.get? path = some later ∧ Extends entity later := by
  induction steps with
  | refl => exact ⟨entity, found, .refl entity⟩
  | tail _ step ih =>
    obtain ⟨middle, foundMiddle, toMiddle⟩ := ih
    obtain ⟨later, foundLater, toLater⟩ := step.touches.keeps foundMiddle
    exact ⟨later, foundLater, toMiddle.trans toLater⟩

theorem Steps.nameAt (steps : Steps context before after) {path name : String}
    (named : before.state.NameAt path name) : after.state.NameAt path name := by
  obtain ⟨entity, found, rfl⟩ := named
  obtain ⟨later, foundLater, toLater⟩ := steps.keeps found
  exact ⟨later, foundLater, toLater.name⟩

theorem Steps.fits {pending : List String} {state final : State} {scope : Scope}
    (steps : Steps context ⟨pending, state⟩ ⟨pending, final⟩)
    (fits : scope.Fits context ⟨pending, state⟩) : scope.Fits context ⟨pending, final⟩ :=
  ⟨fits.pending, steps.nameAt fits.named, fits.rules⟩

theorem RefersBack.mono {entity later : Entity} (extends_ : Extends entity later)
    {owner relation name : String} {oneToOne : Bool}
    (back : RefersBack entity owner relation name oneToOne) :
    RefersBack later owner relation name oneToOne := by
  obtain ⟨field, member, fieldName, path, kind⟩ := back
  obtain ⟨kept, keptMember, bare⟩ := extends_.fields field member
  obtain ⟨keptName, keptPath, keptKind, _⟩ := Field.bare_eq_iff.mp bare
  exact ⟨kept, keptMember, keptName.trans fieldName, keptPath.trans path, keptKind.trans kind⟩

theorem Steps.isOtherEnd (steps : Steps context before after)
    {path target owner relation name : String} {oneToOne : Bool}
    (other : before.state.IsOtherEnd context.book path target owner relation name oneToOne) :
    after.state.IsOtherEnd context.book path target owner relation name oneToOne := by
  obtain ⟨entity, found, named, leftOut | back⟩ := other
  all_goals obtain ⟨later, foundLater, toLater⟩ := steps.keeps found
  · exact ⟨later, foundLater, toLater.name.trans named, .inl leftOut⟩
  · exact ⟨later, foundLater, toLater.name.trans named, .inr (back.mono toLater)⟩

end EntityGraph.Compile
