import EntityGraph.Proofs.Build.Entities

/-!
# Laws of a build

A law says what no walk may break: a property of states, and for each small change that a walk can
make the reason why the property survives it. It also says which entities a walk may ask for and
which scalars it may find. What follows from the definitions of the walks is then proved once, for
every law and for two walks side by side that differ only in how they leave the type at hand.
-/
namespace EntityGraph

namespace Compile

open Schema (ComplexType Element Extension Index Member Particle)

/-! ## Walks side by side -/

/-- In every state with the property, another walk does the same as this one, unless this one fails
with an error that is excused; and where it gives a result, the property still holds and the result
is as stated. -/
def Follows {α : Type} (Holds : State → Prop) (Excused : Error → Prop) (walk other : Walk α)
    (ensures : α → Prop) : Prop :=
  ∀ state, Holds state →
    (other.run state = walk.run state ∨
      ∃ failure, walk.run state = .error failure ∧ Excused failure) ∧
    ∀ result final, walk.run state = .ok (result, final) → Holds final ∧ ensures result

namespace Follows

variable {α β : Type} {Holds : State → Prop} {Excused : Error → Prop}

/-- A walk follows itself if it keeps the property. -/
theorem of_run {walk : Walk α} {ensures : α → Prop}
    (keeps : ∀ state result final, Holds state → walk.run state = .ok (result, final) →
      Holds final ∧ ensures result) : Follows Holds Excused walk walk ensures :=
  fun state holds => ⟨.inl rfl, fun result final ran => keeps state result final holds ran⟩

/-- Any walk follows one that fails with an error that is excused. -/
theorem of_excused {failure : Error} {other : Walk α} {ensures : α → Prop}
    (excused : Excused failure) : Follows Holds Excused (throw failure) other ensures :=
  fun _ _ => ⟨.inr ⟨failure, rfl, excused⟩, fun _ _ ran => by cases ran⟩

theorem returns {value : α} {ensures : α → Prop} (holds : ensures value) :
    Follows Holds Excused (pure value) (pure value) ensures := by
  refine .of_run fun state result final kept ran => ?_
  cases ran
  exact ⟨kept, holds⟩

theorem fails {failure : Error} {ensures : α → Prop} :
    Follows Holds Excused (throw failure) (throw failure) ensures := by
  refine .of_run fun state result final _ ran => ?_
  cases ran

theorem bind {first firstOther : Walk α} {next nextOther : α → Walk β} {ensures : α → Prop}
    {finally_ : β → Prop} (follows : Follows Holds Excused first firstOther ensures)
    (continues : ∀ value, ensures value →
      Follows Holds Excused (next value) (nextOther value) finally_) :
    Follows Holds Excused (first >>= next) (firstOther >>= nextOther) finally_ := by
  intro state holds
  obtain ⟨same | ⟨failure, ran, excused⟩, kept⟩ := follows state holds
  · rw [StateT.run_bind, StateT.run_bind, same]
    cases ran : first.run state with
    | error failure => exact ⟨.inl rfl, fun result final ranNext => by cases ranNext⟩
    | ok reached =>
      obtain ⟨reachedHolds, ensured⟩ := kept reached.1 reached.2 ran
      exact continues reached.1 ensured reached.2 reachedHolds
  · have failed : (first >>= next).run state = .error failure := by
      rw [StateT.run_bind, ran]
      rfl
    exact ⟨.inr ⟨failure, failed, excused⟩, fun result final ranNext => by
      cases failed.symm.trans ranNext⟩

theorem weaken {walk other : Walk α} {ensures weaker : α → Prop}
    (follows : Follows Holds Excused walk other ensures)
    (implies : ∀ value, ensures value → weaker value) :
    Follows Holds Excused walk other weaker := by
  intro state holds
  obtain ⟨same, kept⟩ := follows state holds
  refine ⟨same, fun result final ran => ?_⟩
  obtain ⟨finalHolds, ensured⟩ := kept result final ran
  exact ⟨finalHolds, implies result ensured⟩

/-- Reading the state. -/
theorem reads {next nextOther : State → Walk β} {ensures : β → Prop}
    (continues : ∀ state, Holds state →
      Follows Holds Excused (next state) (nextOther state) ensures) :
    Follows Holds Excused (get >>= next) (get >>= nextOther) ensures :=
  fun state holds => continues state holds state holds

/-- A computation that does not look at the state. -/
theorem lifts (computation : Result α) :
    Follows Holds Excused (liftM computation : Walk α) (liftM computation)
      fun value => computation = .ok value := by
  refine .of_run fun state result final holds ran => ?_
  cases computation with
  | error failure => cases ran
  | ok value =>
    cases ran
    exact ⟨holds, rfl⟩

theorem changes {change : State → State} (keeps : ∀ state, Holds state → Holds (change state)) :
    Follows Holds Excused (modify change) (modify change) fun _ => True := by
  refine .of_run fun state result final holds ran => ?_
  cases ran
  exact ⟨keeps state holds, trivial⟩

/-- Doing the same for each item. -/
theorem repeats {items : List α} {walk other : α → Walk Unit}
    (each : ∀ item ∈ items, Follows Holds Excused (walk item) (other item) fun _ => True) :
    Follows Holds Excused (items.forM walk) (items.forM other) fun _ => True := by
  induction items with
  | nil => exact .returns trivial
  | cons item rest ih =>
    change Follows Holds Excused (walk item >>= fun _ => rest.forM walk)
      (other item >>= fun _ => rest.forM other) _
    exact (each item List.mem_cons_self).bind fun _ _ =>
      ih fun further member => each further (List.mem_cons_of_mem _ member)

end Follows

/-! ## What a walk may meet -/

/-- Types and members of a schema, closed under everything that leads from one to another. -/
structure Vocabulary (index : Index) where
  type : ComplexType → Prop
  member : Member → Prop
  named : ∀ {name found}, index.complexType? name = some found → type found
  inline : ∀ {declaration inner}, member (.element declaration) →
    declaration.complexType = some inner → type inner
  lineage : ∀ {derived base}, type derived → base ∈ index.lineage derived → type base
  element : ∀ {given content declaration}, type given → content ∈ given.contents →
    declaration ∈ content.elements → member (.element declaration)
  attrib : ∀ {given declaration}, type given → .single declaration ∈ given.attributeItems →
    member (.attrib declaration)

/-- Everything. -/
def Vocabulary.all (index : Index) : Vocabulary index where
  type _ := True
  member _ := True
  named _ := trivial
  inline _ _ := trivial
  lineage _ _ := trivial
  element _ _ _ := trivial
  attrib _ _ := trivial

/-- The types that a schema has, and those that given types lead to. -/
inductive Reached (index : Index) (start : ComplexType → Prop) : ComplexType → Prop
  | start {type : ComplexType} (given : start type) : Reached index start type
  | named {name : String} {type : ComplexType} (found : index.complexType? name = some type) :
      Reached index start type
  | inline {outer type : ComplexType} {content : Particle} {declaration : Element}
      (within : Reached index start outer) (has : content ∈ outer.contents)
      (inside : declaration ∈ content.elements) (own : declaration.complexType = some type) :
      Reached index start type
  | lineage {derived base : ComplexType} (within : Reached index start derived)
      (member : base ∈ index.lineage derived) : Reached index start base

/-- The members of such types. -/
inductive ReachedMember (index : Index) (start : ComplexType → Prop) : Member → Prop
  | element {type : ComplexType} {content : Particle} {declaration : Element}
      (within : Reached index start type) (has : content ∈ type.contents)
      (inside : declaration ∈ content.elements) : ReachedMember index start (.element declaration)
  | attrib {type : ComplexType} {declaration : Schema.Attribute}
      (within : Reached index start type) (has : .single declaration ∈ type.attributeItems) :
      ReachedMember index start (.attrib declaration)

/-- What a build of given types may meet at most. -/
def Vocabulary.reached (index : Index) (start : ComplexType → Prop) : Vocabulary index where
  type := Reached index start
  member := ReachedMember index start
  named := .named
  inline met own := by
    cases met with
    | element within has inside => exact .inline within has inside own
  lineage := .lineage
  element := .element
  attrib := .attrib

theorem Vocabulary.elementType {index : Index} (words : Vocabulary index) {declaration : Element}
    {type : ComplexType} (met : words.member (.element declaration))
    (typed : index.elementComplexType declaration = .ok (some type)) : words.type type := by
  unfold Index.elementComplexType at typed
  -- A declared type is a type of the index; an inline one belongs to the element.
  split at typed
  · split at typed
    · cases typed
    · split at typed
      next found =>
        cases typed
        exact words.named found
      next =>
        split at typed
        · cases typed
        · cases typed
  · exact words.inline met (Except.ok.inj typed)

/-- The ways in which a walk at a place asks for the entity of a type path, besides extra fields. -/
inductive Request {index : Index} (words : Vocabulary index) (scope : Scope) :
    String → Option ComplexType → Prop
  /-- The type of an element, under its own name. -/
  | declared {declaration : Element} {type : ComplexType} {name : String}
      (met : words.member (.element declaration))
      (typed : index.elementComplexType declaration = .ok (some type))
      (own : type.name = some name) : Request words scope name (some type)
  /-- The type of an element, under a name that the place gives to it. -/
  | placed {declaration : Element} {type : ComplexType} (name : String)
      (met : words.member (.element declaration))
      (typed : index.elementComplexType declaration = .ok (some type)) :
      Request words scope (scope.memberPath name) (some type)
  /-- The type that a member names. -/
  | named {member : Member} {name : String} {type : ComplexType} (met : words.member member)
      (names : (declaredTypes member).name = some name)
      (found : index.complexType? name = some type) : Request words scope name (some type)
  /-- The type that stands for the simple content of another one. -/
  | content {type : ComplexType} {inner : Schema.SimpleContent} {found : ComplexType}
      (known : words.type type) (has : type.simpleContent = some inner)
      (isType : index.complexType? inner.base = some found) :
      Request words scope inner.base (some found)
  /-- The base of an extension. -/
  | base {type : ComplexType} {extension : Extension} (known : words.type type)
      (has : type.extension = some extension) : Request words scope extension.base none
  /-- The type that the element names by which the rules select the parent. -/
  | selected {declaration : Element} {name : String} (met : words.member (.element declaration))
      (names : Index.effectiveTypeName declaration = some name) : Request words scope name none
  /-- A target that the rules name. -/
  | configured {path : String} (target : path ∈ scope.rules.options.targets) :
      Request words scope path none

/-- A type that comes with a request is one that a walk may meet. -/
theorem Request.known {index : Index} {words : Vocabulary index} {scope : Scope} {path : String}
    {type : Option ComplexType} (request : Request words scope path type) :
    ∀ given, type = some given → words.type given := by
  intro given same
  cases request with
  | declared met typed own => exact Option.some.inj same ▸ words.elementType met typed
  | placed _ met typed => exact Option.some.inj same ▸ words.elementType met typed
  | named _ _ found => exact Option.some.inj same ▸ words.named found
  | content _ _ isType => exact Option.some.inj same ▸ words.named isType
  | base => cases same
  | selected => cases same
  | configured => cases same

/-- The ways in which a scalar is derived, with the primitive type as whose value a default is
read. -/
inductive Derives (context : Context) :
    Option String → (Scalar.State → Scalar.Derivation) → Prop
  | named (name : String) :
      Derives context (primitiveOf? context.index name)
        (Scalar.named ⟨context.index, context.settings⟩ name)
  | inline (type : Schema.SimpleType) :
      Derives context (context.index.primitiveBase type.base).toOption
        (Scalar.inline ⟨context.index, context.settings⟩ type)
  | untyped (member : Member) :
      Derives context none
        (Scalar.named ⟨context.index, context.settings⟩ (declaredTypes member).fallback)

/-- The name of a member inside its type, which the rules may have changed. -/
def FieldRules.localName (rules : FieldRules) (member : Member) : String :=
  (rules.rename.renamed? member.localName).getD member.localName

/-- The mark of a member by which the rules select the parent. -/
def Scope.mark (scope : Scope) (member : Member) : Field :=
  .ofKind (scope.fieldName (scope.rules.localName member))
    (member.dottedPath scope.ancestors (scope.rules.localName member)) .parentAlias

/-- What a walk at a place adds to the entity. -/
inductive Given (context : Context) (words : Vocabulary context.index)
    (Found : Option String → ScalarRepr → Prop) (scope : Scope) : Field → Prop
  | dropped {name dottedPath : String} :
      Given context words Found scope (.ofKind name dottedPath .dropped)
  | parentAlias {member : Member} (met : words.member member)
      (selected : scope.rules.options.parentField = some (scope.mark member).name) :
      Given context words Found scope (scope.mark member)
  | content {primitive : Option String} {repr : ScalarRepr} (found : Found primitive repr) :
      Given context words Found scope (.ofKind "value" "value"
        (.scalar (Scalar.finalize context.settings.compiler.textThreshold repr)))
  | value {draft field : Field} {text primitive : Option String} {repr : ScalarRepr}
      (kind : draft.kind = .scalar repr ∨ draft.kind = .collection repr)
      (found : Found primitive repr)
      (finished : finishField context scope text primitive draft = .ok field) :
      Given context words Found scope field
  | relation {draft field : Field} {text primitive : Option String}
      (materialized : draft.kind.isMaterialized = true) (bare : draft.kind.repr? = none)
      (finished : finishField context scope text primitive draft = .ok field) :
      Given context words Found scope field
  | bag {name : String} {entries : Bag} {documentation : List String} :
      Given context words Found scope
        { Field.ofKind name "" (.jsonBag entries) with nullable := true, documentation }
  | extra {extra : ExtraField} {kind : FieldKind} (materialized : kind.isMaterialized = true)
      (plain : ∀ repr, kind.repr? = some repr →
        repr = { ScalarRepr.ofKind (extra.kind.getD .text) with maxLength := extra.maxLength }) :
      Given context words Found scope
        { Field.ofKind extra.name "" kind with
          nullable := extra.nullable
          documentation := extra.documentation.toList }

/-! ## Laws -/

/-- A property of states that all walks keep, at the places where it holds, with what they may ask
for and what they find. -/
structure WalkLaw (context : Context) where
  Holds : State → Prop
  At : Scope → Prop
  words : Vocabulary context.index
  Asks : String → Option ComplexType → Prop
  Found : Option String → ScalarRepr → Prop
  /-- The errors after which the other one of two walks may go on. -/
  Excused : Error → Prop := fun _ => False
  /-- Another place of the same entity. -/
  moved : ∀ {scope other : Scope}, At scope →
    (other.typePath, other.entity, other.rules) = (scope.typePath, scope.entity, scope.rules) →
      At other
  asks : ∀ {scope path type}, At scope → Request words scope path type → Asks path type
  /-- An extra field leads to the entity of a path that has been named. -/
  asks_named : ∀ {state path target}, Holds state → state.resolver.reverse? target = some path →
    (context.index.complexType? path).isSome = true ∨ state.isBuilt path = true → Asks path none
  /-- Notices, choices and bags. A bag only changes at a place of the law. -/
  frame : ∀ {state later : State}, Holds state → later.entities = state.entities →
    later.resolver = state.resolver → later.scalars.known = state.scalars.known →
      (∀ path, later.bags.get? path = state.bags.get? path ∨
        ∃ scope, At scope ∧ scope.typePath = path) → Holds later
  naming : ∀ {state path type}, Holds state → Asks path type →
    Holds { state with resolver := (state.resolver.resolve path).2.2 }
  derives : ∀ {state primitive derive repr scalars}, Holds state →
    Derives context primitive derive → derive state.scalars = (.ok repr, scalars) →
      Holds { state with scalars } ∧ Found primitive repr
  added : ∀ {state scope entity field after relatedName}, Holds state → At scope →
    state.entities.get? scope.typePath = some entity → Given context words Found scope field →
      insertField entity { field with kind := setRelatedName relatedName field.kind } = .ok after →
        Holds { state with entities := state.entities.set scope.typePath after }
  referredBack : ∀ {state path entity owner relation name oneToOne after}, Holds state →
    state.entities.get? path = some entity →
      insertField entity (backReference owner relation name oneToOne) = .ok after →
        Holds { state with entities := state.entities.set path after }
  /-- An entity keeps its name, its source, its parent and its fields. -/
  reshaped : ∀ {state path entity later}, Holds state → state.entities.get? path = some entity →
    (later.name, later.sourceTypes, later.parent, later.fields) =
      (entity.name, entity.sourceTypes, entity.parent, entity.fields) →
        Holds { state with entities := state.entities.set path later }

theorem WalkLaw.atMoved {context : Context} (law : WalkLaw context) {scope other : Scope}
    (place : law.At scope)
    (same : (other.typePath, other.entity, other.rules) =
      (scope.typePath, scope.entity, scope.rules) := by rfl) : law.At other :=
  law.moved place same

/-- Two walks side by side under a law. -/
abbrev WalkLaw.Keeps {context : Context} (law : WalkLaw context) {α : Type} (walk other : Walk α)
    (ensures : α → Prop) : Prop := Follows law.Holds law.Excused walk other ensures

/-- The fields refer back to the owners of relations. -/
def AllBack (fields : List Field) : Prop :=
  ∀ field ∈ fields, ∃ owner relation name oneToOne,
    field = backReference owner relation name oneToOne

theorem allBack_nil : AllBack [] := fun _ member => by cases member

/-- Two ways to leave the type at hand, side by side under a law. -/
structure OnwardKeeps {context : Context} (law : WalkLaw context) (onward other : Onward) :
    Prop where
  build : ∀ path type fields, law.Asks path type → AllBack fields →
    law.Keeps (onward.build path type fields) (other.build path type fields) fun _ => True
  members : ∀ scope type, law.At scope → law.words.type type →
    law.Keeps (onward.members scope type) (other.members scope type) fun _ => True
  extension : ∀ scope type extension, law.At scope → law.words.type type →
    type.extension = some extension →
      law.Keeps (onward.extension scope extension) (other.extension scope extension) fun _ => True

/-! ## Small walks -/

section Small

variable {context : Context}

/-- A walk that begins by looking up an entity has found it. -/
theorem entityAt_bind_eq_ok {α : Type} {path : String} {next : Entity → Walk α} {state : State}
    {reached : α × State} (ran : (entityAt context path >>= next).run state = .ok reached) :
    ∃ entity, state.entities.get? path = some entity ∧ (next entity).run state = .ok reached := by
  rw [StateT.run_bind] at ran
  obtain ⟨⟨entity, reading⟩, got, ran⟩ := Result.bind_eq_ok.mp ran
  simp only [entityAt, StateT.run_bind, StateT.run_get, pure_bind] at got
  split at got
  next known found =>
    cases got
    exact ⟨entity, found, ran⟩
  next => cases got

theorem deriveScalar_eq_ok {derive : Scalar.State → Scalar.Derivation} {state final : State}
    {repr : ScalarRepr} (ran : (deriveScalar derive).run state = .ok (repr, final)) :
    ∃ scalars, derive state.scalars = (.ok repr, scalars) ∧ final = { state with scalars } := by
  unfold deriveScalar at ran
  rw [StateT.run_bind] at ran
  obtain ⟨⟨seen, same⟩, got, ran⟩ := Result.bind_eq_ok.mp ran
  cases got
  dsimp only at ran
  split at ran
  next scalars derived =>
    cases ran
    exact ⟨scalars, derived, rfl⟩
  next => cases ran

/-- Adding a field leaves it out, or puts it into the entity with a name for its other end. -/
theorem addField_eq_ok {rules : FieldRules} {path : String} {field : Field} {state final : State}
    (ran : (addField context rules path field).run state = .ok ((), final)) :
    (rules.dropAfterProcessing.contains field.name = true ∧ final = state) ∨ ∃ entity after,
      state.entities.get? path = some entity ∧
        insertField entity { field with
          kind := setRelatedName (reverseName? state path field) field.kind } = .ok after ∧
        final = { state with entities := state.entities.set path after } := by
  obtain ⟨entity, found, ran⟩ := entityAt_bind_eq_ok ran
  split at ran
  next leftOut =>
    cases ran
    exact .inl ⟨(Bool.and_eq_true_iff.mp leftOut).2, rfl⟩
    -- A field that is not left out either exceeds the bound on names, or goes on to the insertion.
  · extract_lets limit proceed at ran
    split at ran
    · cases ran
    · simp only [proceed] at ran
      rw [StateT.run_bind] at ran
      obtain ⟨⟨seen, same⟩, got, ran⟩ := Result.bind_eq_ok.mp ran
      cases got
      dsimp only at ran
      rw [StateT.run_bind] at ran
      obtain ⟨⟨after, reached⟩, inserted, ran⟩ := Result.bind_eq_ok.mp ran
      cases ran
      refine .inr ⟨entity, after, found, ?_⟩
      generalize insertField _ _ = outcome at inserted
      cases outcome with
      | error failure => cases inserted
      | ok value =>
        cases inserted
        exact ⟨rfl, rfl⟩

variable (law : WalkLaw context)

theorem notify_keeps (notice : Diagnostic) :
    law.Keeps (notify notice) (notify notice) fun _ => True :=
  .changes fun _ holds => law.frame holds rfl rfl rfl fun _ => .inl rfl

theorem nextChoice_keeps : law.Keeps nextChoice nextChoice fun _ => True := by
  refine .of_run fun state result final holds ran => ?_
  cases ran
  exact ⟨law.frame holds rfl rfl rfl fun _ => .inl rfl, trivial⟩

theorem resolveName_keeps {path : String} {type : Option ComplexType} (asked : law.Asks path type) :
    law.Keeps (resolveName path) (resolveName path) fun _ => True := by
  refine .of_run fun state result final holds ran => ?_
  cases ran
  refine ⟨law.frame (law.naming holds asked) ?_ ?_ ?_ fun _ => .inl rfl, trivial⟩ <;> rfl

theorem deriveScalar_keeps {primitive : Option String} {derive : Scalar.State → Scalar.Derivation}
    (derives : Derives context primitive derive) :
    law.Keeps (deriveScalar derive) (deriveScalar derive) fun repr => law.Found primitive repr := by
  refine .of_run fun state repr final holds ran => ?_
  obtain ⟨scalars, derived, rfl⟩ := deriveScalar_eq_ok ran
  exact law.derives holds derives derived

theorem produced_keeps (path : String) :
    law.Keeps (produced path) (produced path) fun _ => True := by
  refine .of_run fun state result final holds ran => ?_
  cases ran
  exact ⟨holds, trivial⟩

theorem addToBag_keeps {scope : Scope} (place : law.At scope) (entries : Bag) :
    law.Keeps (addToBag scope.typePath entries) (addToBag scope.typePath entries)
      fun _ => True := by
  refine .changes fun state holds => law.frame holds rfl rfl rfl fun path => ?_
  by_cases same : path = scope.typePath
  · exact .inr ⟨scope, place, same.symm⟩
  · exact .inl (Table.get?_set_of_ne _ _ same)

theorem takeBag_keeps {scope : Scope} (place : law.At scope) :
    law.Keeps (takeBag scope.typePath) (takeBag scope.typePath) fun _ => True := by
  refine .of_run fun state result final holds ran => ?_
  cases ran
  refine ⟨law.frame holds rfl rfl rfl fun path => ?_, trivial⟩
  by_cases same : path = scope.typePath
  · exact .inr ⟨scope, place, same.symm⟩
  · exact .inl (Table.get?_erase_of_ne _ same)

theorem modifyEntity_keeps {path : String} {change : Entity → Entity}
    (keeps : ∀ state entity, law.Holds state → state.entities.get? path = some entity →
      law.Holds { state with entities := state.entities.set path (change entity) }) :
    law.Keeps (modifyEntity context path change) (modifyEntity context path change)
      fun _ => True := by
  refine .of_run fun state result final holds ran => ?_
  obtain ⟨entity, found, ran⟩ := entityAt_bind_eq_ok ran
  cases ran
  exact ⟨keeps state entity holds found, trivial⟩

theorem modifyEntity_reshapes {path : String} {change : Entity → Entity}
    (same : ∀ entity, ((change entity).name, (change entity).sourceTypes, (change entity).parent,
      (change entity).fields) =
        (entity.name, entity.sourceTypes, entity.parent, entity.fields) := by intro entity; rfl) :
    law.Keeps (modifyEntity context path change) (modifyEntity context path change)
      fun _ => True :=
  modifyEntity_keeps law fun _ entity holds found => law.reshaped holds found (same entity)

theorem addField_keeps {scope : Scope} {field : Field} (place : law.At scope)
    (given : Given context law.words law.Found scope field) :
    law.Keeps (addField context scope.rules scope.typePath field)
      (addField context scope.rules scope.typePath field) fun _ => True := by
  refine .of_run fun state result final holds ran => ?_
  obtain ⟨_, rfl⟩ | ⟨entity, after, found, inserted, rfl⟩ := addField_eq_ok ran
  · exact ⟨holds, trivial⟩
  · exact ⟨law.added holds place found given inserted, trivial⟩

/-- Back references may be added at any type path. -/
theorem addFields_keeps {rules : FieldRules} {path : String} {fields : List Field}
    (backs : AllBack fields) :
    law.Keeps (addFields context rules path fields) (addFields context rules path fields)
      fun _ => True := by
  refine .repeats fun field member => .of_run fun state result final holds ran => ?_
  obtain ⟨owner, relation, name, oneToOne, rfl⟩ := backs field member
  obtain ⟨_, rfl⟩ | ⟨entity, after, found, inserted, rfl⟩ := addField_eq_ok ran
  · exact ⟨holds, trivial⟩
  · rw [reverseName?_backReference] at inserted
    exact ⟨law.referredBack holds found inserted, trivial⟩

end Small

end Compile

end EntityGraph
