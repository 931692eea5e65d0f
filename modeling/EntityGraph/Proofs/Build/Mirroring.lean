import EntityGraph.Proofs.Build.Flattening
import EntityGraph.Proofs.Build.SimpleMembers

/-!
# Types and what they are flattened into

Where the rules only flatten, what a member of simple type becomes depends on its place in few ways:
by the path of the ancestors in front of its own, by whether the surroundings are optional, and by
the number of the choice it is a branch of. So two walks over the members of one type, one into the
entity of the type and the other into an entity that the type is flattened into, can be followed
alongside each other: they add the same fields in the same order, but for these differences.
-/
namespace EntityGraph

open Schema (AttributeItem ComplexType Element Index Member Particle)

namespace Compile

/-! ## Walks alongside each other -/

/-- From states that correspond, two walks lead to states that correspond if both of them give a
result, and the results are as stated. -/
def Alongside {α β : Type} (Match : State → State → Prop) (walk : Walk α) (other : Walk β)
    (ensures : α → β → Prop) : Prop :=
  ∀ state otherState, Match state otherState → ∀ result final otherResult otherFinal,
    walk.run state = .ok (result, final) → other.run otherState = .ok (otherResult, otherFinal) →
      Match final otherFinal ∧ ensures result otherResult

namespace Alongside

variable {α β γ δ : Type} {Match : State → State → Prop}

theorem returns {value : α} {other : β} {ensures : α → β → Prop} (holds : ensures value other) :
    Alongside Match (pure value) (pure other) ensures := by
  intro state otherState corresponds result final otherResult otherFinal ran ranOther
  cases ran
  cases ranOther
  exact ⟨corresponds, holds⟩

theorem fails {failure : Error} {other : Walk β} {ensures : α → β → Prop} :
    Alongside Match (throw failure) other ensures := by
  intro state otherState corresponds result final otherResult otherFinal ran
  cases ran

theorem bind {walk : Walk α} {other : Walk β} {next : α → Walk γ} {otherNext : β → Walk δ}
    {ensures : α → β → Prop} {finally_ : γ → δ → Prop} (along : Alongside Match walk other ensures)
    (continues : ∀ value otherValue, ensures value otherValue →
      Alongside Match (next value) (otherNext otherValue) finally_) :
    Alongside Match (walk >>= next) (other >>= otherNext) finally_ := by
  intro state otherState corresponds result final otherResult otherFinal ran ranOther
  obtain ⟨value, middle, ranFirst, ran⟩ := run_bind_eq_ok.mp ran
  obtain ⟨otherValue, otherMiddle, ranOtherFirst, ranOther⟩ := run_bind_eq_ok.mp ranOther
  obtain ⟨correspondsMiddle, ensured⟩ := along state otherState corresponds value middle otherValue
    otherMiddle ranFirst ranOtherFirst
  exact continues value otherValue ensured middle otherMiddle correspondsMiddle result final
    otherResult otherFinal ran ranOther

/-- Doing the same for each item. -/
theorem repeats {items : List α} {walk other : α → Walk Unit}
    (each : ∀ item ∈ items, Alongside Match (walk item) (other item) fun _ _ => True) :
    Alongside Match (items.forM walk) (items.forM other) fun _ _ => True := by
  induction items with
  | nil => exact .returns trivial
  | cons item rest ih =>
    change Alongside Match (walk item >>= fun _ => rest.forM walk)
      (other item >>= fun _ => rest.forM other) _
    exact (each item List.mem_cons_self).bind fun _ _ _ =>
      ih fun further member => each further (List.mem_cons_of_mem _ member)

end Alongside

end Compile

/-! ## What flattening makes of a field -/

/-- A path as a name, with underscores for its dots. -/
def underscored (path : String) : String :=
  String.ofList (path.toList.map fun c => if c = '.' then '_' else c)

/-- The field of a type, where the type is flattened into the place of an element. -/
def Field.below (dottedPath : String) (optional : Bool) (field : Field) : Field :=
  { field with
    name := underscored dottedPath ++ "_" ++ field.name
    dottedPath := dottedPath ++ "." ++ field.dottedPath
    nullable := field.nullable || optional }

/-- A scalar field and the same one of a flattened type. They may be documented differently, and
their choices have different numbers, which are counted from the given ones. -/
structure Field.Mirrors (dottedPath : String) (optional : Bool) (ownBase flatBase : Nat)
    (field flattened : Field) : Prop where
  scalar : ∃ value, field.kind = .scalar value
  form : flattened = { field.below dottedPath optional with
    documentation := flattened.documentation
    choiceGroup := flattened.choiceGroup }
  choice : flattened.choiceGroup.map (· + ownBase) = field.choiceGroup.map (· + flatBase)

section Mirrors

variable {dottedPath : String} {optional : Bool} {ownBase flatBase : Nat}

theorem Field.Mirrors.name {field flattened : Field}
    (mirrors : field.Mirrors dottedPath optional ownBase flatBase flattened) :
    flattened.name = underscored dottedPath ++ "_" ++ field.name := by
  rw [mirrors.form]
  rfl

theorem Field.Mirrors.otherScalar {field flattened : Field}
    (mirrors : field.Mirrors dottedPath optional ownBase flatBase flattened) :
    ∃ value, flattened.kind = .scalar value := by
  obtain ⟨value, scalar⟩ := mirrors.scalar
  rw [mirrors.form]
  exact ⟨value, scalar⟩

theorem Field.Mirrors.isMaterialized {field flattened : Field}
    (mirrors : field.Mirrors dottedPath optional ownBase flatBase flattened) :
    flattened.isMaterialized = true ∧ field.isMaterialized = true := by
  obtain ⟨value, scalar⟩ := mirrors.scalar
  rw [mirrors.form]
  simp [Field.isMaterialized, Field.below, scalar, FieldKind.isMaterialized]

/-- The names of flattened fields begin alike, so they are different where the names are. -/
theorem below_mem_materializedNames_iff {fields flattened : List Field} {name : String}
    (mirrors : List.Forall₂ (Field.Mirrors dottedPath optional ownBase flatBase) fields flattened) :
    underscored dottedPath ++ "_" ++ name ∈ materializedNames flattened ↔
      name ∈ materializedNames fields := by
  have prefixed : materializedNames flattened =
      (materializedNames fields).map (underscored dottedPath ++ "_" ++ ·) := by
    induction mirrors with
    | nil => rfl
    | @cons field other rest others first _ ih =>
      obtain ⟨flat, own⟩ := first.isMaterialized
      change materializedNames ([other] ++ others) = (materializedNames ([field] ++ rest)).map _
      rw [materializedNames_append, materializedNames_append, materializedNames_singleton flat,
        materializedNames_singleton own, List.map_append, ih, first.name]
      rfl
  rw [prefixed]
  exact List.mem_map_of_injective fun _ _ same => (String.append_right_inj _).mp same

end Mirrors

namespace Compile

/-! ## Corresponding places -/

/-- Two compilations of one schema by the same settings, but for the roots. -/
structure SameSources (own flat : Context) : Prop where
  index : flat.index = own.index
  settings : ∃ roots, flat.settings = own.settings.withRoots roots

theorem SameSources.value_eq {own flat : Context} (same : SameSources own flat) {member : Member}
    {value other : ScalarRepr} (first : MemberValue own.index own.settings member value)
    (second : MemberValue flat.index flat.settings member other) : other = value := by
  obtain ⟨roots, settings⟩ := same.settings
  rw [same.index, settings] at second
  exact second.unique (first.withRoots roots)

/-- Two type paths, one of them that of a type and the other that of an entity into which the type
is flattened: the path of the element there, and whether it is optional. The choices are counted from
two numbers on. -/
structure Mirror where
  ownPath : String
  flatPath : String
  dottedPath : String
  optional : Bool
  ownBase : Nat
  flatBase : Nat

variable {own flat : Context} {mirror : Mirror} {scope other : Scope} {state final : State}
  {flatState flatFinal : State} {nullable : Bool} {member : Member}

/-- A place in the type, and the same place where it is flattened. -/
structure Mirror.Places (mirror : Mirror) (scope other : Scope) : Prop where
  rules : scope.rules.OnlyFlattens
  otherRules : other.rules.OnlyFlattens
  path : scope.typePath = mirror.ownPath
  otherPath : other.typePath = mirror.flatPath
  outermost : scope.ancestors = ""
  beneath : other.ancestors = mirror.dottedPath ++ "."
  nullable : other.nullable = (scope.nullable || mirror.optional)
  choice : other.choiceGroup.map (· + mirror.ownBase) = scope.choiceGroup.map (· + mirror.flatBase)

/-- The states of two walks in which the fields of both places are the same so far. -/
structure Mirror.Shows (mirror : Mirror) (own flat : Context) (state flatState : State) : Prop where
  honest : state.scalars.IsHonest ⟨own.index, own.settings⟩
  otherHonest : flatState.scalars.IsHonest ⟨flat.index, flat.settings⟩
  counted : flatState.choices + mirror.ownBase = state.choices + mirror.flatBase
  unbagged : state.bags.get? mirror.ownPath = none
  otherUnbagged : flatState.bags.get? mirror.flatPath = none
  fields : List.Forall₂
    (Field.Mirrors mirror.dottedPath mirror.optional mirror.ownBase mirror.flatBase)
    (state.fieldsAt mirror.ownPath) (flatState.fieldsAt mirror.flatPath)

theorem underscored_append (path : String) :
    String.ofList ((path ++ ".").toList.map fun c => if c = '.' then '_' else c) =
      underscored path ++ "_" := by
  rw [underscored, String.toList_append, List.map_append, String.ofList_append]
  rfl

namespace Mirror

theorem Places.fieldName (places : mirror.Places scope other) (name : String) :
    other.fieldName name = underscored mirror.dottedPath ++ "_" ++ scope.fieldName name := by
  have own : scope.fieldName name = name := by
    rw [Scope.fieldName, places.outermost]
    exact String.empty_append
  rw [own, Scope.fieldName, places.beneath, underscored_append]

theorem Places.memberPath (places : mirror.Places scope other) (member : Member) :
    member.dottedPath other.ancestors member.localName =
      mirror.dottedPath ++ "." ++ member.dottedPath scope.ancestors member.localName := by
  rw [places.outermost, places.beneath]
  cases member <;> simp only [Member.dottedPath, String.append_assoc, String.empty_append]

theorem Places.simpleField (places : mirror.Places scope other) (nullable : Bool)
    (member : Member) (value : ScalarRepr) (documentation flatDocumentation : List String) :
    (simpleField scope nullable member value documentation).Mirrors mirror.dottedPath
      mirror.optional mirror.ownBase mirror.flatBase
      (simpleField other (nullable || mirror.optional) member value flatDocumentation) := by
  refine ⟨⟨value, rfl⟩, ?_, places.choice⟩
  rw [Compile.simpleField, places.fieldName, places.memberPath]
  rfl

/-- The same member is given to both places. -/
theorem Shows.becomesScalar (shows : mirror.Shows own flat state flatState)
    (same : SameSources own flat) (places : mirror.Places scope other)
    (ownBecomes : BecomesScalar own scope nullable member state final)
    (flatBecomes :
      BecomesScalar flat other (nullable || mirror.optional) member flatState flatFinal) :
    mirror.Shows own flat final flatFinal := by
  obtain ⟨honest, value, documentation, given, gains⟩ := ownBecomes
  obtain ⟨flatHonest, flatValue, flatDocumentation, flatGiven, flatGains⟩ := flatBecomes
  obtain rfl := same.value_eq given flatGiven
  refine ⟨honest, flatHonest, ?_, ?_, ?_, ?_⟩
  · rw [gains.choices, flatGains.choices]
    exact shows.counted
  · exact gains.bags ▸ shows.unbagged
  · exact flatGains.bags ▸ shows.otherUnbagged
  · have fields := gains.fields
    have flatFields := flatGains.fields
    rw [places.path] at fields
    rw [places.otherPath] at flatFields
    have taken : other.fieldName member.localName ∈
          materializedNames (flatState.fieldsAt mirror.flatPath) ↔
        scope.fieldName member.localName ∈ materializedNames (state.fieldsAt mirror.ownPath) := by
      rw [places.fieldName]
      exact below_mem_materializedNames_iff shows.fields
    -- The name is taken in both places or in neither.
    rcases fields with ⟨known, kept⟩ | ⟨new, added⟩
    · obtain ⟨_, flatKept⟩ := flatFields.resolve_right fun new => new.1 (taken.mpr known)
      rw [kept, flatKept]
      exact shows.fields
    · obtain ⟨_, flatAdded⟩ := flatFields.resolve_left fun known => new (taken.mp known.1)
      rw [added, flatAdded]
      exact List.rel_append shows.fields (.cons (places.simpleField _ _ _ _ _) .nil)

/-- Other surroundings of the same places. -/
theorem Places.within (places : mirror.Places scope other) (nullable : Bool)
    {choiceGroup flatChoiceGroup : Option Nat}
    (choice : flatChoiceGroup.map (· + mirror.ownBase) = choiceGroup.map (· + mirror.flatBase)) :
    mirror.Places { scope with nullable, choiceGroup }
      { other with nullable := nullable || mirror.optional, choiceGroup := flatChoiceGroup } where
  rules := places.rules
  otherRules := places.otherRules
  path := places.path
  otherPath := places.otherPath
  outermost := places.outermost
  beneath := places.beneath
  nullable := rfl
  choice := choice

end Mirror

/-! ## Corresponding walks -/

/-- A type without extension, simple content and wildcards, whose members are simple. -/
structure IsRecord (index : Index) (type : ComplexType) : Prop where
  noExtension : type.extension = none
  noSimpleContent : type.simpleContent = none
  attributes : ∀ declaration, .single declaration ∈ type.attributes →
    IsSimple index (.attrib declaration)
  elements : ∀ content, type.content = some content →
    ∀ declaration, (Particle.element declaration).Within content →
      IsSimple index (.element declaration)
  noWildcards : ∀ content, type.content = some content →
    ∀ wildcard, ¬(Particle.any wildcard).Within content

section Walks

variable {onward flatOnward : Onward}

/-- Two walks give the same fields to both places. -/
abbrev Mirror.Keeps (mirror : Mirror) (own flat : Context) (walk other : Walk Unit) : Prop :=
  Alongside (mirror.Shows own flat) walk other fun _ _ => True

theorem classify_mirrored (same : SameSources own flat) (places : mirror.Places scope other)
    (simple : IsSimple own.index member) :
    mirror.Keeps own flat (classify own onward scope nullable member)
      (classify flat flatOnward other (nullable || mirror.optional) member) := by
  intro state flatState shows _ final _ flatFinal ran ranFlat
  exact ⟨shows.becomesScalar same places
    (classify_becomesScalar places.rules simple shows.honest ran)
    (classify_becomesScalar places.otherRules (same.index ▸ simple) shows.otherHonest ranFlat),
    trivial⟩

theorem nextChoice_mirrored :
    Alongside (mirror.Shows own flat) nextChoice nextChoice fun choice flatChoice =>
      flatChoice + mirror.ownBase = choice + mirror.flatBase := by
  intro state flatState shows choice final flatChoice flatFinal ran ranFlat
  cases ran
  cases ranFlat
  have counted := shows.counted
  refine ⟨{ shows with counted := ?_ }, ?_⟩
  · change flatState.choices + 1 + mirror.ownBase = state.choices + 1 + mirror.flatBase
    omega
  · omega

theorem walkAttributes_mirrored (same : SameSources own flat) (places : mirror.Places scope other)
    {items : List AttributeItem}
    (simple : ∀ declaration, .single declaration ∈ items →
      IsSimple own.index (.attrib declaration)) :
    mirror.Keeps own flat (walkAttributes own onward scope items)
      (walkAttributes flat flatOnward other items) := by
  refine .repeats fun item listed => ?_
  match item with
  | .single declaration =>
    dsimp only
    split
    · rw [places.nullable, Bool.or_right_comm]
      exact classify_mirrored same places (simple declaration listed)
    · exact .returns trivial
  | .group reference => exact .fails

mutual

theorem walkParticle_mirrored (same : SameSources own flat) {scope other : Scope}
    (places : mirror.Places scope other) (particle : Particle)
    (simple : ∀ declaration, (Particle.element declaration).Within particle →
      IsSimple own.index (.element declaration))
    (noWildcards : ∀ wildcard, ¬(Particle.any wildcard).Within particle) :
    mirror.Keeps own flat (walkParticle own onward scope particle)
      (walkParticle flat flatOnward other particle) := by
  match particle with
  | .element declaration =>
    rw [walkParticle, walkParticle, places.nullable, Bool.or_right_comm]
    exact classify_mirrored same places (simple declaration .itself)
  | .compositor .sequence occurs parts =>
    rw [walkParticle, walkParticle, places.nullable, Bool.or_right_comm]
    exact walkParts_mirrored same (places.within _ places.choice) parts
      (fun part listed _ within => simple _ (.inside listed within))
      fun part listed _ within => noWildcards _ (.inside listed within)
  | .compositor .choice occurs parts =>
    rw [walkParticle, walkParticle]
    refine nextChoice_mirrored.bind fun choice flatChoice counted => ?_
    exact walkParts_mirrored same (places.within true (by simp [counted])) parts
      (fun part listed _ within => simple _ (.inside listed within))
      fun part listed _ within => noWildcards _ (.inside listed within)
  | .any wildcard => exact absurd .itself (noWildcards wildcard)
  | .group reference occurs =>
    rw [walkParticle, walkParticle]
    exact .fails

theorem walkParts_mirrored (same : SameSources own flat) {scope other : Scope}
    (places : mirror.Places scope other) (parts : List Particle)
    (simple : ∀ part ∈ parts, ∀ declaration, (Particle.element declaration).Within part →
      IsSimple own.index (.element declaration))
    (noWildcards : ∀ part ∈ parts, ∀ wildcard, ¬(Particle.any wildcard).Within part) :
    mirror.Keeps own flat (walkParts own onward scope parts)
      (walkParts flat flatOnward other parts) := by
  match parts with
  | [] =>
    rw [walkParts, walkParts]
    exact .returns trivial
  | part :: rest =>
    rw [walkParts, walkParts]
    refine (walkParticle_mirrored same places part (simple part List.mem_cons_self)
      (noWildcards part List.mem_cons_self)).bind fun _ _ _ => ?_
    exact walkParts_mirrored same places rest
      (fun other listed => simple other (List.mem_cons_of_mem part listed))
      fun other listed => noWildcards other (List.mem_cons_of_mem part listed)

end

theorem walkContent_mirrored {type : ComplexType} (same : SameSources own flat)
    (places : mirror.Places scope other) (record : IsRecord own.index type) :
    mirror.Keeps own flat (walkContent own onward scope type.content)
      (walkContent flat flatOnward other type.content) := by
  cases content : type.content with
  | none => exact .returns trivial
  | some particle =>
    exact walkParticle_mirrored same places particle (record.elements particle content)
      (record.noWildcards particle content)

end Walks

end Compile

end EntityGraph
