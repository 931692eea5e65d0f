import EntityGraph.Proofs.Schema.Determinacy
import Mathlib.Data.List.Chain
import Mathlib.Logic.Relation

/-!
# Cycles of references

Resolution follows references: to groups, and to elements with an inline type. It fails with a
cycle exactly along a chain of references that comes back to where it has been, and if it succeeds
then no reference that can be reached leads back to itself. The bound on the number of layers is
never met.
-/
namespace EntityGraph.Schema

open Relation (ReflTransGen TransGen)

/-- A declaration that resolution enters, by its canonical name. -/
inductive Reference where
  | attributeGroup (name : String)
  | group (name : String)
  /-- An element with an inline type. -/
  | element (name : String)
  deriving DecidableEq

/-- The declaration on a trail. -/
def Reference.key : Reference → String
  | attributeGroup name => "attributeGroup " ++ name
  | group name => "group " ++ name
  | element name => "element " ++ name

namespace Declarations

/-! ## What a declaration refers to -/

def attributeReference? (self : Declarations) : AttributeItem → Option Reference
  | .single _ => none
  | .group reference => some (.attributeGroup (self.names.canonical reference))

def attributeReferences (self : Declarations) (items : List AttributeItem) : List Reference :=
  items.filterMap self.attributeReference?

/-- An element without an inline type is not entered. -/
def elementReference? (self : Declarations) (reference : String) : Option Reference :=
  let name := self.names.canonical reference
  match self.elements.get? name with
  | some target => if target.complexType.isSome then some (.element name) else none
  | none => none

mutual

def typeReferences (self : Declarations) : ComplexType → List Reference
  | ⟨_, _, _, attributes, content, extension, simpleContent, _⟩ =>
    self.attributeReferences attributes ++ (self.contentReferences content ++
      (self.extensionReferences extension ++
        (simpleContent.map fun inner => self.attributeReferences inner.attributes).getD []))

def contentReferences (self : Declarations) : Option Particle → List Reference
  | some particle => self.particleReferences particle
  | none => []

def extensionReferences (self : Declarations) : Option Extension → List Reference
  | some ⟨_, attributes, content⟩ =>
    self.attributeReferences attributes ++ self.contentReferences content
  | none => []

def particleReferences (self : Declarations) : Particle → List Reference
  | .element declaration => self.elementReferences declaration
  | .compositor _ _ parts => self.partsReferences parts
  | .any _ => []
  | .group reference _ => [.group (self.names.canonical reference)]

def partsReferences (self : Declarations) : List Particle → List Reference
  | [] => []
  | part :: rest => self.particleReferences part ++ self.partsReferences rest

def elementReferences (self : Declarations) : Element → List Reference
  | ⟨_, some reference, _, _, _, _, _, _, _⟩ => (self.elementReference? reference).toList
  | ⟨_, none, _, complexType, _, _, _, _, _⟩ => self.inlineReferences complexType

def inlineReferences (self : Declarations) : Option ComplexType → List Reference
  | some type => self.typeReferences type
  | none => []

end

/-- What the expansion of a declaration refers to. -/
def expansion (self : Declarations) : Reference → List Reference
  | .attributeGroup name =>
    ((self.attributeGroups.get? name).map (self.attributeReferences ·.attributes)).getD []
  | .group name => ((self.groups.get? name).map (self.particleReferences ·.particle)).getD []
  | .element name => ((self.elements.get? name).map (self.inlineReferences ·.complexType)).getD []

/-- A declaration refers to another one. -/
def Leads (self : Declarations) (source target : Reference) : Prop := target ∈ self.expansion source

/-- A chain of references: where resolution stands, then declarations that each refer to the next
one, the first of them among those that are mentioned. The last one has been there before. -/
def Closes (self : Declarations) (trail : Trail) (mentions : List Reference) (chain : Trail) :
    Prop :=
  ∃ first ∈ mentions, ∃ rest, (first :: rest).IsChain self.Leads ∧
    chain = trail ++ (first :: rest).map Reference.key ∧
    ∃ before last, chain = before ++ [last] ∧ last ∈ before

/-- Nothing that a reference leads to is on the trail or leads back to itself. -/
def Clear (self : Declarations) (trail : Trail) (reference : Reference) : Prop :=
  ∀ target, ReflTransGen self.Leads reference target →
    target.key ∉ trail ∧ ¬TransGen self.Leads target target

/-! ## Exploring -/

/-- What a resolution on a trail finds out about the references that it meets; more layers do not
change it. -/
structure Explores {α : Type} (declarations : Declarations) (trail : Trail)
    (mentions : List Reference) (result other : Result α) : Prop where
  same : result = other
  clear : ∀ {value}, result = .ok value →
    ∀ reference ∈ mentions, declarations.Clear trail reference
  cyclic : ∀ {chain}, result = .error (.cyclicReference chain) →
    declarations.Closes trail mentions chain

variable {α β : Type} {self : Declarations} {trail : Trail}

namespace Explores

theorem returns (value : α) : self.Explores trail [] (pure value) (pure value) :=
  ⟨rfl, (fun _ _ member => by cases member), fun fails => by cases fails⟩

/-- A step that fails for other reasons only. -/
theorem plain {result : Result α} (never : ∀ chain, result ≠ .error (.cyclicReference chain)) :
    self.Explores trail [] result result :=
  ⟨rfl, (fun _ _ member => by cases member), fun fails => absurd fails (never _)⟩

theorem bind {mentions later : List Reference} {first other : Result α}
    {next nextOther : α → Result β} (here : self.Explores trail mentions first other)
    (there : ∀ value, first = .ok value →
      self.Explores trail later (next value) (nextOther value)) :
    self.Explores trail (mentions ++ later) (first >>= next) (other >>= nextOther) := by
  obtain ⟨rfl, clear, cyclic⟩ := here
  cases first with
  | error failure =>
    refine ⟨rfl, (fun given => by cases given), ?_⟩
    rintro chain ⟨⟩
    obtain ⟨start, member, rest⟩ := cyclic rfl
    exact ⟨start, List.mem_append_left _ member, rest⟩
  | ok value =>
    have onward := there value rfl
    refine ⟨onward.same, fun given reference member => ?_, fun fails => ?_⟩
    · rcases List.mem_append.mp member with first | second
      · exact clear rfl reference first
      · exact onward.clear given reference second
    · obtain ⟨start, member, rest⟩ := onward.cyclic fails
      exact ⟨start, List.mem_append_right _ member, rest⟩

theorem map {mentions : List Reference} {first other : Result α} (change : α → β)
    (here : self.Explores trail mentions first other) :
    self.Explores trail mentions (first >>= fun value => pure (change value))
      (other >>= fun value => pure (change value)) := by
  have whole := here.bind fun value _ => Explores.returns (change value)
  rwa [List.append_nil] at whole

/-- Entering a declaration finds out what its expansion refers to. -/
theorem enter (reference : Reference) {rest restOther : Trail → Result α}
    (inside : reference.key ∉ trail → self.Explores (trail ++ [reference.key])
      (self.expansion reference) (rest (trail ++ [reference.key]))
      (restOther (trail ++ [reference.key]))) :
    self.Explores trail [reference] (trail.enter reference.key >>= rest)
      (trail.enter reference.key >>= restOther) := by
  unfold Trail.enter
  by_cases within : trail.contains reference.key
  · -- The cycle is closed here.
    rw [if_pos within]
    refine ⟨rfl, (fun given => by cases given), ?_⟩
    rintro _ ⟨⟩
    exact ⟨reference, List.mem_singleton_self _, [], .singleton _, rfl, trail, reference.key, rfl,
      by simpa using within⟩
  · rw [if_neg within]
    have fresh : reference.key ∉ trail := by simpa using within
    obtain ⟨same, clear, cyclic⟩ := inside fresh
    refine ⟨same, fun given other member => ?_, fun fails => ?_⟩
    · obtain rfl := List.mem_singleton.mp member
      intro target reaches
      rcases ReflTransGen.cases_head reaches with rfl | ⟨next, leads, reaches⟩
      · refine ⟨fresh, fun loop => ?_⟩
        -- A loop would come back to the declaration, which is on the inner trail.
        obtain ⟨next, leads, back⟩ := TransGen.head'_iff.mp loop
        exact (clear given next leads _ back).1 (List.mem_append_right _ List.mem_cons_self)
      · obtain ⟨absent, noLoop⟩ := clear given next leads target reaches
        exact ⟨fun member => absent (List.mem_append_left _ member), noLoop⟩
    · obtain ⟨next, leads, path, linked, rfl, ends⟩ := cyclic fails
      refine ⟨reference, List.mem_singleton_self _, next :: path, ?_, ?_, ends⟩
      · exact List.isChain_cons_cons.mpr ⟨leads, linked⟩
      · rw [List.map_cons (l := next :: path), List.append_assoc]
        rfl

end Explores

/-! ## Room on a trail -/

/-- Different keys out of a list. -/
def Within (keys : List String) (trail : Trail) : Prop := trail.Nodup ∧ ∀ key ∈ trail, key ∈ keys

theorem within_nil (keys : List String) : Within keys [] :=
  ⟨List.nodup_nil, fun _ member => by cases member⟩

theorem within_singleton {keys : List String} {key : String} (member : key ∈ keys) :
    Within keys [key] :=
  ⟨List.nodup_singleton key, fun _ same => List.mem_singleton.mp same ▸ member⟩

theorem Within.snoc {keys : List String} (within : Within keys trail) {key : String}
    (member : key ∈ keys) (fresh : key ∉ trail) : Within keys (trail ++ [key]) := by
  refine ⟨List.nodup_append.mpr ⟨within.1, List.nodup_singleton key, ?_⟩, fun other inside => ?_⟩
  · intro other inside last same equal
    exact fresh (List.mem_singleton.mp same ▸ equal ▸ inside)
  · rcases List.mem_append.mp inside with before | last
    · exact within.2 other before
    · exact List.mem_singleton.mp last ▸ member

/-- No trail is longer than there are keys. -/
theorem Within.length_le {keys : List String} (within : Within keys trail) :
    trail.length ≤ keys.length :=
  (List.subperm_of_subset within.1 within.2).length_le

/-! ## Attributes -/

theorem lookup_ne_cyclic {table : Table α} {name : String} (chain : List String) :
    lookup table name ≠ .error (.cyclicReference chain) := by
  unfold lookup
  split
  · intro fails
    cases fails
  · intro fails
    cases fails

theorem attributeDeclaration_ne_cyclic (site : Attribute) (chain : List String) :
    self.attributeDeclaration site ≠ .error (.cyclicReference chain) := by
  intro fails
  unfold attributeDeclaration at fails
  extract_lets proceed at fails
  split at fails
  · rcases Result.bind_eq_error.mp fails with fails | ⟨_, _, fails⟩
    · rcases Result.bind_eq_error.mp fails with fails | ⟨_, _, fails⟩
      · exact lookup_ne_cyclic chain fails
      · exact Result.pure_ne_error fails
    · exact Result.pure_ne_error fails
  · exact Result.pure_ne_error fails

theorem attributesWith_explores {members others : String → Result (List AttributeItem)}
    (inside : ∀ reference, self.Explores trail
      [.attributeGroup (self.names.canonical reference)] (members reference) (others reference))
    (items : List AttributeItem) :
    self.Explores trail (self.attributeReferences items) (self.attributesWith members items)
      (self.attributesWith others items) := by
  induction items with
  | nil => exact .returns _
  | cons item rest ih =>
    cases item with
    | single declaration =>
      exact (Explores.plain (attributeDeclaration_ne_cyclic declaration)).bind fun first _ =>
        ih.map _
    | group reference => exact (inside reference).bind fun found _ => ih.map _

/-- The keys of the attribute groups. -/
def attributeKeys (self : Declarations) : List String :=
  self.attributeGroups.map fun entry => (Reference.attributeGroup entry.1).key

theorem attributeItems_explores (more layers : Nat) (outer : Trail) {inner : Trail}
    (within : Within self.attributeKeys inner)
    (enough : self.attributeGroups.length < layers + inner.length) (items : List AttributeItem) :
    self.Explores (outer ++ inner) (self.attributeReferences items)
      (self.attributeItems layers (outer ++ inner) items)
      (self.attributeItems (more + layers) (outer ++ inner) items) := by
  induction layers generalizing inner items with
  | zero =>
    have bound := within.length_le
    rw [attributeKeys, List.length_map] at bound
    omega
  | succ layers ih =>
    refine attributesWith_explores (fun reference => ?_) items
    refine (Explores.plain lookup_ne_cyclic).bind fun group found => ?_
    have has := get?_of_lookup found
    refine Explores.enter (.attributeGroup (self.names.canonical reference)) fun fresh => ?_
    rw [List.append_assoc, expansion, has]
    have member : (Reference.attributeGroup (self.names.canonical reference)).key ∈
        self.attributeKeys :=
      List.mem_map.mpr ⟨_, Table.mem_of_get? has, rfl⟩
    have longer := within.snoc member fun before => fresh (List.mem_append_right _ before)
    exact ih longer (by rw [List.length_append, List.length_singleton]; omega) group.attributes

theorem attributeList_explores (more : Nat) (trail : Trail) (items : List AttributeItem) :
    self.Explores trail (self.attributeReferences items) (self.attributeList trail items)
      (self.attributeItems (more + (self.attributeGroups.length + 1)) trail items) := by
  have explored := attributeItems_explores more (self.attributeGroups.length + 1) trail
    (within_nil self.attributeKeys) (Nat.lt_add_one _) items
  rwa [List.append_nil] at explored

/-! ## Layers -/

/-- The keys of the groups and elements. -/
def contentKeys (self : Declarations) : List String :=
  self.groups.map (fun entry => (Reference.group entry.1).key) ++
    self.elements.map fun entry => (Reference.element entry.1).key

/-- The next layer explores whatever is entered, and so does another one. -/
structure Onward (declarations : Declarations) (trail : Trail) (next other : Layer) : Prop where
  particle : ∀ key ∈ declarations.contentKeys, key ∉ trail → ∀ written,
    declarations.Explores (trail ++ [key]) (declarations.particleReferences written)
      (next.particle (trail ++ [key]) written) (other.particle (trail ++ [key]) written)
  element : ∀ key ∈ declarations.contentKeys, key ∉ trail → ∀ written,
    declarations.Explores (trail ++ [key]) (declarations.elementReferences written)
      (next.element (trail ++ [key]) written) (other.element (trail ++ [key]) written)

theorem group_mem_contentKeys {name : String} {group : ModelGroup}
    (has : self.groups.get? name = some group) :
    (Reference.group name).key ∈ self.contentKeys :=
  List.mem_append_left _ (List.mem_map.mpr ⟨_, Table.mem_of_get? has, rfl⟩)

theorem element_mem_contentKeys {name : String} {target : Element}
    (member : (name, target) ∈ self.elements) :
    (Reference.element name).key ∈ self.contentKeys :=
  List.mem_append_right _ (List.mem_map.mpr ⟨_, member, rfl⟩)

theorem list_explores (items : List AttributeItem) :
    self.Explores trail (self.attributeReferences items) (self.attributeList trail items)
      (self.attributeList trail items) :=
  let explored := attributeList_explores 0 trail items
  ⟨rfl, explored.clear, explored.cyclic⟩

mutual

theorem complexType_explores {next other : Layer} (onward : self.Onward trail next other)
    (container : Option Container) (written : ComplexType) :
    self.Explores trail (self.typeReferences written)
      (self.complexType next trail container written)
      (self.complexType other trail container written) := by
  match written with
  | ⟨name, isAbstract, documentation, attributes, inside, extends_, simpleContent, _⟩ =>
    rw [typeReferences, complexType, complexType]
    refine (list_explores attributes).bind fun items _ => ?_
    refine (content_explores onward inside).bind fun content _ => ?_
    refine (extension_explores onward extends_).bind fun extension _ => ?_
    cases simpleContent with
    | none => exact .returns _
    | some inner =>
      simp only [pure_bind]
      exact (list_explores inner.attributes).map _
termination_by structural written

theorem content_explores {next other : Layer} (onward : self.Onward trail next other)
    (written : Option Particle) :
    self.Explores trail (self.contentReferences written) (self.content next trail written)
      (self.content other trail written) := by
  match written with
  | some inside =>
    rw [contentReferences, content, content]
    exact (particle_explores onward inside).map _
  | none =>
    rw [contentReferences, content, content]
    exact .returns _
termination_by structural written

theorem extension_explores {next other : Layer} (onward : self.Onward trail next other)
    (written : Option Extension) :
    self.Explores trail (self.extensionReferences written) (self.extension next trail written)
      (self.extension other trail written) := by
  match written with
  | some ⟨base, attributes, inside⟩ =>
    rw [extensionReferences, extension, extension]
    refine (list_explores attributes).bind fun items _ => ?_
    exact (content_explores onward inside).map _
  | none =>
    rw [extensionReferences, extension, extension]
    exact .returns _
termination_by structural written

theorem particle_explores {next other : Layer} (onward : self.Onward trail next other)
    (written : Particle) :
    self.Explores trail (self.particleReferences written) (self.particle next trail written)
      (self.particle other trail written) := by
  match written with
  | .element declaration =>
    rw [particleReferences, particle, particle]
    exact (element_explores onward declaration).map _
  | .compositor kind occurs inside =>
    rw [particleReferences, particle, particle]
    exact (parts_explores onward inside).map _
  | .any wildcard =>
    rw [particleReferences, particle, particle]
    exact .returns _
  | .group reference occurs =>
    rw [particleReferences, particle, particle]
    refine (Explores.plain lookup_ne_cyclic).bind fun group found => ?_
    have has := get?_of_lookup found
    refine Explores.enter (.group (self.names.canonical reference)) fun fresh => ?_
    rw [expansion, has]
    exact (onward.particle _ (group_mem_contentKeys has) fresh group.particle).map _
termination_by structural written

theorem parts_explores {next other : Layer} (onward : self.Onward trail next other)
    (written : List Particle) :
    self.Explores trail (self.partsReferences written) (self.parts next trail written)
      (self.parts other trail written) := by
  match written with
  | [] =>
    rw [partsReferences, parts, parts]
    exact .returns _
  | part :: rest =>
    rw [partsReferences, parts, parts]
    exact (particle_explores onward part).bind fun _ _ => (parts_explores onward rest).map _
termination_by structural written

theorem element_explores {next other : Layer} (onward : self.Onward trail next other)
    (written : Element) :
    self.Explores trail (self.elementReferences written) (self.element next trail written)
      (self.element other trail written) := by
  match written with
  | ⟨name, some reference, typeName, inline, simpleType, occurs, defaultText, fixedText,
      documentation⟩ =>
    rw [elementReferences, element, element]
    simp only [elementReference?, lookup]
    cases has : self.elements.get? (self.names.canonical reference) with
    | none =>
      refine .plain fun chain fails => ?_
      cases fails
    | some target =>
      simp only [Result.ok_bind]
      have still : (referencedElement ⟨name, some reference, typeName, inline, simpleType, occurs,
          defaultText, fixedText, documentation⟩ target
            (self.names.canonical reference)).complexType = target.complexType := rfl
      by_cases inlined : target.complexType.isSome = true
      · simp only [still, inlined, if_true]
        refine Explores.enter (.element (self.names.canonical reference)) fun fresh => ?_
        rw [expansion, has]
        exact onward.element _ (element_mem_contentKeys (Table.mem_of_get? has)) fresh
          (referencedElement _ target _)
      · simp only [still, inlined]
        exact .returns _
  | ⟨name, none, typeName, inline, simpleType, occurs, defaultText, fixedText, documentation⟩ =>
    rw [elementReferences, element, element]
    exact (inlineType_explores onward _ inline).map _
termination_by structural written

theorem inlineType_explores {next other : Layer} (onward : self.Onward trail next other)
    (container : Container) (written : Option ComplexType) :
    self.Explores trail (self.inlineReferences written)
      (self.inlineType next trail container written)
      (self.inlineType other trail container written) := by
  match written with
  | some type =>
    rw [inlineReferences, inlineType, inlineType]
    exact (complexType_explores onward (some container) type).map _
  | none =>
    rw [inlineReferences, inlineType, inlineType]
    exact .returns _
termination_by structural written

end

/-- Layers enough for every trail that goes on from here: any further ones change nothing. -/
theorem layer_onward (more count : Nat) (within : Within self.contentKeys trail)
    (enough : self.groups.length + self.elements.length ≤ count + trail.length) :
    self.Onward trail (self.layer count) (self.layer (more + count)) := by
  induction count generalizing trail with
  | zero =>
    -- What would be entered is a key too many.
    have full : ∀ key ∈ self.contentKeys, ¬key ∉ trail := by
      intro key member fresh
      have bound := (within.snoc member fresh).length_le
      simp only [contentKeys, List.length_append, List.length_map, List.length_singleton] at bound
      omega
    exact ⟨fun key member fresh => absurd fresh (full key member),
      fun key member fresh => absurd fresh (full key member)⟩
  | succ count ih =>
    have further : ∀ key ∈ self.contentKeys, key ∉ trail →
        self.Onward (trail ++ [key]) (self.layer count) (self.layer (more + count)) :=
      fun key member fresh => ih (within.snoc member fresh) (by
        rw [List.length_append, List.length_singleton]
        omega)
    exact ⟨fun key member fresh => particle_explores (further key member fresh),
      fun key member fresh => element_explores (further key member fresh)⟩

end Declarations

/-! ## Indices -/

/-- The declarations that resolution starts from, with the trail on which each of them stands and
what it refers to. -/
inductive Document.Starts (document : Document) : Trail → List Reference → Prop
  | type {type : ComplexType} (written : type ∈ document.complexTypes)
      (named : type.name.isSome = true) :
      document.Starts [] ((Declarations.ofDocument document).typeReferences type)
  | element {name : String} {element : Element}
      (declared : (name, element) ∈ (Declarations.ofDocument document).elements) :
      document.Starts [(Reference.element name).key]
        ((Declarations.ofDocument document).elementReferences element)

/-- A declaration that named types and elements refer to, directly or through others. -/
def Document.Reaches (document : Document) (reference : Reference) : Prop :=
  ∃ trail mentions, document.Starts trail mentions ∧
    ∃ first ∈ mentions, ReflTransGen (Declarations.ofDocument document).Leads first reference

/-- Any number of layers beyond those that are used gives the same results. -/
structure Document.LayersSuffice (document : Document) (declarations : Declarations) : Prop where
  attributes : ∀ more trail items,
    declarations.attributeItems (more + (declarations.attributeGroups.length + 1)) trail items =
      declarations.attributeList trail items
  types : ∀ more, ∀ type ∈ document.complexTypes,
    declarations.complexType (declarations.layer
        (more + (declarations.groups.length + declarations.elements.length + 1))) [] none type =
      declarations.complexType declarations.allLayers [] none type
  elements : ∀ more, ∀ entry ∈ declarations.elements,
    declarations.element (declarations.layer
        (more + (declarations.groups.length + declarations.elements.length + 1)))
        [(Reference.element entry.1).key] entry.2 =
      declarations.element declarations.allLayers [(Reference.element entry.1).key] entry.2

namespace Index

variable {declarations : Declarations}

theorem type_explores (more : Nat) (type : ComplexType) :
    declarations.Explores [] (declarations.typeReferences type)
      (declarations.complexType declarations.allLayers [] none type)
      (declarations.complexType (declarations.layer
        (more + (declarations.groups.length + declarations.elements.length + 1))) [] none type) :=
  Declarations.complexType_explores
    (Declarations.layer_onward more _ (Declarations.within_nil _) (by simp)) none type

theorem element_explores (more : Nat) {entry : String × Element}
    (declared : entry ∈ declarations.elements) :
    declarations.Explores [(Reference.element entry.1).key]
      (declarations.elementReferences entry.2)
      (declarations.element declarations.allLayers [(Reference.element entry.1).key] entry.2)
      (declarations.element (declarations.layer
        (more + (declarations.groups.length + declarations.elements.length + 1)))
        [(Reference.element entry.1).key] entry.2) :=
  Declarations.element_explores
    (Declarations.layer_onward more _
      (Declarations.within_singleton (Declarations.element_mem_contentKeys declared))
      (by rw [List.length_singleton]; omega))
    entry.2

theorem exists_type_of_error {types : List ComplexType} {failure : Error}
    (fails : resolveTypes declarations types = .error failure) :
    ∃ type ∈ types, type.name.isSome = true ∧
      declarations.complexType declarations.allLayers [] none type = .error failure := by
  induction types with
  | nil => cases fails
  | cons type rest ih =>
    have later (fails : resolveTypes declarations rest = .error failure) :
        ∃ other ∈ type :: rest, other.name.isSome = true ∧
          declarations.complexType declarations.allLayers [] none other = .error failure := by
      obtain ⟨other, member, found⟩ := ih fails
      exact ⟨other, List.mem_cons_of_mem _ member, found⟩
    rw [resolveTypes] at fails
    split at fails
    · exact later fails
    next name named =>
      rcases Result.bind_eq_error.mp fails with fails | ⟨_, _, fails⟩
      · exact ⟨type, List.mem_cons_self, by rw [named]; rfl, fails⟩
      · rcases Result.bind_eq_error.mp fails with fails | ⟨_, _, fails⟩
        · exact later fails
        · exact absurd fails Result.pure_ne_error

theorem resolved_of_resolveTypes {types : List ComplexType} {resolved : List (String × ComplexType)}
    (given : resolveTypes declarations types = .ok resolved) :
    ∀ type ∈ types, type.name.isSome = true →
      ∃ value, declarations.complexType declarations.allLayers [] none type = .ok value := by
  induction types generalizing resolved with
  | nil => exact fun _ member => by cases member
  | cons type rest ih =>
    rw [resolveTypes] at given
    refine List.forall_mem_cons.mpr ?_
    split at given
    next unnamed => exact ⟨fun named => by simp [unnamed] at named, ih given⟩
    next name named =>
      obtain ⟨value, valueGiven, given⟩ := Result.bind_eq_ok.mp given
      obtain ⟨others, othersGiven, _⟩ := Result.bind_eq_ok.mp given
      exact ⟨fun _ => ⟨value, valueGiven⟩, ih othersGiven⟩

theorem exists_element_of_error {elements : Table Element} {failure : Error}
    (fails : resolveElements declarations elements = .error failure) :
    ∃ entry ∈ elements, declarations.element declarations.allLayers
      [(Reference.element entry.1).key] entry.2 = .error failure := by
  induction elements with
  | nil => cases fails
  | cons entry rest ih =>
    rcases Result.bind_eq_error.mp fails with fails | ⟨_, _, fails⟩
    · exact ⟨entry, List.mem_cons_self, fails⟩
    · rcases Result.bind_eq_error.mp fails with fails | ⟨_, _, fails⟩
      · obtain ⟨other, member, found⟩ := ih fails
        exact ⟨other, List.mem_cons_of_mem _ member, found⟩
      · exact absurd fails Result.pure_ne_error

theorem resolved_of_resolveElements {elements resolved : Table Element}
    (given : resolveElements declarations elements = .ok resolved) :
    ∀ entry ∈ elements, ∃ value, declarations.element declarations.allLayers
      [(Reference.element entry.1).key] entry.2 = .ok value := by
  induction elements generalizing resolved with
  | nil => exact fun _ member => by cases member
  | cons entry rest ih =>
    obtain ⟨value, valueGiven, given⟩ := Result.bind_eq_ok.mp given
    obtain ⟨others, othersGiven, _⟩ := Result.bind_eq_ok.mp given
    exact List.forall_mem_cons.mpr ⟨⟨value, valueGiven⟩, ih othersGiven⟩

theorem layersSuffice (document : Document) (declarations : Declarations) :
    document.LayersSuffice declarations where
  attributes more trail items := (Declarations.attributeList_explores more trail items).same.symm
  types more type _ := (type_explores more type).same.symm
  elements more _ declared := (element_explores more declared).same.symm

/-- Resolution fails with a cycle only along references that come back to a declaration on the way.
If it succeeds, then no declaration that is reached leads back to itself. In either case the bounds
on the recursion are not what ends it. -/
theorem build_cycle_verdict (document : Document) :
    (∀ chain, Index.build document = .error (.cyclicReference chain) →
      ∃ trail mentions, document.Starts trail mentions ∧
        (Declarations.ofDocument document).Closes trail mentions chain) ∧
    (∀ index, Index.build document = .ok index → ∀ reference, document.Reaches reference →
      ¬TransGen (Declarations.ofDocument document).Leads reference reference) ∧
    document.LayersSuffice (Declarations.ofDocument document) := by
  refine ⟨fun chain fails => ?_, fun index built => ?_, layersSuffice _ _⟩
  · rcases Result.bind_eq_error.mp fails with fails | ⟨_, _, fails⟩
    · obtain ⟨type, written, named, fails⟩ := exists_type_of_error fails
      exact ⟨_, _, .type written named, (type_explores 0 type).cyclic fails⟩
    · rcases Result.bind_eq_error.mp fails with fails | ⟨_, _, fails⟩
      · obtain ⟨entry, declared, fails⟩ := exists_element_of_error fails
        exact ⟨_, _, .element declared, (element_explores 0 declared).cyclic fails⟩
      · exact absurd fails Result.pure_ne_error
  · obtain ⟨_, typesGiven, built⟩ := Result.bind_eq_ok.mp built
    obtain ⟨_, elementsGiven, _⟩ := Result.bind_eq_ok.mp built
    rintro reference ⟨trail, mentions, starts, first, mentioned, reaches⟩
    cases starts with
    | type written named =>
      obtain ⟨_, given⟩ := resolved_of_resolveTypes typesGiven _ written named
      exact ((type_explores 0 _).clear given first mentioned reference reaches).2
    | element declared =>
      obtain ⟨_, given⟩ := resolved_of_resolveElements elementsGiven _ declared
      exact ((element_explores 0 declared).clear given first mentioned reference reaches).2

/-- A type with a group that refers to two others, one of which refers to the other. That one
consists of the given part. -/
def sharingDocument (part : Particle) : Document :=
  { (default : Document) with
    complexTypes := [⟨some "Order", false, none, [], some (.group "Lines" .once), none, none, none⟩]
    groups := [
      ⟨"Lines", .compositor .sequence .once [.group "Line" .once, .group "Note" .once]⟩,
      ⟨"Line", .compositor .sequence .once [.group "Note" .once]⟩,
      ⟨"Note", .compositor .sequence .once [part]⟩] }

/-- A group may be shared, but not contain itself. -/
theorem build_cycle_verdict_of_sharingDocument :
    (∃ index,
      Index.build (sharingDocument (.element (plainElement (some "note") none none))) = .ok index ∧
      (sharingDocument (.element (plainElement (some "note") none none))).Reaches (.group "Note") ∧
      ¬TransGen (Declarations.ofDocument
          (sharingDocument (.element (plainElement (some "note") none none)))).Leads
        (.group "Note") (.group "Note")) ∧
    Index.build (sharingDocument (.group "Lines" .once)) =
      .error (.cyclicReference ["group Lines", "group Line", "group Note", "group Lines"]) ∧
    ∃ trail mentions, (sharingDocument (.group "Lines" .once)).Starts trail mentions ∧
      (Declarations.ofDocument (sharingDocument (.group "Lines" .once))).Closes trail mentions
        ["group Lines", "group Line", "group Note", "group Lines"] := by
  have evaluated : (Index.build
      (sharingDocument (.element (plainElement (some "note") none none)))).toOption.isSome = true ∧
      Result.failure? (Index.build (sharingDocument (.group "Lines" .once))) =
        some (.cyclicReference ["group Lines", "group Line", "group Note", "group Lines"]) := by
    decide
  obtain ⟨index, built⟩ := Result.isSome_toOption.mp evaluated.1
  have fails := Result.eq_error_of_failure? evaluated.2
  have reaches : (sharingDocument (.element (plainElement (some "note") none none))).Reaches
      (.group "Note") := by
    refine ⟨[], _, .type List.mem_cons_self rfl, .group "Lines", by decide, .single ?_⟩
    rw [Declarations.Leads]
    decide
  exact ⟨⟨index, built, reaches, (build_cycle_verdict _).2.1 index built _ reaches⟩, fails,
    (build_cycle_verdict _).1 _ fails⟩

end Index

end EntityGraph.Schema
