import EntityGraph.Proofs.Build.Lawful
import EntityGraph.Proofs.Schema.Demands
import EntityGraph.Proofs.Table

/-!
# Resolved schemas

What is asked of the names in a document carries over to what resolution makes of them, at any
depth. No group is left, and every type inside an element knows the element around it. A declared
type stands under its own name. The types and members of a resolved index are closed under
everything that leads from one to another.

Resolution leaves no reference behind either, except for references that declared attributes make
themselves: such a declaration is put in the place of a reference to it as it is.
-/
namespace EntityGraph.Schema

/-- Demands on what is written, and on what resolution makes of it. Of all references only those of
declared attributes are kept, where they are referred to. -/
structure Demands.Carry (declarations : Declarations) (before after : Demands) : Prop where
  type : ∀ {name}, before.type name → after.type (declarations.names.canonical name)
  reference : ∀ entry ∈ declarations.attributes,
    ∀ {name}, entry.2.reference = some name → after.reference name
  inner : ∀ {type : ComplexType}, type.container.isSome = true → after.inner type

/-! ## Resolution -/

namespace Declarations

/-- Every declaration meets the demands. -/
structure Meet (declarations : Declarations) (demands : Demands) : Prop where
  attributeGroups : ∀ entry ∈ declarations.attributeGroups,
    AttributesMeet demands entry.2.attributes
  groups : ∀ entry ∈ declarations.groups, entry.2.particle.Meets demands
  elements : ∀ entry ∈ declarations.elements, entry.2.Meets demands
  attributes : ∀ entry ∈ declarations.attributes, entry.2.Meets demands

theorem ofDocument_meet {demands : Demands} {document : Document} (meets : document.Meets demands) :
    (ofDocument document).Meet demands := by
  constructor
  · intro entry member
    obtain ⟨group, written, rfl⟩ := List.mem_map.mp (Table.mem_of_mem_ofList member)
    exact meets.attributeGroups group written
  · intro entry member
    obtain ⟨group, written, rfl⟩ := List.mem_map.mp (Table.mem_of_mem_ofList member)
    exact meets.groups group written
  · intro entry member
    obtain ⟨declaration, written, given⟩ := List.mem_filterMap.mp (Table.mem_of_mem_ofList member)
    obtain ⟨_, _, rfl⟩ := Option.map_eq_some_iff.mp given
    exact meets.elements declaration written
  · intro entry member
    obtain ⟨declaration, written, given⟩ := List.mem_filterMap.mp (Table.mem_of_mem_ofList member)
    obtain ⟨_, _, rfl⟩ := Option.map_eq_some_iff.mp given
    exact meets.attributes declaration written

theorem get?_of_lookup {α : Type} {table : Table α} {name : String} {value : α}
    (found : lookup table name = .ok value) : table.get? name = some value := by
  unfold lookup at found
  split at found
  next has => exact Except.ok.inj found ▸ has
  next => cases found

theorem mem_of_lookup {α : Type} {table : Table α} {name : String} {value : α}
    (found : lookup table name = .ok value) : (name, value) ∈ table :=
  Table.mem_of_get? (get?_of_lookup found)

variable {self : Declarations} {before after : Demands}

theorem typeName_carries (carry : before.Carry self after) {written : Option String}
    (meets : ∀ name, written = some name → before.type name) :
    ∀ name, written.map self.names.canonical = some name → after.type name := by
  intro name has
  obtain ⟨given, same, rfl⟩ := Option.map_eq_some_iff.mp has
  exact carry.type (meets given same)

theorem attributeDeclaration_meets (meet : self.Meet before) (carry : before.Carry self after)
    {site declaration : Attribute} (written : site.Meets before)
    (given : self.attributeDeclaration site = .ok declaration) : declaration.Meets after := by
  -- A reference stands for the declaration that it leads to, which is resolved in its place.
  have named : ∃ declared : Attribute, declared.Meets before ∧
      (∀ name, declared.reference = some name → after.reference name) ∧
      declaration = { declared with
        typeName := declared.typeName.map self.names.canonical
        simpleType := declared.simpleType.map self.simpleType } := by
    unfold attributeDeclaration at given
    extract_lets proceed at given
    split at given
    next reference _ =>
      obtain ⟨declared, target, given⟩ := Result.bind_eq_ok.mp given
      obtain ⟨found, has, target⟩ := Result.bind_eq_ok.mp target
      have declaredAs := mem_of_lookup has
      refine ⟨declared, ?_, ?_, (Result.pure_eq_ok.mp given).symm⟩
      · obtain rfl := Result.pure_eq_ok.mp target
        exact meet.attributes _ declaredAs
      · obtain rfl := Result.pure_eq_ok.mp target
        exact fun name => carry.reference _ declaredAs
    next own =>
      refine ⟨site, written, fun name has => ?_, (Result.pure_eq_ok.mp given).symm⟩
      rw [own] at has
      cases has
  obtain ⟨declared, ⟨type, _⟩, reference, rfl⟩ := named
  exact ⟨typeName_carries carry type, reference⟩

theorem attributesWith_meet (meet : self.Meet before) (carry : before.Carry self after)
    {members : String → Result (List AttributeItem)}
    (inside : ∀ reference found, members reference = .ok found → AttributesMeet after found)
    {items resolved : List AttributeItem} (written : AttributesMeet before items)
    (given : self.attributesWith members items = .ok resolved) :
    AttributesMeet after resolved := by
  fun_induction attributesWith self members items generalizing resolved with
  | case1 =>
    cases given
    intro item member
    cases member
  | case2 declared rest ih =>
    obtain ⟨first, firstGiven, given⟩ := Result.bind_eq_ok.mp given
    obtain ⟨others, othersGiven, given⟩ := Result.bind_eq_ok.mp given
    obtain rfl := Result.pure_eq_ok.mp given
    obtain ⟨here, later⟩ := List.forall_mem_cons.mp written
    exact List.forall_mem_cons.mpr
      ⟨attributeDeclaration_meets meet carry here firstGiven, ih later othersGiven⟩
  | case3 reference rest ih =>
    obtain ⟨found, foundGiven, given⟩ := Result.bind_eq_ok.mp given
    obtain ⟨others, othersGiven, given⟩ := Result.bind_eq_ok.mp given
    obtain rfl := Result.pure_eq_ok.mp given
    obtain ⟨_, later⟩ := List.forall_mem_cons.mp written
    exact List.forall_mem_append.mpr ⟨inside reference found foundGiven, ih later othersGiven⟩

theorem attributeItems_meet (meet : self.Meet before) (carry : before.Carry self after)
    {layers : Nat} {trail : Trail} {items resolved : List AttributeItem}
    (written : AttributesMeet before items)
    (given : self.attributeItems layers trail items = .ok resolved) :
    AttributesMeet after resolved := by
  induction layers generalizing trail items resolved with
  | zero => exact attributesWith_meet meet carry (fun _ _ found => by cases found) written given
  | succ layers ih =>
    refine attributesWith_meet meet carry (fun reference found foundGiven => ?_) written given
    obtain ⟨group, has, foundGiven⟩ := Result.bind_eq_ok.mp foundGiven
    obtain ⟨inner, _, foundGiven⟩ := Result.bind_eq_ok.mp foundGiven
    exact ih (meet.attributeGroups _ (mem_of_lookup has)) foundGiven

/-- The next layer resolves whatever meets the first demands to something that meets the others, and
so do the declarations that it leads to. -/
structure LayerCarries (declarations : Declarations) (before after : Demands) (next : Layer) :
    Prop where
  meet : declarations.Meet before
  carry : before.Carry declarations after
  particle : ∀ {trail written resolved}, written.Meets before →
    next.particle trail written = .ok resolved → resolved.Meets after
  element : ∀ {trail written resolved}, written.Meets before →
    next.element trail written = .ok resolved → resolved.Meets after

theorem LayerCarries.attributeList {next : Layer} (layer : LayerCarries self before after next)
    {trail : Trail} {items resolved : List AttributeItem} (written : AttributesMeet before items)
    (given : self.attributeList trail items = .ok resolved) : AttributesMeet after resolved :=
  attributeItems_meet layer.meet layer.carry written given

theorem inPlaceOf_meets {occurs : Occurs} {particle : Particle} (meets : particle.Meets after) :
    (inPlaceOf occurs particle).Meets after := by
  unfold inPlaceOf
  split
  · rw [Particle.Meets] at meets ⊢
    exact meets
  · rw [Particle.Meets, PartsMeet, PartsMeet]
    exact ⟨meets, trivial⟩

mutual

/-- A resolved type has the canonical form of its name, and its container. -/
theorem complexType_meets {next : Layer} (layer : LayerCarries self before after next)
    {trail : Trail} {container : Option Container} {written resolved : ComplexType}
    (meets : written.Meets before)
    (given : self.complexType next trail container written = .ok resolved) :
    resolved.Meets after ∧ resolved.container = container ∧
      resolved.name = written.name.map self.names.canonical := by
  match written with
  | ⟨name, isAbstract, documentation, attributes, content, extension, simpleContent, _⟩ =>
    rw [ComplexType.Meets] at meets
    obtain ⟨own, attributesMeet, contentMeets, extensionMeets, simpleMeets⟩ := meets
    rw [complexType] at given
    obtain ⟨items, itemsGiven, given⟩ := Result.bind_eq_ok.mp given
    obtain ⟨inside, insideGiven, given⟩ := Result.bind_eq_ok.mp given
    obtain ⟨extended, extendedGiven, given⟩ := Result.bind_eq_ok.mp given
    -- Only simple content may be missing; what it wraps is resolved by itself.
    have wrapped : ∃ wrapped : Option SimpleContent,
        resolved = ⟨name.map self.names.canonical, isAbstract, documentation, items, inside,
          extended, wrapped, container⟩ ∧
        ∀ inner, wrapped = some inner → inner.Meets after := by
      split at given
      · obtain ⟨innerItems, innerGiven, given⟩ := Result.bind_eq_ok.mp given
        obtain rfl := Result.pure_eq_ok.mp given
        refine ⟨_, rfl, ?_⟩
        rintro _ ⟨⟩
        obtain ⟨base, innerMeet⟩ := simpleMeets _ rfl
        exact ⟨layer.carry.type base, layer.attributeList innerMeet innerGiven⟩
      · obtain rfl := Result.pure_eq_ok.mp given
        exact ⟨none, rfl, nofun⟩
    obtain ⟨wrapped, rfl, simple⟩ := wrapped
    refine ⟨?_, rfl, rfl⟩
    rw [ComplexType.Meets]
    exact ⟨typeName_carries layer.carry own, layer.attributeList attributesMeet itemsGiven,
      content_meets layer contentMeets insideGiven,
      extension_meets layer extensionMeets extendedGiven, simple⟩
termination_by structural written

theorem content_meets {next : Layer} (layer : LayerCarries self before after next)
    {trail : Trail} {written resolved : Option Particle} (meets : ContentMeets before written)
    (given : self.content next trail written = .ok resolved) : ContentMeets after resolved := by
  match written with
  | some particle =>
    rw [ContentMeets] at meets
    rw [content] at given
    obtain ⟨inside, insideGiven, given⟩ := Result.bind_eq_ok.mp given
    obtain rfl := Result.pure_eq_ok.mp given
    rw [ContentMeets]
    exact particle_meets layer meets insideGiven
  | none =>
    rw [content] at given
    cases given
    rw [ContentMeets]
    trivial
termination_by structural written

theorem extension_meets {next : Layer} (layer : LayerCarries self before after next)
    {trail : Trail} {written resolved : Option Extension} (meets : ExtensionMeets before written)
    (given : self.extension next trail written = .ok resolved) : ExtensionMeets after resolved := by
  match written with
  | some ⟨base, attributes, content⟩ =>
    rw [ExtensionMeets] at meets
    obtain ⟨baseMeets, attributesMeet, contentMeets⟩ := meets
    rw [extension] at given
    obtain ⟨items, itemsGiven, given⟩ := Result.bind_eq_ok.mp given
    obtain ⟨inside, insideGiven, given⟩ := Result.bind_eq_ok.mp given
    obtain rfl := Result.pure_eq_ok.mp given
    rw [ExtensionMeets]
    exact ⟨layer.carry.type baseMeets, layer.attributeList attributesMeet itemsGiven,
      content_meets layer contentMeets insideGiven⟩
  | none =>
    rw [extension] at given
    cases given
    rw [ExtensionMeets]
    trivial
termination_by structural written

theorem particle_meets {next : Layer} (layer : LayerCarries self before after next)
    {trail : Trail} {written resolved : Particle} (meets : written.Meets before)
    (given : self.particle next trail written = .ok resolved) : resolved.Meets after := by
  match written with
  | .element declaration =>
    rw [Particle.Meets] at meets
    rw [particle] at given
    obtain ⟨inside, insideGiven, given⟩ := Result.bind_eq_ok.mp given
    obtain rfl := Result.pure_eq_ok.mp given
    rw [Particle.Meets]
    exact element_meets layer meets insideGiven
  | .compositor kind occurs parts =>
    rw [Particle.Meets] at meets
    rw [particle] at given
    obtain ⟨inside, insideGiven, given⟩ := Result.bind_eq_ok.mp given
    obtain rfl := Result.pure_eq_ok.mp given
    rw [Particle.Meets]
    exact parts_meet layer meets insideGiven
  | .any wildcard =>
    rw [particle] at given
    cases given
    rw [Particle.Meets]
    trivial
  | .group reference occurs =>
    rw [particle] at given
    obtain ⟨group, has, given⟩ := Result.bind_eq_ok.mp given
    obtain ⟨inner, _, given⟩ := Result.bind_eq_ok.mp given
    obtain ⟨inside, insideGiven, given⟩ := Result.bind_eq_ok.mp given
    obtain rfl := Result.pure_eq_ok.mp given
    -- What a group leads to is resolved in the next layer, which has been dealt with.
    exact inPlaceOf_meets (layer.particle (layer.meet.groups _ (mem_of_lookup has)) insideGiven)
termination_by structural written

theorem parts_meet {next : Layer} (layer : LayerCarries self before after next)
    {trail : Trail} {written resolved : List Particle} (meets : PartsMeet before written)
    (given : self.parts next trail written = .ok resolved) : PartsMeet after resolved := by
  match written with
  | [] =>
    rw [parts] at given
    cases given
    rw [PartsMeet]
    trivial
  | part :: rest =>
    rw [PartsMeet] at meets
    rw [parts] at given
    obtain ⟨first, firstGiven, given⟩ := Result.bind_eq_ok.mp given
    obtain ⟨others, othersGiven, given⟩ := Result.bind_eq_ok.mp given
    obtain rfl := Result.pure_eq_ok.mp given
    rw [PartsMeet]
    exact ⟨particle_meets layer meets.1 firstGiven, parts_meet layer meets.2 othersGiven⟩
termination_by structural written

theorem element_meets {next : Layer} (layer : LayerCarries self before after next)
    {trail : Trail} {written resolved : Element} (meets : written.Meets before)
    (given : self.element next trail written = .ok resolved) : resolved.Meets after := by
  match written with
  | ⟨name, some reference, typeName, complexType, simpleType, occurs, defaultText, fixedText,
      documentation⟩ =>
    rw [element] at given
    obtain ⟨target, has, given⟩ := Result.bind_eq_ok.mp given
    obtain ⟨typeMeets, _, inlineMeets⟩ :=
      Element.meets_iff.mp (layer.meet.elements _ (mem_of_lookup has))
    extract_lets declared at given
    split at given
    · obtain ⟨inner, _, given⟩ := Result.bind_eq_ok.mp given
      refine layer.element ?_ given
      rw [Element.meets_iff]
      exact ⟨typeMeets, (fun _ has => by cases has), inlineMeets⟩
    next plain =>
      obtain rfl := Result.pure_eq_ok.mp given
      rw [Element.Meets, Option.not_isSome_iff_eq_none.mp plain, InlineMeets]
      exact ⟨typeName_carries layer.carry typeMeets, (fun _ has => by cases has), trivial⟩
  | ⟨name, none, typeName, complexType, simpleType, occurs, defaultText, fixedText,
      documentation⟩ =>
    rw [Element.Meets] at meets
    obtain ⟨typeMeets, _, inlineMeets⟩ := meets
    rw [element] at given
    obtain ⟨inside, insideGiven, given⟩ := Result.bind_eq_ok.mp given
    obtain rfl := Result.pure_eq_ok.mp given
    rw [Element.Meets]
    exact ⟨typeName_carries layer.carry typeMeets, nofun,
      inlineType_meets layer inlineMeets insideGiven⟩
termination_by structural written

theorem inlineType_meets {next : Layer} (layer : LayerCarries self before after next)
    {trail : Trail} {container : Container} {written resolved : Option ComplexType}
    (meets : InlineMeets before written)
    (given : self.inlineType next trail container written = .ok resolved) :
    InlineMeets after resolved := by
  match written with
  | some type =>
    rw [InlineMeets] at meets
    rw [inlineType] at given
    obtain ⟨inside, insideGiven, given⟩ := Result.bind_eq_ok.mp given
    obtain rfl := Result.pure_eq_ok.mp given
    obtain ⟨insideMeets, contained, _⟩ := complexType_meets layer meets.2 insideGiven
    rw [InlineMeets]
    exact ⟨layer.carry.inner (by rw [contained]; rfl), insideMeets⟩
  | none =>
    rw [inlineType] at given
    cases given
    rw [InlineMeets]
    trivial
termination_by structural written

end

theorem layer_carries (meet : self.Meet before) (carry : before.Carry self after)
    (count : Nat) : LayerCarries self before after (self.layer count) := by
  induction count with
  | zero => exact ⟨meet, carry, (fun _ given => by cases given), fun _ given => by cases given⟩
  | succ count ih => exact ⟨meet, carry, particle_meets ih, element_meets ih⟩

end Declarations

/-! ## Indices -/

/-- Declared types stand under their own names, and everything in an index meets the demands. -/
structure Index.Meets (demands : Demands) (index : Index) : Prop where
  named : ∀ {key type}, index.complexTypes.get? key = some type →
    type.name = some key ∧ type.Meets demands
  elements : ∀ {key declaration}, index.elements.get? key = some declaration →
    declaration.Meets demands

section Build

variable {declarations : Declarations} {before after : Demands}

theorem Index.resolveTypes_meet (meet : declarations.Meet before)
    (carry : before.Carry declarations after) {types : List ComplexType}
    (written : ∀ type ∈ types, type.Meets before) {resolved : List (String × ComplexType)}
    (given : Index.resolveTypes declarations types = .ok resolved) :
    ∀ entry ∈ resolved, entry.2.name = some entry.1 ∧ entry.2.Meets after := by
  induction types generalizing resolved with
  | nil =>
    cases given
    nofun
  | cons type rest ih =>
    obtain ⟨here, later⟩ := List.forall_mem_cons.mp written
    rw [Index.resolveTypes] at given
    split at given
    · exact ih later given
    next name has =>
      obtain ⟨first, firstGiven, given⟩ := Result.bind_eq_ok.mp given
      obtain ⟨others, othersGiven, given⟩ := Result.bind_eq_ok.mp given
      obtain rfl := Result.pure_eq_ok.mp given
      obtain ⟨meets, _, named⟩ :=
        Declarations.complexType_meets (Declarations.layer_carries meet carry _) here firstGiven
      exact List.forall_mem_cons.mpr ⟨⟨by rw [named, has]; rfl, meets⟩, ih later othersGiven⟩

theorem Index.resolveElements_meet (meet : declarations.Meet before)
    (carry : before.Carry declarations after) {elements resolved : Table Element}
    (written : ∀ entry ∈ elements, entry.2.Meets before)
    (given : Index.resolveElements declarations elements = .ok resolved) :
    ∀ entry ∈ resolved, entry.2.Meets after := by
  induction elements generalizing resolved with
  | nil =>
    cases given
    nofun
  | cons entry rest ih =>
    obtain ⟨here, later⟩ := List.forall_mem_cons.mp written
    obtain ⟨name, declaration⟩ := entry
    obtain ⟨first, firstGiven, given⟩ := Result.bind_eq_ok.mp given
    obtain ⟨others, othersGiven, given⟩ := Result.bind_eq_ok.mp given
    obtain rfl := Result.pure_eq_ok.mp given
    have meets :=
      Declarations.element_meets (Declarations.layer_carries meet carry _) here firstGiven
    exact List.forall_mem_cons.mpr ⟨meets, ih later othersGiven⟩

end Build

theorem Index.build_namespaces {document : Document} {index : Index}
    (built : Index.build document = .ok index) : index.namespaces = document.namespaces := by
  obtain ⟨_, _, built⟩ := Result.bind_eq_ok.mp built
  obtain ⟨_, _, built⟩ := Result.bind_eq_ok.mp built
  obtain rfl := Result.pure_eq_ok.mp built
  rfl

/-- An index meets what the demands on its document carry over to. -/
theorem Index.build_meets {document : Document} {index : Index} {before after : Demands}
    (built : Index.build document = .ok index) (written : document.Meets before)
    (carry : before.Carry (.ofDocument document) after) : index.Meets after := by
  have meet := Declarations.ofDocument_meet written
  obtain ⟨types, typesGiven, built⟩ := Result.bind_eq_ok.mp built
  obtain ⟨elements, elementsGiven, built⟩ := Result.bind_eq_ok.mp built
  obtain rfl := Result.pure_eq_ok.mp built
  constructor
  · intro key type found
    exact Index.resolveTypes_meet meet carry written.complexTypes typesGiven (key, type)
      (Table.mem_of_mem_ofList (Table.mem_of_get? found))
  · intro key declaration found
    exact Index.resolveElements_meet meet carry meet.elements elementsGiven (key, declaration)
      (Table.mem_of_get? found)

namespace Index

variable {index : Index}

/-- A type is declared in an index, or meets the demand on types inside elements. -/
def HasPlace (index : Index) (demands : Demands) (type : ComplexType) : Prop :=
  demands.inner type ∨ ∃ key, index.complexTypes.get? key = some type

theorem exists_key_of_complexType? {name : String} {type : ComplexType}
    (found : index.complexType? name = some type) :
    ∃ key, index.complexTypes.get? key = some type := by
  rcases (Option.orElse_eq_some _ _ _).mp found with written | ⟨_, canonical⟩
  · exact ⟨_, written⟩
  · exact ⟨_, canonical⟩

theorem mem_basesWithin {steps : Nat} {seen : List String} {type base : ComplexType}
    (member : base ∈ index.basesWithin steps seen type) :
    base = type ∨ ∃ name, index.complexType? name = some base := by
  induction steps generalizing seen type with
  | zero => exact .inl (List.mem_singleton.mp member)
  | succ steps ih =>
    rw [basesWithin] at member
    split at member
    next next_ found =>
      -- A base that has been seen before ends the chain.
      split at member
      · exact .inl (List.mem_singleton.mp member)
      · rcases List.mem_cons.mp member with same | further
        · exact .inl same
        · rcases ih further with rfl | named
          · obtain ⟨extension, _, found⟩ := Option.bind_eq_some_iff.mp found
            exact .inr ⟨_, found⟩
          · exact .inr named
    next => exact .inl (List.mem_singleton.mp member)

variable {demands : Demands}

/-- A declared element meets the demands, under whichever of its names it is found. -/
theorem Meets.element (meets : index.Meets demands) {name : String} {declaration : Element}
    (found : index.element name = .ok declaration) : declaration.Meets demands := by
  unfold Index.element at found
  split at found
  next known has =>
    obtain rfl := Except.ok.inj found
    rcases (Option.orElse_eq_some _ _ _).mp has with written | ⟨_, canonical⟩
    · exact meets.elements written
    · exact meets.elements canonical
  next => cases found

/-- A root is the type of an element, under its own name or that of the element, or a declared type
under the canonical form of its name. -/
theorem resolveRoot_eq_ok {selector : String} {root : String × ComplexType}
    (selected : index.resolveRoot selector = .ok root) :
    (∃ name declaration, Text.dropStart? "/" selector = some name ∧
      index.element name = .ok declaration ∧
      index.elementComplexType declaration = .ok (some root.2) ∧
      root.1 = root.2.name.getD (index.canonical name)) ∨
    Text.dropStart? "/" selector = none ∧ root.1 = index.canonical selector ∧
      index.complexType? root.1 = some root.2 := by
  unfold resolveRoot at selected
  split at selected
  next name selects =>
    obtain ⟨declaration, found, selected⟩ := Result.bind_eq_ok.mp selected
    obtain ⟨inside, typed, selected⟩ := Result.bind_eq_ok.mp selected
    split at selected
    · cases selected
    next type =>
      obtain rfl := Result.pure_eq_ok.mp selected
      exact .inl ⟨name, declaration, selects, found, typed, rfl⟩
  next other =>
    obtain ⟨type, found, selected⟩ := Result.bind_eq_ok.mp selected
    obtain rfl := Result.pure_eq_ok.mp selected
    exact .inr ⟨other, rfl, Compile.complexType?_of_complexType found⟩

/-- What a compilation can meet in an index. -/
def Meets.vocabulary (meets : index.Meets demands) : Compile.Vocabulary index where
  type type := type.Meets demands ∧ index.HasPlace demands type
  member
    | .element declaration => declaration.Meets demands
    | .attrib declaration => declaration.Meets demands
  named found := by
    obtain ⟨key, declared⟩ := exists_key_of_complexType? found
    exact ⟨(meets.named declared).2, .inr ⟨key, declared⟩⟩
  inline met has := ⟨(met.inline has).2, .inl (met.inline has).1⟩
  lineage met member := by
    rcases mem_basesWithin (List.mem_reverse.mp member) with rfl | ⟨name, found⟩
    · exact met
    · obtain ⟨key, declared⟩ := exists_key_of_complexType? found
      exact ⟨(meets.named declared).2, .inr ⟨key, declared⟩⟩
  element met has member := met.1.element has _ member
  attrib met member := met.1.attrib _ member

/-- The type of a root may be met. -/
theorem Meets.root (meets : index.Meets demands) {selector : String} {root : String × ComplexType}
    (selected : index.resolveRoot selector = .ok root) : meets.vocabulary.type root.2 := by
  rcases resolveRoot_eq_ok selected with ⟨_, _, _, found, typed, _⟩ | ⟨_, _, found⟩
  · exact meets.vocabulary.elementType (meets.element found) typed
  · exact meets.vocabulary.named found

end Index

/-! ## References that are left -/

/-- No group at all, and no reference but those that are kept. -/
def Demands.resolved (kept : String → Prop) : Demands :=
  { Demands.none with reference := kept, group := fun _ => False }

/-- A declared attribute is itself a reference to the name. -/
def Document.DeclaresReference (document : Document) (name : String) : Prop :=
  ∃ declared ∈ document.attributes, declared.name.isSome ∧ declared.reference = some name

theorem mem_ofDocument_attributes {document : Document} {entry : String × Attribute}
    (member : entry ∈ (Declarations.ofDocument document).attributes) :
    entry.2 ∈ document.attributes ∧ entry.2.name.isSome := by
  obtain ⟨declared, written, given⟩ := List.mem_filterMap.mp (Table.mem_of_mem_ofList member)
  obtain ⟨name, own, rfl⟩ := Option.map_eq_some_iff.mp given
  exact ⟨written, Option.isSome_of_mem own⟩

theorem Index.build_meets_resolved {document : Document} {index : Index} {kept : String → Prop}
    (built : Index.build document = .ok index)
    (keeps : ∀ name, document.DeclaresReference name → kept name) :
    index.Meets (.resolved kept) := by
  refine Index.build_meets built document.meets_none ⟨fun _ => trivial, ?_, fun _ => trivial⟩
  intro entry member name has
  obtain ⟨written, named⟩ := mem_ofDocument_attributes member
  exact keeps name ⟨entry.2, written, named, has⟩

/-- In a resolved index no group is left anywhere, and no reference but those that declared
attributes make. If no declared attribute is a reference, none is left. -/
theorem Index.build_leaves_no_reference {document : Document} {index : Index}
    (built : Index.build document = .ok index) :
    index.Meets (.resolved document.DeclaresReference) ∧
      ((∀ declared ∈ document.attributes, declared.name.isSome → declared.reference = none) →
        index.Meets (.resolved fun _ => False)) := by
  refine ⟨Index.build_meets_resolved built fun _ declares => declares, fun plain => ?_⟩
  refine Index.build_meets_resolved built ?_
  rintro name ⟨declared, member, named, has⟩
  rw [plain declared member named] at has
  cases has

/-- An attribute with the given name, reference and type. -/
def plainAttribute (name reference typeName : Option String) : Attribute :=
  ⟨name, reference, typeName, none, .optional, none, none, none⟩

/-- An element with the given name, reference and type. -/
def plainElement (name reference typeName : Option String) : Element :=
  ⟨name, reference, typeName, none, none, .once, none, none, none⟩

/-- An order that consists of references: to attributes, through a group of them, to a group of
lines and to a note. -/
def orderDocument (created : Attribute) : Document :=
  { (default : Document) with
    complexTypes := [⟨some "Order", false, none, [.group "Audit"],
      some (.compositor .sequence .once
        [.group "Lines" .once, .element (plainElement none (some "note") none)]),
      none, none, none⟩]
    elements := [plainElement (some "note") none (some "xs:string")]
    attributes := [created, plainAttribute (some "changed") none (some "xs:date")]
    attributeGroups := [⟨"Audit", [.single (plainAttribute none (some "created") none)]⟩]
    groups := [⟨"Lines", .compositor .sequence .once
      [.element (plainElement (some "line") none (some "xs:string"))]⟩] }

theorem Index.build_leaves_no_reference_of_orderDocument :
    ∃ index,
      Index.build (orderDocument (plainAttribute (some "created") none (some "xs:date"))) =
        .ok index ∧ index.Meets (.resolved fun _ => False) := by
  have evaluated : (Index.build (orderDocument
      (plainAttribute (some "created") none (some "xs:date")))).toOption.isSome = true := by
    decide
  obtain ⟨index, built⟩ := Result.isSome_toOption.mp evaluated
  exact ⟨index, built, (Index.build_leaves_no_reference built).2 (by decide)⟩

/-- A reference to a declared attribute that is a reference itself is still one after resolution. -/
theorem Index.build_leaves_reference_of_declared_attribute :
    ∃ index type,
      Index.build (orderDocument (plainAttribute (some "created") (some "changed") none)) =
        .ok index ∧
      index.complexType? "Order" = some type ∧
      type.attributes = [.single (plainAttribute (some "created") (some "changed") none)] ∧
      ¬index.Meets (.resolved fun _ => False) := by
  have evaluated : (Index.build (orderDocument
      (plainAttribute (some "created") (some "changed") none))).toOption.map (fun index =>
        (index.complexTypes.get? "Order").map (·.attributes)) =
      some (some [.single (plainAttribute (some "created") (some "changed") none)]) := by
    decide +kernel
  obtain ⟨index, built, seen⟩ := Result.exists_ok_of_map evaluated
  obtain ⟨type, declared, attributes⟩ := Option.map_eq_some_iff.mp seen
  refine ⟨index, type, built, by rw [Index.complexType?, Index.lookup?, declared]; rfl,
    attributes, fun meets => ?_⟩
  have inside := (ComplexType.meets_iff.mp (meets.named declared).2).2.1
  rw [attributes] at inside
  exact (inside _ List.mem_cons_self).2 "changed" rfl

end EntityGraph.Schema
