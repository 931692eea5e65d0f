import EntityGraph.Proofs.Schema.Resolved
import Mathlib.Data.List.Flatten

/-!
# The types of an index

All types that can be met in an index are in one list, the anonymous ones included: whatever a type
of the list leads to is in the list again, and the names that it uses are in the list of names.
-/
namespace EntityGraph.Schema

/-! ## Types inside of each other -/

namespace Particle

theorem typesWithin_some (type : ComplexType) :
    typesWithin (some type) =
      type :: (contentTypes type.content ++ extensionTypes type.extension) := by
  obtain ⟨_, _, _, _, _, _, _, _⟩ := type
  rw [typesWithin]

theorem elementTypes_eq (declaration : Element) :
    elementTypes declaration = typesWithin declaration.complexType := by
  obtain ⟨_, _, _, _, _, _, _, _, _⟩ := declaration
  rw [elementTypes]

theorem mem_typesWithin (type : ComplexType) : type ∈ typesWithin (some type) := by
  rw [typesWithin_some]
  exact List.mem_cons_self

mutual

theorem elementTypes_sublist (particle : Particle) {declaration : Element}
    (member : declaration ∈ particle.elements) :
    (elementTypes declaration).Sublist particle.innerTypes := by
  match particle with
  | .element other =>
    rw [elements, List.mem_singleton] at member
    rw [member, innerTypes]
  | .compositor _ _ parts =>
    rw [elements] at member
    rw [innerTypes]
    exact elementTypes_sublist_of_parts parts member
  | .group _ _ => cases member
  | .any _ => cases member

theorem elementTypes_sublist_of_parts (parts : List Particle) {declaration : Element}
    (member : declaration ∈ elementsOf parts) :
    (elementTypes declaration).Sublist (innerTypesOf parts) := by
  match parts with
  | [] => cases member
  | part :: rest =>
    rw [elementsOf, List.mem_append] at member
    rw [innerTypesOf]
    rcases member with here | later
    · exact (elementTypes_sublist part here).trans (List.sublist_append_left _ _)
    · exact (elementTypes_sublist_of_parts rest later).trans (List.sublist_append_right _ _)

end

theorem innerTypes_sublist {type : ComplexType} {content : Particle}
    (has : content ∈ type.contents) :
    content.innerTypes.Sublist (contentTypes type.content ++ extensionTypes type.extension) := by
  rcases List.mem_append.mp has with own | added
  · rw [Option.mem_toList.mp own, contentTypes]
    exact List.sublist_append_left _ _
  · obtain ⟨extension, extends_, adds⟩ := Option.bind_eq_some_iff.mp (Option.mem_toList.mp added)
    obtain ⟨_, _, _⟩ := extension
    obtain rfl := adds
    rw [extends_, extensionTypes, contentTypes]
    exact List.sublist_append_right _ _

/-- The type of an element is inside of the type around the element, and not that type itself. -/
theorem typesWithin_sublist {type inner : ComplexType} {content : Particle}
    {declaration : Element} (has : content ∈ type.contents)
    (inside : declaration ∈ content.elements) (own : declaration.complexType = some inner) :
    (typesWithin (some inner)).Sublist
      (contentTypes type.content ++ extensionTypes type.extension) := by
  rw [← own, ← elementTypes_eq]
  exact (elementTypes_sublist content inside).trans (innerTypes_sublist has)

/-! ### Inside of inside is inside -/

mutual

theorem within_particle {type : ComplexType} (particle : Particle)
    (member : type ∈ particle.innerTypes) :
    (typesWithin (some type)).Sublist particle.innerTypes := by
  match particle with
  | .element declaration =>
    rw [innerTypes] at member ⊢
    exact within_element declaration member
  | .compositor _ _ parts =>
    rw [innerTypes] at member ⊢
    exact within_parts parts member
  | .group _ _ => cases member
  | .any _ => cases member

theorem within_parts {type : ComplexType} (parts : List Particle)
    (member : type ∈ innerTypesOf parts) :
    (typesWithin (some type)).Sublist (innerTypesOf parts) := by
  match parts with
  | [] => cases member
  | part :: rest =>
    rw [innerTypesOf] at member ⊢
    rcases List.mem_append.mp member with here | later
    · exact (within_particle part here).trans (List.sublist_append_left _ _)
    · exact (within_parts rest later).trans (List.sublist_append_right _ _)

theorem within_element {type : ComplexType} (declaration : Element)
    (member : type ∈ elementTypes declaration) :
    (typesWithin (some type)).Sublist (elementTypes declaration) := by
  match declaration with
  | ⟨_, _, _, inner, _, _, _, _, _⟩ =>
    rw [elementTypes] at member ⊢
    exact within_type inner member

theorem within_type {type : ComplexType} (outer : Option ComplexType)
    (member : type ∈ typesWithin outer) :
    (typesWithin (some type)).Sublist (typesWithin outer) := by
  match outer with
  | none => cases member
  | some ⟨_, _, _, _, content, extension, _, _⟩ =>
    rw [typesWithin] at member
    rcases List.mem_cons.mp member with rfl | inside
    · exact .refl _
    · rw [typesWithin]
      refine .cons _ ?_
      rcases List.mem_append.mp inside with own | added
      · exact (within_content content own).trans (List.sublist_append_left _ _)
      · exact (within_extension extension added).trans (List.sublist_append_right _ _)

theorem within_extension {type : ComplexType} (extension : Option Extension)
    (member : type ∈ extensionTypes extension) :
    (typesWithin (some type)).Sublist (extensionTypes extension) := by
  match extension with
  | none => cases member
  | some ⟨_, _, content⟩ =>
    rw [extensionTypes] at member ⊢
    exact within_content content member

theorem within_content {type : ComplexType} (content : Option Particle)
    (member : type ∈ contentTypes content) :
    (typesWithin (some type)).Sublist (contentTypes content) := by
  match content with
  | none => cases member
  | some particle =>
    rw [contentTypes] at member ⊢
    exact within_particle particle member

end

end Particle

/-! ## The list of all types -/

namespace Index

variable {index : Index} {type : ComplexType}

theorem typesWithin_sublist_of_complexType? {name : String}
    (found : index.complexType? name = some type) :
    (Particle.typesWithin (some type)).Sublist index.types := by
  obtain ⟨key, known⟩ := exists_key_of_complexType? found
  have entry := List.sublist_flatten_of_mem
    (List.mem_map_of_mem (f := fun entry => Particle.typesWithin (some entry.2))
      (Table.mem_of_get? known))
  exact entry.trans (List.sublist_append_left _ _)

/-- A declared type is one of the types. -/
theorem mem_types_of_complexType? {name : String} (found : index.complexType? name = some type) :
    type ∈ index.types :=
  (typesWithin_sublist_of_complexType? found).subset (Particle.mem_typesWithin type)

/-- So is everything inside of a type. -/
theorem typesWithin_sublist_types (known : type ∈ index.types) :
    (Particle.typesWithin (some type)).Sublist index.types := by
  rcases List.mem_append.mp known with declared | inline
  · obtain ⟨entry, member, inside⟩ := List.mem_flatMap.mp declared
    have list := List.sublist_flatten_of_mem
      (List.mem_map_of_mem (f := fun entry => Particle.typesWithin (some entry.2)) member)
    exact (Particle.within_type _ inside).trans (list.trans (List.sublist_append_left _ _))
  · obtain ⟨entry, member, inside⟩ := List.mem_flatMap.mp inline
    have list := List.sublist_flatten_of_mem
      (List.mem_map_of_mem (f := fun entry => Particle.elementTypes entry.2) member)
    exact (Particle.within_element _ inside).trans (list.trans (List.sublist_append_right _ _))

/-- An element of one of the types. -/
def HasElement (index : Index) (declaration : Element) : Prop :=
  ∃ type ∈ index.types, ∃ content ∈ type.contents, declaration ∈ content.elements

/-- The type of an element is a declared one, under the name that the element has for it, or stands
inside of the element. -/
theorem elementComplexType_eq_some {declaration : Element}
    (typed : index.elementComplexType declaration = .ok (some type)) :
    (∃ name, effectiveTypeName declaration = some name ∧ index.complexType? name = some type) ∨
      effectiveTypeName declaration = none ∧ declaration.complexType = some type := by
  unfold elementComplexType at typed
  split at typed
  next name named =>
    split at typed
    · cases typed
    · split at typed
      next found =>
        cases typed
        exact .inl ⟨name, named, found⟩
      next =>
        split at typed
        · cases typed
        · cases typed
  next anonymous => exact .inr ⟨anonymous, Except.ok.inj typed⟩

theorem HasElement.mem_types_of_inline {declaration : Element} (has : index.HasElement declaration)
    (own : declaration.complexType = some type) : type ∈ index.types := by
  obtain ⟨outer, known, content, part, inside⟩ := has
  have within := Particle.typesWithin_sublist part inside own
  refine (typesWithin_sublist_types known).subset ?_
  rw [Particle.typesWithin_some]
  exact List.mem_cons_of_mem _ (within.subset (Particle.mem_typesWithin type))

theorem HasElement.mem_types {declaration : Element} (has : index.HasElement declaration)
    (typed : index.elementComplexType declaration = .ok (some type)) : type ∈ index.types := by
  rcases elementComplexType_eq_some typed with ⟨_, _, found⟩ | ⟨_, own⟩
  · exact mem_types_of_complexType? found
  · exact has.mem_types_of_inline own

theorem mem_types_of_lineage {base : ComplexType} (known : type ∈ index.types)
    (above : base ∈ index.lineage type) : base ∈ index.types := by
  rcases mem_basesWithin (List.mem_reverse.mp above) with rfl | ⟨_, found⟩
  · exact known
  · exact mem_types_of_complexType? found

theorem mem_types_of_element {name : String} {declaration : Element}
    (found : index.element name = .ok declaration) (own : declaration.complexType = some type) :
    type ∈ index.types := by
  unfold Index.element at found
  split at found
  next known has =>
    obtain rfl := Except.ok.inj found
    have entry : ∃ key, index.elements.get? key = some known := by
      rcases (Option.orElse_eq_some _ _ _).mp has with written | ⟨_, canonical⟩
      · exact ⟨_, written⟩
      · exact ⟨_, canonical⟩
    obtain ⟨key, stored⟩ := entry
    refine List.mem_append_right _
      (List.mem_flatMap.mpr ⟨(key, known), Table.mem_of_get? stored, ?_⟩)
    rw [Particle.elementTypes_eq, own]
    exact Particle.mem_typesWithin type
  next => cases found

theorem mem_types_of_root {selector : String} {root : String × ComplexType}
    (selected : index.resolveRoot selector = .ok root) : root.2 ∈ index.types := by
  rcases resolveRoot_eq_ok selected with ⟨_, _, _, found, typed, _⟩ | ⟨_, _, found⟩
  · rcases elementComplexType_eq_some typed with ⟨_, _, declared⟩ | ⟨_, own⟩
    · exact mem_types_of_complexType? declared
    · exact mem_types_of_element found own
  · exact mem_types_of_complexType? found

/-! ## The list of all names -/

section Names

variable {name : String}

theorem mem_typeNames_of_own (known : type ∈ index.types) (own : type.name = some name) :
    name ∈ index.types.flatMap (·.typeNames) :=
  List.mem_flatMap.mpr ⟨type, known, by simp [ComplexType.typeNames, own]⟩

theorem mem_typeNames_of_base (known : type ∈ index.types) {extension : Extension}
    (extends_ : type.extension = some extension) :
    extension.base ∈ index.types.flatMap (·.typeNames) :=
  List.mem_flatMap.mpr ⟨type, known, by simp [ComplexType.typeNames, extends_]⟩

theorem mem_typeNames_of_attribute (known : type ∈ index.types) {declaration : Attribute}
    (has : .single declaration ∈ type.attributeItems) (named : declaration.typeName = some name) :
    name ∈ index.types.flatMap (·.typeNames) := by
  refine List.mem_flatMap.mpr ⟨type, known, ?_⟩
  have used : name ∈ type.attributeItems.filterMap AttributeItem.typeName? :=
    List.mem_filterMap.mpr ⟨_, has, named⟩
  simp [ComplexType.typeNames, used]

theorem HasElement.mem_typeNames {declaration : Element} (has : index.HasElement declaration)
    (named : effectiveTypeName declaration = some name) :
    name ∈ index.types.flatMap (·.typeNames) := by
  obtain ⟨type, known, content, part, inside⟩ := has
  refine List.mem_flatMap.mpr ⟨type, known, ?_⟩
  have used : name ∈
      (type.contents.flatMap Particle.elements).filterMap effectiveTypeName :=
    List.mem_filterMap.mpr ⟨declaration, List.mem_flatMap.mpr ⟨content, part, inside⟩, named⟩
  exact List.mem_append_right _ used

end Names

end Index

end EntityGraph.Schema
