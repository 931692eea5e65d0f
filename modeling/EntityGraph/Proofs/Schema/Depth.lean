import EntityGraph.Proofs.Rank
import EntityGraph.Proofs.Schema.Types

/-!
# How deep types go

The bases of a type are different types, and what is beneath a type is documented without entering
a named type twice. So neither the chain of bases nor the documentation is ever cut off: more steps,
or more depth, give the same.
-/
namespace EntityGraph.Schema

/-! ## Declared types stand for themselves -/

theorem Index.mem_resolveTypes {declarations : Declarations} {types : List ComplexType}
    {resolved : List (String × ComplexType)}
    (given : Index.resolveTypes declarations types = .ok resolved) :
    ∀ entry ∈ resolved, ∃ written,
      declarations.complexType declarations.allLayers [] none written = .ok entry.2 := by
  induction types generalizing resolved with
  | nil =>
    cases given
    exact fun _ member => by cases member
  | cons type rest ih =>
    rw [Index.resolveTypes] at given
    split at given
    · exact ih given
    next name has =>
      obtain ⟨first, firstGiven, given⟩ := Result.bind_eq_ok.mp given
      obtain ⟨others, othersGiven, given⟩ := Result.bind_eq_ok.mp given
      obtain rfl := Result.pure_eq_ok.mp given
      exact List.forall_mem_cons.mpr ⟨⟨type, firstGiven⟩, ih othersGiven⟩

namespace Index

/-- Every declared type is recognized by the name under which it is declared. -/
def NamesTypes (index : Index) : Prop :=
  ∀ key type, index.complexTypes.get? key = some type → type.ownNames = [key]

theorem build_namesTypes {document : Document} {index : Index}
    (built : Index.build document = .ok index) : index.NamesTypes := by
  intro key type found
  have carry : Demands.none.Carry (.ofDocument document) .none :=
    ⟨fun _ => trivial, fun _ _ _ _ => trivial, fun _ => trivial⟩
  have named := ((build_meets built document.meets_none carry).named found).1
  have bare : type.container = none := by
    obtain ⟨types, typesGiven, built⟩ := Result.bind_eq_ok.mp built
    obtain ⟨elements, _, built⟩ := Result.bind_eq_ok.mp built
    obtain rfl := Result.pure_eq_ok.mp built
    have member := Table.mem_of_mem_ofList (Table.mem_of_get? found)
    obtain ⟨written, resolved⟩ := mem_resolveTypes typesGiven (key, type) member
    have layers := Declarations.layer_carries
      (Declarations.ofDocument_meet document.meets_none) carry
    exact (Declarations.complexType_meets (layers _) written.meets_none resolved).2.1
  rw [ComplexType.ownNames, bare, named]
  rfl

variable {index : Index}

theorem NamesTypes.exists_key (names : index.NamesTypes) {name : String} {type : ComplexType}
    (found : index.complexType? name = some type) :
    ∃ key ∈ index.complexTypes.names, type.ownNames = [key] ∧ type.name = some key := by
  obtain ⟨key, known⟩ := exists_key_of_complexType? found
  have own := names key type known
  refine ⟨key, Table.mem_names_of_get? known, own, ?_⟩
  unfold ComplexType.ownNames at own
  split at own
  · exact Option.mem_toList.mp (own ▸ List.mem_singleton_self key)
  · cases own

/-! ## Bases -/

/-- The number of declared types that have not been seen. -/
def unseen (index : Index) (seen : List String) : Nat :=
  remaining index.complexTypes.names seen.contains

theorem unseen_lt {seen : List String} {key : String} (member : key ∈ index.complexTypes.names)
    (new : seen.contains key = false) : index.unseen (seen ++ [key]) < index.unseen seen := by
  refine remaining_lt (fun other old => ?_) member new ?_
  · simp only [List.contains_iff_mem, List.mem_append] at old ⊢
    exact .inl old
  · simp

/-- Every step goes to a declared type that has not been seen. -/
theorem basesWithin_eq (names : index.NamesTypes) {steps other : Nat} {seen : List String}
    (type : ComplexType) (enough : index.unseen seen < steps) (also : index.unseen seen < other) :
    index.basesWithin steps seen type = index.basesWithin other seen type := by
  induction steps generalizing other seen type with
  | zero => cases enough
  | succ steps ih =>
    obtain ⟨left, rfl⟩ := Nat.exists_eq_add_one.mpr (Nat.zero_lt_of_lt also)
    rw [basesWithin, basesWithin]
    cases found : index.baseType? type with
    | none => rfl
    | some base =>
      obtain ⟨extension, _, declared⟩ := Option.bind_eq_some_iff.mp found
      obtain ⟨key, member, own, _⟩ := names.exists_key declared
      simp only [own, List.any_cons, List.any_nil, Bool.or_false]
      split
      · rfl
      next new =>
        have fewer := unseen_lt member (Bool.eq_false_iff.mpr new)
        exact congrArg (type :: ·) (ih base (by omega) (by omega))

/-- The bases of a type are not cut off. -/
theorem basesWithin_of_le (names : index.NamesTypes) {steps : Nat}
    (enough : index.complexTypes.length < steps) (type : ComplexType) :
    (index.basesWithin steps type.ownNames type).reverse = index.lineage type := by
  have bound : index.unseen type.ownNames ≤ index.complexTypes.length := by
    have all : index.unseen type.ownNames ≤ index.complexTypes.names.length := remaining_le_length
    rwa [Table.names, List.length_map] at all
  exact congrArg List.reverse (basesWithin_eq names type (by omega) (by omega))

/-! ## Documentation of bags -/

/-- What is beneath a type: its base and the types of its elements. -/
def Beneath (index : Index) (type child : ComplexType) : Prop :=
  index.baseType? type = some child ∨
    ∃ content ∈ type.contents, ∃ declaration ∈ content.elements,
      index.elementComplexType declaration = .ok (some child)

/-- Documents the base of a type, given what is done for it. -/
def documentBase (index : Index) (below : String → ComplexType → BagDocs → BagDocs)
    (path : String) (type : ComplexType) (docs : BagDocs) : BagDocs :=
  match index.baseType? type with
  | some base => below path base docs
  | none => docs

/-- Documents an element, given what is done for its type. -/
def documentElement (index : Index) (below : String → ComplexType → BagDocs → BagDocs)
    (path : String) (docs : BagDocs) (declaration : Element) : BagDocs :=
  let part := path ++ "." ++ declaration.localName
  let docs := docs.put part (Member.element declaration).documentation
  match index.elementComplexType declaration with
  | .ok (some inner) => below part inner docs
  | _ => docs

/-- Documents a type that has been entered, given what is done for a type beneath it. -/
def documentWith (index : Index) (below : String → ComplexType → BagDocs → BagDocs)
    (path : String) (type : ComplexType) (docs : BagDocs) : BagDocs :=
  (type.contents.flatMap Particle.elements).foldl (index.documentElement below path)
    (type.attributeItems.foldl (documentAttribute path) (index.documentBase below path type docs))

theorem documentType_succ (depth : Nat) (path : String) (type : ComplexType) (docs : BagDocs) :
    index.documentType (depth + 1) path type docs =
      ((docs.enter? type).map (index.documentWith (index.documentType depth) path type)).getD
        docs := by
  rw [documentType]
  cases docs.enter? type <;> rfl

/-! ### Types are entered, and never left out again -/

theorem documentAttribute_visited (path : String) (items : List AttributeItem) (docs : BagDocs) :
    (items.foldl (documentAttribute path) docs).visited = docs.visited := by
  induction items generalizing docs with
  | nil => rfl
  | cons item rest ih =>
    rw [List.foldl_cons, ih]
    cases item <;> rfl

/-- Entering a type adds its name, which is new, and no entries. -/
theorem enter?_eq_some {docs entered : BagDocs} {type : ComplexType}
    (enters : docs.enter? type = some entered) :
    entered = { docs with visited := type.name.toList ++ docs.visited } ∧
      ∀ name, type.name = some name → name ∉ docs.visited := by
  unfold BagDocs.enter? at enters
  cases named : type.name with
  | none =>
    rw [named] at enters
    exact ⟨(Option.some.inj enters).symm, nofun⟩
  | some name =>
    simp only [named] at enters
    split at enters
    · cases enters
    next new =>
      refine ⟨(Option.some.inj enters).symm, fun other same => ?_⟩
      cases same
      simpa using new

/-- A type is left out only for its name. -/
theorem enter?_eq_none {docs : BagDocs} {type : ComplexType} (left : docs.enter? type = none) :
    ∃ name ∈ docs.visited, type.name = some name := by
  unfold BagDocs.enter? at left
  split at left
  next name named =>
    split at left
    next old => exact ⟨name, by simpa using old, named⟩
    next => cases left
  next => cases left

theorem visited_subset_of_enter? {docs entered : BagDocs} {type : ComplexType}
    (enters : docs.enter? type = some entered) : docs.visited ⊆ entered.visited := by
  obtain ⟨rfl, _⟩ := enter?_eq_some enters
  exact List.subset_append_right _ _

/-- Something is done beneath a type that may enter types, but leaves those that were entered. -/
def Enters (below : String → ComplexType → BagDocs → BagDocs) : Prop :=
  ∀ path type docs, docs.visited ⊆ (below path type docs).visited

theorem documentElement_visited {below : String → ComplexType → BagDocs → BagDocs}
    (enters : Enters below) (path : String) (docs : BagDocs) (declaration : Element) :
    docs.visited ⊆ (index.documentElement below path docs declaration).visited := by
  unfold documentElement
  extract_lets part documented
  split
  · exact enters _ _ documented
  · exact List.Subset.refl _

theorem documentElements_visited {below : String → ComplexType → BagDocs → BagDocs}
    (enters : Enters below) (path : String) (elements : List Element) (docs : BagDocs) :
    docs.visited ⊆ (elements.foldl (index.documentElement below path) docs).visited := by
  induction elements generalizing docs with
  | nil => exact List.Subset.refl _
  | cons declaration rest ih =>
    exact List.Subset.trans (documentElement_visited enters path docs declaration) (ih _)

theorem documentMembers_visited {below : String → ComplexType → BagDocs → BagDocs}
    (enters : Enters below) (path : String) (type : ComplexType) (docs : BagDocs) :
    docs.visited ⊆ (type.attributeItems.foldl (documentAttribute path)
      (index.documentBase below path type docs)).visited := by
  rw [documentAttribute_visited]
  unfold documentBase
  split
  · exact enters _ _ _
  · exact List.Subset.refl _

theorem documentWith_visited {below : String → ComplexType → BagDocs → BagDocs}
    (enters : Enters below) (path : String) (type : ComplexType) (docs : BagDocs) :
    docs.visited ⊆ (index.documentWith below path type docs).visited :=
  List.Subset.trans (documentMembers_visited enters path type docs)
    (documentElements_visited enters path _ _)

theorem documentType_enters (depth : Nat) : Enters (index.documentType depth) := by
  induction depth with
  | zero => exact fun _ _ _ => List.Subset.refl _
  | succ depth ih =>
    intro path type docs
    rw [documentType_succ]
    cases entered : docs.enter? type with
    | none => exact List.Subset.refl _
    | some inside =>
      exact List.Subset.trans (visited_subset_of_enter? entered)
        (documentWith_visited ih path type inside)

/-! ### What is beneath takes less room -/

/-- How deep the documentation of a type can still go: to each name that has not been entered, and
between two of them through the anonymous types inside of each other. -/
def room (index : Index) (docs : BagDocs) (type : ComplexType) : Nat :=
  remaining (index.types.filterMap (·.name)) docs.visited.contains * (index.types.length + 1)
    + if type.name.isSome then 0 else (Particle.typesWithin (some type)).length

theorem room_le (index : Index) (docs : BagDocs) {type : ComplexType} (known : type ∈ index.types) :
    index.room docs type ≤
      remaining (index.types.filterMap (·.name)) docs.visited.contains * (index.types.length + 1)
        + index.types.length := by
  refine Nat.add_le_add_left ?_ _
  split
  · exact Nat.zero_le _
  · exact (typesWithin_sublist_types known).length_le

theorem Beneath.mem_types {type child : ComplexType} (beneath : index.Beneath type child)
    (known : type ∈ index.types) : child ∈ index.types := by
  rcases beneath with base | ⟨content, has, declaration, inside, typed⟩
  · obtain ⟨extension, _, found⟩ := Option.bind_eq_some_iff.mp base
    exact mem_types_of_complexType? found
  · exact HasElement.mem_types ⟨type, known, content, has, inside⟩ typed

/-- What is beneath a type has a name, or is one of the anonymous types inside of it. -/
theorem Beneath.named_or_smaller (names : index.NamesTypes) {type child : ComplexType}
    (beneath : index.Beneath type child) :
    child.name.isSome = true ∨
      (Particle.typesWithin (some child)).length < (Particle.typesWithin (some type)).length := by
  have declared {name : String} (found : index.complexType? name = some child) :
      child.name.isSome = true := by
    obtain ⟨key, _, _, named⟩ := names.exists_key found
    rw [named]
    rfl
  rcases beneath with base | ⟨content, has, declaration, inside, typed⟩
  · obtain ⟨extension, _, found⟩ := Option.bind_eq_some_iff.mp base
    exact .inl (declared found)
  · rcases elementComplexType_eq_some typed with ⟨_, _, found⟩ | ⟨_, own⟩
    · exact .inl (declared found)
    · refine .inr ?_
      rw [Particle.typesWithin_some type, List.length_cons]
      exact Nat.lt_succ_of_le (Particle.typesWithin_sublist has inside own).length_le

theorem room_lt (names : index.NamesTypes) {type child : ComplexType} (known : type ∈ index.types)
    (beneath : index.Beneath type child) {docs entered later : BagDocs}
    (enters : docs.enter? type = some entered) (grown : entered.visited ⊆ later.visited) :
    index.room later child < index.room docs type := by
  have more (name : String) (old : docs.visited.contains name = true) :
      later.visited.contains name = true := by
    rw [List.contains_iff_mem] at old ⊢
    exact grown (visited_subset_of_enter? enters old)
  have bound := index.room_le later (beneath.mem_types known)
  obtain ⟨rfl, new⟩ := enter?_eq_some enters
  cases named : type.name with
  | some name =>
    -- One more name is entered.
    have isNew : docs.visited.contains name = false :=
      Bool.eq_false_iff.mpr fun old => new name named (List.contains_iff_mem.mp old)
    have isEntered : later.visited.contains name = true :=
      List.contains_iff_mem.mpr (grown (by simp [named]))
    have fewer : remaining (index.types.filterMap (·.name)) later.visited.contains <
        remaining (index.types.filterMap (·.name)) docs.visited.contains :=
      remaining_lt more (List.mem_filterMap.mpr ⟨type, known, named⟩) isNew isEntered
    have product := Nat.mul_le_mul_right (index.types.length + 1) (Nat.succ_le_of_lt fewer)
    rw [Nat.succ_mul] at product
    have here := Nat.le_add_right (remaining (index.types.filterMap (·.name))
      docs.visited.contains * (index.types.length + 1)) (if type.name.isSome then 0 else
        (Particle.typesWithin (some type)).length)
    unfold room
    unfold room at bound
    omega
  | none =>
    have left : remaining (index.types.filterMap (·.name)) later.visited.contains ≤
        remaining (index.types.filterMap (·.name)) docs.visited.contains := remaining_le more
    have fewer := Nat.mul_le_mul_right (index.types.length + 1) left
    have inside : 0 < (Particle.typesWithin (some type)).length :=
      List.length_pos_of_mem (Particle.mem_typesWithin type)
    unfold room
    rcases beneath.named_or_smaller names with has | smaller
    · simp only [has, named, if_true, Option.isSome_none, Bool.false_eq_true, if_false]
      omega
    · simp only [named, Option.isSome_none, Bool.false_eq_true, if_false]
      split <;> omega

/-! ### More depth gives the same -/

section Congruence

variable {below other : String → ComplexType → BagDocs → BagDocs} {path : String}

theorem documentElements_congr (enters : Enters below) {start docs : BagDocs}
    {elements : List Element} (grown : start.visited ⊆ docs.visited)
    (same : ∀ declaration ∈ elements, ∀ inner,
      index.elementComplexType declaration = .ok (some inner) →
        ∀ part (later : BagDocs), start.visited ⊆ later.visited →
          below part inner later = other part inner later) :
    elements.foldl (index.documentElement below path) docs =
      elements.foldl (index.documentElement other path) docs := by
  induction elements generalizing docs with
  | nil => rfl
  | cons declaration rest ih =>
    have first : index.documentElement below path docs declaration =
        index.documentElement other path docs declaration := by
      unfold documentElement
      extract_lets part documented
      split
      next inner typed =>
        exact same declaration List.mem_cons_self inner typed part documented grown
      next => rfl
    rw [List.foldl_cons, List.foldl_cons, ← first]
    exact ih (List.Subset.trans grown (documentElement_visited enters path docs declaration))
      fun further member => same further (List.mem_cons_of_mem _ member)

theorem documentWith_congr (enters : Enters below) {type : ComplexType} {docs : BagDocs}
    (same : ∀ child, index.Beneath type child → ∀ part (later : BagDocs),
      docs.visited ⊆ later.visited → below part child later = other part child later) :
    index.documentWith below path type docs = index.documentWith other path type docs := by
  have base :
      index.documentBase below path type docs = index.documentBase other path type docs := by
    unfold documentBase
    split
    next base found => exact same base (.inl found) path docs (List.Subset.refl _)
    next => rfl
  unfold documentWith
  rw [← base]
  refine documentElements_congr enters (documentMembers_visited enters path type docs)
    fun declaration member inner typed => ?_
  obtain ⟨content, has, inside⟩ := List.mem_flatMap.mp member
  exact same inner (.inr ⟨content, has, declaration, inside, typed⟩)

end Congruence

theorem documentType_eq (names : index.NamesTypes) {depth other : Nat} {path : String}
    {type : ComplexType} (known : type ∈ index.types) {docs : BagDocs}
    (enough : index.room docs type < depth) (also : index.room docs type < other) :
    index.documentType depth path type docs = index.documentType other path type docs := by
  induction depth generalizing other path type docs with
  | zero => cases enough
  | succ depth ih =>
    obtain ⟨left, rfl⟩ := Nat.exists_eq_add_one.mpr (Nat.zero_lt_of_lt also)
    rw [documentType_succ, documentType_succ]
    cases enters : docs.enter? type with
    | none => rfl
    | some entered =>
      refine documentWith_congr (documentType_enters depth) fun child beneath part later grown => ?_
      have less := room_lt names known beneath enters grown
      exact ih (beneath.mem_types known) (by omega) (by omega)

/-- At the start there is enough room. -/
theorem room_lt_breadth {type : ComplexType} (known : type ∈ index.types) :
    index.room ⟨[], []⟩ type < (index.types.length + 1) * (index.types.length + 1) := by
  have room := index.room_le ⟨[], []⟩ known
  have all : remaining (index.types.filterMap (·.name))
      (⟨[], []⟩ : BagDocs).visited.contains ≤ index.types.length :=
    Nat.le_trans remaining_le_length (List.length_filterMap_le _ _)
  have product := Nat.mul_le_mul_right (index.types.length + 1) all
  rw [Nat.add_mul _ _ (index.types.length + 1)]
  omega

/-- The documentation of everything beneath a type is not cut off. -/
theorem documentType_of_le (names : index.NamesTypes) {type : ComplexType}
    (known : type ∈ index.types) {depth : Nat}
    (enough : (index.types.length + 1) * (index.types.length + 1) ≤ depth) (path : String) :
    (index.documentType depth path type ⟨[], []⟩).entries = index.bagDocs path type := by
  have bound := room_lt_breadth known
  exact congrArg BagDocs.entries (documentType_eq names known (by omega) bound)

end Index

end EntityGraph.Schema
