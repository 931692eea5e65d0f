import EntityGraph.Proofs.Schema.Depth
import Mathlib.Logic.Relation

/-!
# Places beneath a type

Documenting what is beneath a type goes from one place to the next: to the base of the type there,
at the same path, and to the types of its elements. It enters no named type at two places. So what
is documented are the members of the places that have been entered, and a place is left out only
where its type, or one on the way to it, has been entered at another place.
-/
open Relation (ReflTransGen TransGen)

namespace EntityGraph.Schema

/-- A path, and the type that stands there. -/
structure Place where
  path : String
  type : ComplexType

/-- The path of an attribute of the type at a place. -/
def Place.attributePath? (place : Place) : AttributeItem → Option String
  | .single declaration => some (place.path ++ "@" ++ declaration.localName)
  | .group _ => none

/-- The elements of the type at a place. -/
def Place.elements (place : Place) : List Element :=
  place.type.contents.flatMap Particle.elements

/-- The path of an element of the type at a place. -/
def Place.elementPath (place : Place) (declaration : Element) : String :=
  place.path ++ "." ++ declaration.localName

/-- The paths of the attributes and elements of the type at a place. -/
def Place.members (place : Place) : List String :=
  place.type.attributeItems.filterMap place.attributePath? ++ place.elements.map place.elementPath

namespace Index

variable {index : Index}

/-- The place of the type of an element. -/
def innerPlace? (index : Index) (place : Place) (declaration : Element) : Option Place :=
  match index.elementComplexType declaration with
  | .ok (some inner) => some ⟨place.elementPath declaration, inner⟩
  | _ => none

/-- The place of the base of a type. -/
def basePlace? (index : Index) (place : Place) : Option Place :=
  (index.baseType? place.type).map (⟨place.path, ·⟩)

/-- The places that a place leads to: that of its base, and those of the types of its elements. -/
def nextPlaces (index : Index) (place : Place) : List Place :=
  (index.basePlace? place).toList ++ place.elements.filterMap (index.innerPlace? place)

/-- What is beneath a type is where a place of it leads. -/
theorem Beneath.exists_place {type child : ComplexType} (beneath : index.Beneath type child)
    (path : String) : ∃ next ∈ index.nextPlaces ⟨path, type⟩, next.type = child := by
  rcases beneath with base | ⟨content, has, declaration, inside, typed⟩
  · have leads : index.basePlace? ⟨path, type⟩ = some ⟨path, child⟩ := by rw [basePlace?, base]; rfl
    exact ⟨_, List.mem_append_left _ (Option.mem_toList.mpr leads), rfl⟩
  · have leads : index.innerPlace? ⟨path, type⟩ declaration =
        some ⟨Place.elementPath ⟨path, type⟩ declaration, child⟩ := by rw [innerPlace?, typed]
    have listed : declaration ∈ Place.elements ⟨path, type⟩ :=
      List.mem_flatMap.mpr ⟨content, has, inside⟩
    exact ⟨_, List.mem_append_right _ (List.mem_filterMap.mpr ⟨declaration, listed, leads⟩), rfl⟩

theorem beneath_of_mem_nextPlaces {place next : Place} (member : next ∈ index.nextPlaces place) :
    index.Beneath place.type next.type := by
  rcases List.mem_append.mp member with base | inner
  · obtain ⟨type, found, rfl⟩ := Option.map_eq_some_iff.mp (Option.mem_toList.mp base)
    exact .inl found
  · obtain ⟨declaration, listed, typed⟩ := List.mem_filterMap.mp inner
    obtain ⟨content, has, inside⟩ := List.mem_flatMap.mp listed
    unfold innerPlace? at typed
    split at typed
    next type found =>
      obtain rfl := Option.some.inj typed
      exact .inr ⟨content, has, declaration, inside, found⟩
    next => cases typed

/-- The type is beneath itself. -/
def IsRecursive (index : Index) (type : ComplexType) : Prop :=
  TransGen index.Beneath type type

/-- Types that have a rank above what is beneath them are not recursive. -/
theorem not_isRecursive_of_rank {rank : ComplexType → Nat}
    (falls : ∀ type ∈ index.types, ∀ next ∈ index.nextPlaces ⟨"", type⟩, rank next.type < rank type)
    {type : ComplexType} (known : type ∈ index.types) : ¬index.IsRecursive type := by
  have step {first second : ComplexType} (mem : first ∈ index.types)
      (beneath : index.Beneath first second) : rank second < rank first := by
    obtain ⟨next, leads, rfl⟩ := beneath.exists_place ""
    exact falls first mem next leads
  have all {last : ComplexType} (way : TransGen index.Beneath type last) :
      last ∈ index.types ∧ rank last < rank type := by
    induction way with
    | single beneath => exact ⟨beneath.mem_types known, step known beneath⟩
    | tail _ beneath ih => exact ⟨beneath.mem_types ih.1, Nat.lt_trans (step ih.1 beneath) ih.2⟩
  exact fun recursive => Nat.lt_irrefl _ (all recursive).2

/-- From a place, another one is reached. -/
def Reaches (index : Index) : Place → Place → Prop :=
  ReflTransGen fun place next => next ∈ index.nextPlaces place

/-! ## Documentation that goes on -/

/-- Documentation has gone on: some paths have been added, some places have been tried, and those
that were entered have given their members. What was tried and not entered has a name that was
entered before. -/
structure Surveys (index : Index) (paths : List String) (tried entered : List Place)
    (before after : BagDocs) : Prop where
  entries : ∀ path, path ∈ after.entries.names ↔ path ∈ before.entries.names ∨ path ∈ paths ∨
    ∃ place ∈ entered, path ∈ place.members
  visited : ∀ name, name ∈ after.visited ↔
    name ∈ before.visited ∨ ∃ place ∈ entered, place.type.name = some name
  once : (entered.filterMap (·.type.name)).Nodup
  fresh : ∀ place ∈ entered, ∀ name, place.type.name = some name → name ∉ before.visited
  tried : ∀ place ∈ tried, place ∈ entered ∨ ∃ name ∈ after.visited, place.type.name = some name
  onward : ∀ place ∈ entered, ∀ next ∈ index.nextPlaces place,
    next ∈ entered ∨ ∃ name ∈ after.visited, next.type.name = some name

namespace Surveys

variable {paths morePaths : List String} {tried moreTried entered more : List Place}
  {before middle after : BagDocs}

theorem refl (docs : BagDocs) : Surveys index [] [] [] docs docs := by
  constructor <;> simp

theorem visited_subset (surveys : Surveys index paths tried entered before after) :
    before.visited ⊆ after.visited :=
  fun name member => (surveys.visited name).mpr (.inl member)

theorem trans (first : Surveys index paths tried entered before middle)
    (second : Surveys index morePaths moreTried more middle after) :
    Surveys index (paths ++ morePaths) (tried ++ moreTried) (entered ++ more) before after where
  entries path := by
    rw [second.entries, first.entries]
    simp only [List.mem_append, or_and_right, exists_or]
    grind
  visited name := by
    rw [second.visited, first.visited]
    simp only [List.mem_append, or_and_right, exists_or, or_assoc]
  once := by
    rw [List.filterMap_append]
    refine List.nodup_append.mpr ⟨first.once, second.once, ?_⟩
    rintro name early _ late rfl
    obtain ⟨place, member, named⟩ := List.mem_filterMap.mp early
    obtain ⟨other, inMore, same⟩ := List.mem_filterMap.mp late
    exact second.fresh other inMore name same
      ((first.visited name).mpr (.inr ⟨place, member, named⟩))
  fresh place member name named := by
    rcases List.mem_append.mp member with early | late
    · exact first.fresh place early name named
    · exact fun old => second.fresh place late name named (first.visited_subset old)
  tried place member := by
    rcases List.mem_append.mp member with early | late
    · exact (first.tried place early).imp (List.mem_append_left _) fun ⟨name, known, named⟩ =>
        ⟨name, second.visited_subset known, named⟩
    · exact (second.tried place late).imp_left (List.mem_append_right _)
  onward place member next leads := by
    rcases List.mem_append.mp member with early | late
    · exact (first.onward place early next leads).imp (List.mem_append_left _)
        fun ⟨name, known, named⟩ => ⟨name, second.visited_subset known, named⟩
    · exact (second.onward place late next leads).imp_left (List.mem_append_right _)

/-- Only paths are added. -/
theorem of_put {path : String} {doc : Option String} :
    Surveys index [path] [] [] before (before.put path doc) := by
  constructor
  · intro other
    simp only [BagDocs.put, Table.mem_names_set, List.mem_singleton, List.not_mem_nil, false_and,
      exists_false, or_false]
    tauto
  · intro name
    simp [BagDocs.put]
  all_goals simp

end Surveys

/-! ## The parts of a documentation -/

section Parts

variable {place : Place} {start docs : BagDocs} {below : String → ComplexType → BagDocs → BagDocs}

theorem documentAttributes_surveys (items : List AttributeItem) (docs : BagDocs) :
    Surveys index (items.filterMap place.attributePath?) [] [] docs
      (items.foldl (documentAttribute place.path) docs) := by
  induction items generalizing docs with
  | nil => exact .refl docs
  | cons item rest ih =>
    cases item with
    | single declaration => exact Surveys.of_put.trans (ih _)
    | group reference => exact ih docs

/-- Wherever a place leads, what is done there enters places that are reached from it. -/
def SurveysBelow (index : Index) (place : Place) (start : BagDocs)
    (below : String → ComplexType → BagDocs → BagDocs) : Prop :=
  ∀ next ∈ index.nextPlaces place, ∀ later : BagDocs, start.visited ⊆ later.visited →
    ∃ entered, Surveys index [] [next] entered later (below next.path next.type later) ∧
      ∀ other ∈ entered, index.Reaches next other

/-- The entered places are reached from those that a place leads to. -/
def AreBehind (index : Index) (place : Place) (entered : List Place) : Prop :=
  ∀ other ∈ entered, ∃ next ∈ index.nextPlaces place, index.Reaches next other

theorem documentBase_surveys (surveys : index.SurveysBelow place start below) :
    ∃ entered, Surveys index [] (index.basePlace? place).toList entered start
      (index.documentBase below place.path place.type start) ∧ index.AreBehind place entered := by
  unfold documentBase
  split
  next base found =>
    have has : index.basePlace? place = some ⟨place.path, base⟩ := by
      rw [basePlace?, found]
      rfl
    have leads : ⟨place.path, base⟩ ∈ index.nextPlaces place :=
      List.mem_append_left _ (Option.mem_toList.mpr has)
    obtain ⟨entered, surveyed, reached⟩ := surveys _ leads start (List.Subset.refl _)
    rw [has]
    exact ⟨entered, surveyed, fun other member => ⟨_, leads, reached other member⟩⟩
  next missing =>
    have none : index.basePlace? place = none := by
      rw [basePlace?, missing]
      rfl
    rw [none]
    exact ⟨[], .refl start, fun _ member => by cases member⟩

theorem documentElement_surveys (surveys : index.SurveysBelow place start below)
    (grown : start.visited ⊆ docs.visited) {declaration : Element}
    (listed : declaration ∈ place.elements) :
    ∃ entered, Surveys index [place.elementPath declaration]
      (index.innerPlace? place declaration).toList entered docs
      (index.documentElement below place.path docs declaration) ∧
      index.AreBehind place entered := by
  unfold documentElement
  extract_lets part documented
  split
  next inner typed =>
    have has : index.innerPlace? place declaration = some ⟨part, inner⟩ := by
      rw [innerPlace?, typed]
      rfl
    have leads : ⟨part, inner⟩ ∈ index.nextPlaces place :=
      List.mem_append_right _ (List.mem_filterMap.mpr ⟨declaration, listed, has⟩)
    obtain ⟨entered, surveyed, reached⟩ := surveys _ leads documented grown
    rw [has]
    exact ⟨entered, Surveys.of_put.trans surveyed,
      fun other member => ⟨_, leads, reached other member⟩⟩
  next untyped =>
    have none : index.innerPlace? place declaration = none := by
      rw [innerPlace?]
      split
      next inner typed => exact absurd typed (untyped inner)
      next => rfl
    rw [none]
    exact ⟨[], .of_put, fun _ member => by cases member⟩

theorem documentElements_surveys (surveys : index.SurveysBelow place start below)
    (grown : start.visited ⊆ docs.visited) {elements : List Element}
    (listed : elements ⊆ place.elements) :
    ∃ entered, Surveys index (elements.map place.elementPath)
      (elements.filterMap (index.innerPlace? place)) entered docs
      (elements.foldl (index.documentElement below place.path) docs) ∧
      index.AreBehind place entered := by
  induction elements generalizing docs with
  | nil => exact ⟨[], .refl docs, fun _ member => by cases member⟩
  | cons declaration rest ih =>
    obtain ⟨here, others⟩ := List.cons_subset.mp listed
    obtain ⟨entered, surveyed, behind⟩ := documentElement_surveys surveys grown here
    obtain ⟨more, surveyedMore, behindMore⟩ :=
      ih (List.Subset.trans grown surveyed.visited_subset) others
    have tried : (declaration :: rest).filterMap (index.innerPlace? place) =
        (index.innerPlace? place declaration).toList ++
          rest.filterMap (index.innerPlace? place) := by
      cases has : index.innerPlace? place declaration <;> simp [has]
    rw [tried]
    exact ⟨entered ++ more, surveyed.trans surveyedMore, fun other member =>
      (List.mem_append.mp member).elim (behind other) (behindMore other)⟩

theorem documentWith_surveys (surveys : index.SurveysBelow place start below) :
    ∃ entered, Surveys index place.members (index.nextPlaces place) entered start
      (index.documentWith below place.path place.type start) ∧ index.AreBehind place entered := by
  obtain ⟨bases, surveyedBase, behindBase⟩ := documentBase_surveys surveys
  have attributes := surveyedBase.trans (@documentAttributes_surveys index place
    place.type.attributeItems _)
  obtain ⟨inner, surveyedElements, behindInner⟩ := documentElements_surveys surveys
    attributes.visited_subset (List.Subset.refl place.elements)
  have all := attributes.trans surveyedElements
  rw [List.append_nil, List.append_nil] at all
  exact ⟨bases ++ inner, all, fun other member =>
    (List.mem_append.mp member).elim (behindBase other) (behindInner other)⟩

end Parts

/-! ## Documenting a type -/

/-- A place that is entered gives its members, and all that is done there comes behind. -/
theorem Surveys.of_entered {place : Place} {entered : List Place} {docs inside after : BagDocs}
    (enters : docs.enter? place.type = some inside)
    (surveys : Surveys index place.members (index.nextPlaces place) entered inside after) :
    Surveys index [] [place] (place :: entered) docs after := by
  obtain ⟨rfl, new⟩ := enter?_eq_some enters
  have visited (name : String) : name ∈ place.type.name.toList ++ docs.visited ↔
      name ∈ docs.visited ∨ place.type.name = some name := by
    rw [List.mem_append, Option.mem_toList, Or.comm]
  constructor
  · intro path
    rw [surveys.entries]
    simp
  · intro name
    rw [surveys.visited, visited]
    simp [or_assoc]
  · cases named : place.type.name with
    | none =>
      simpa only [List.filterMap_cons, named] using surveys.once
    | some name =>
      simp only [List.filterMap_cons, named]
      refine List.nodup_cons.mpr ⟨fun known => ?_, surveys.once⟩
      obtain ⟨other, member, has⟩ := List.mem_filterMap.mp known
      exact surveys.fresh other member name has ((visited name).mpr (.inr named))
  · intro other member name named
    rcases List.mem_cons.mp member with rfl | later
    · exact new name named
    · exact fun old => surveys.fresh other later name named ((visited name).mpr (.inl old))
  · intro other member
    exact .inl (List.mem_singleton.mp member ▸ List.mem_cons_self)
  · intro other member next leads
    rcases List.mem_cons.mp member with rfl | later
    · exact (surveys.tried next leads).imp_left (List.mem_cons_of_mem _)
    · exact (surveys.onward other later next leads).imp_left (List.mem_cons_of_mem _)

theorem documentType_surveys (names : index.NamesTypes) {depth : Nat} {place : Place}
    (known : place.type ∈ index.types) {docs : BagDocs}
    (enough : index.room docs place.type < depth) :
    ∃ entered, Surveys index [] [place] entered docs
      (index.documentType depth place.path place.type docs) ∧
      (∀ other ∈ entered, index.Reaches place other) ∧
      ((∀ name, place.type.name = some name → name ∉ docs.visited) → place ∈ entered) := by
  induction depth generalizing place docs with
  | zero => cases enough
  | succ depth ih =>
    rw [documentType_succ]
    cases enters : docs.enter? place.type with
    | none =>
      obtain ⟨name, visited, named⟩ := enter?_eq_none enters
      refine ⟨[], ?_, (fun _ member => by cases member),
        fun new => absurd visited (new name named)⟩
      constructor
      case tried =>
        intro other member
        obtain rfl := List.mem_singleton.mp member
        exact .inr ⟨name, visited, named⟩
      all_goals simp
    | some inside =>
      have surveys : index.SurveysBelow place inside (index.documentType depth) := by
        intro next leads later grown
        have beneath := beneath_of_mem_nextPlaces leads
        have less : index.room later next.type < depth :=
          Nat.lt_of_lt_of_le (room_lt names known beneath enters grown) (by omega)
        obtain ⟨entered, surveyed, reached, _⟩ := ih (beneath.mem_types known) less
        exact ⟨entered, surveyed, reached⟩
      obtain ⟨entered, surveyed, behind⟩ := documentWith_surveys surveys
      refine ⟨place :: entered, .of_entered enters surveyed, fun other member => ?_,
        fun _ => List.mem_cons_self⟩
      rcases List.mem_cons.mp member with rfl | later
      · exact .refl
      · obtain ⟨next, leads, reached⟩ := behind other later
        exact .head leads reached

/-! ## Surveys -/

/-- The paths of a bag are the members of places that are reached from the first one. No named type
has been entered at two of them, and they are left only for types that have been entered at another
one. -/
structure Survey (index : Index) (start : Place) (paths : List String) where
  entered : List Place
  start_mem : start ∈ entered
  reached : ∀ place ∈ entered, index.Reaches start place
  once : (entered.filterMap (·.type.name)).Nodup
  onward : ∀ place ∈ entered, ∀ next ∈ index.nextPlaces place, next ∈ entered ∨
    ∃ other ∈ entered, ∃ name, next.type.name = some name ∧ other.type.name = some name
  paths : ∀ path, path ∈ paths ↔ ∃ place ∈ entered, path ∈ place.members

theorem exists_survey (names : index.NamesTypes) {place : Place}
    (known : place.type ∈ index.types) :
    Nonempty (Survey index place (index.bagDocs place.path place.type).names) := by
  obtain ⟨entered, surveys, reached, started⟩ :=
    documentType_surveys names known (room_lt_breadth known)
  refine ⟨⟨entered, started (by simp), reached, surveys.once, ?_, fun path => ?_⟩⟩
  · intro other member next leads
    refine (surveys.onward other member next leads).imp_right fun ⟨name, old, named⟩ => ?_
    rcases (surveys.visited name).mp old with none | ⟨earlier, inEntered, same⟩
    · cases none
    · exact ⟨earlier, inEntered, name, named, same⟩
  · exact (surveys.entries path).trans (by simp [Table.names])

/-- Of all places that are reached, the type has its name at this one only. -/
def IsSole (index : Index) (start place : Place) : Prop :=
  ∀ other, index.Reaches start other → ∀ name, place.type.name = some name →
    other.type.name = some name → other = place

/-- The place is reached, and on the way to it every type has its name at one place only. -/
def ReachesSole (index : Index) (start : Place) : Place → Prop :=
  ReflTransGen (fun place next => next ∈ index.nextPlaces place ∧ index.IsSole start next) start

/-- Such a place is entered. -/
theorem Survey.mem_entered {start place : Place} {paths : List String}
    (survey : Survey index start paths) (reaches : index.ReachesSole start place) :
    place ∈ survey.entered := by
  induction reaches with
  | refl => exact survey.start_mem
  | tail _ step ih =>
    rcases survey.onward _ ih _ step.1 with member | ⟨other, member, name, named, same⟩
    · exact member
    · exact step.2 other (survey.reached other member) name named same ▸ member

end Index

end EntityGraph.Schema
