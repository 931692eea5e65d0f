import EntityGraph.Entity.Basic
import EntityGraph.Proofs.Lists
import Mathlib.Tactic.Tauto

/-!
# Dependencies of entities

An entity is closed if its dependencies contain everything that its parent link and its references
lead to. Closing an entity makes it so, and what an entity requires is a part of that.
-/
namespace EntityGraph

@[simp] theorem mem_insertDistinct (text other : String) (texts : List String) :
    other ∈ insertDistinct text texts ↔ other = text ∨ other ∈ texts := by
  induction texts with
  | nil => simp [insertDistinct]
  | cons first rest ih =>
    simp only [insertDistinct]
    split
    · simp
    · split
      next same => simp [same]
      · simp only [List.mem_cons, ih]
        tauto

theorem mem_foldl_insertDistinct (more known : List String) (other : String) :
    other ∈ more.foldl (fun known name => insertDistinct name known) known ↔
      other ∈ more ∨ other ∈ known := by
  induction more generalizing known with
  | nil => simp
  | cons name rest ih =>
    rw [List.foldl_cons, ih, mem_insertDistinct, List.mem_cons]
    tauto

theorem sorted_insertDistinct {texts : List String} (sorted : texts.Pairwise (· < ·))
    (text : String) : (insertDistinct text texts).Pairwise (· < ·) := by
  induction texts with
  | nil => simp [insertDistinct]
  | cons first rest ih =>
    obtain ⟨above, sortedRest⟩ := List.pairwise_cons.mp sorted
    simp only [insertDistinct]
    split
    next smaller => exact List.pairwise_cons_cons_iff_of_trans.mpr ⟨smaller, sorted⟩
    next notSmaller =>
      split
      next => exact sorted
      next different =>
        have larger : first < text :=
          Std.lt_of_le_of_ne (String.not_lt.mp notSmaller) (Ne.symm different)
        refine List.pairwise_cons.mpr ⟨fun other member => ?_, ih sortedRest⟩
        rcases (mem_insertDistinct text other rest).mp member with rfl | member
        · exact larger
        · exact above other member

theorem sorted_foldl_insertDistinct {known : List String} (sorted : known.Pairwise (· < ·))
    (more : List String) :
    (more.foldl (fun known name => insertDistinct name known) known).Pairwise (· < ·) := by
  induction more generalizing known with
  | nil => exact sorted
  | cons name rest ih => exact ih (sorted_insertDistinct sorted name)

/-- Inserting texts that are in order gives the same list. -/
theorem foldl_insertDistinct_of_sorted {texts : List String} (sorted : texts.Pairwise (· < ·)) :
    texts.foldl (fun known name => insertDistinct name known) [] = texts :=
  eq_of_sorted (sorted_foldl_insertDistinct .nil texts) sorted fun text => by
    rw [mem_foldl_insertDistinct]
    simp

namespace Entity

/-- The dependencies are in order, each of them once. -/
def IsSorted (entity : Entity) : Prop := entity.dependencies.Pairwise (· < ·)

theorem IsSorted.close {entity : Entity} (sorted : entity.IsSorted) : entity.close.IsSorted :=
  sorted_foldl_insertDistinct sorted _

theorem IsSorted.nodup {entity : Entity} (sorted : entity.IsSorted) : entity.dependencies.Nodup :=
  List.Pairwise.imp String.ne_of_lt sorted

/-- The dependencies contain the parent and the target of every reference. -/
def IsClosed (entity : Entity) : Prop := ∀ name ∈ entity.referredNames, name ∈ entity.dependencies

theorem mem_referredNames (entity : Entity) (name : String) :
    name ∈ entity.referredNames ↔
      (∃ field ∈ entity.fields, field.kind.dependency? = some name) ∨
        entity.parent = some name := by
  simp [referredNames, Option.mem_toList]

theorem close_isClosed (entity : Entity) : entity.close.IsClosed := by
  intro name member
  have referred : name ∈ entity.referredNames := member
  exact (mem_foldl_insertDistinct _ _ _).mpr (Or.inl referred)

theorem requiredTarget?_dependency {field : Field} {target : String}
    (required : requiredTarget? field = some target) : field.kind.dependency? = some target := by
  unfold requiredTarget? at required
  split at required
  next kind =>
    split at required
    · cases required
    · rw [kind]
      exact required
  · cases required

theorem mem_requiredDependencies (entity : Entity) (name : String) :
    name ∈ entity.requiredDependencies ↔
      name ≠ entity.name ∧
        (entity.parent = some name ∨
          ∃ field ∈ entity.fields, requiredTarget? field = some name) := by
  simp only [requiredDependencies, List.mem_filter, decide_eq_true_eq, mem_foldl_insertDistinct,
    List.mem_append, List.mem_filterMap, Option.mem_toList, List.not_mem_nil, or_false]
  tauto

/-- What a closed entity requires is among its dependencies. -/
theorem IsClosed.required_mem {entity : Entity} (closed : entity.IsClosed) {name : String}
    (required : name ∈ entity.requiredDependencies) : name ∈ entity.dependencies := by
  obtain ⟨_, parent | ⟨field, member, target⟩⟩ := (mem_requiredDependencies entity name).mp required
  · exact closed name ((mem_referredNames entity name).mpr (Or.inr parent))
  · exact closed name ((mem_referredNames entity name).mpr
      (Or.inl ⟨field, member, requiredTarget?_dependency target⟩))

end Entity

end EntityGraph
