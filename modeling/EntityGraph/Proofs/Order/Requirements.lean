import EntityGraph.Compile.Order
import EntityGraph.Proofs.Table
import Mathlib.Logic.Relation
import Mathlib.Tactic.Tauto

/-!
# What an entity requires

`requiredBelow` collects requirements round by round. Every round but the last brings in another
entity of the table, so as many rounds as there are entities give the transitive closure of the
requirement relation.
-/
namespace EntityGraph.Compile

open Relation (ReflTransGen TransGen)

/-- One entity has to come after another. -/
def Requires (entities : Table Entity) (name target : String) : Prop :=
  target ∈ requiredOf entities name

theorem requiredOf_of_not_mem {entities : Table Entity} {name : String}
    (absent : name ∉ entities.names) : requiredOf entities name = [] := by
  simp [requiredOf, (Table.get?_eq_none_iff entities name).mpr absent]

/-! ## Joining -/

theorem joinNames_append (known more : List String) :
    ∃ added, joinNames known more = known ++ added := by
  unfold joinNames
  induction more generalizing known with
  | nil => exact ⟨[], by simp⟩
  | cons name rest ih =>
    rw [List.foldl_cons]
    split
    · exact ih known
    · obtain ⟨added, eq⟩ := ih (known ++ [name])
      exact ⟨name :: added, by rw [eq, List.append_assoc, List.singleton_append]⟩

theorem mem_joinNames (known more : List String) (name : String) :
    name ∈ joinNames known more ↔ name ∈ known ∨ name ∈ more := by
  unfold joinNames
  induction more generalizing known with
  | nil => simp
  | cons other rest ih =>
    rw [List.foldl_cons, ih]
    split
    next present =>
      have member : other ∈ known := by simpa using present
      simp only [List.mem_cons]
      constructor
      · tauto
      · rintro (old | rfl | new)
        · exact Or.inl old
        · exact Or.inl member
        · exact Or.inr new
    · simp only [List.mem_append, List.mem_cons, List.not_mem_nil, or_false]
      tauto

/-- A list that joining does not make longer contains the other one. -/
theorem subset_of_length_joinNames {known more : List String}
    (same : (joinNames known more).length = known.length) : more ⊆ known := by
  obtain ⟨added, eq⟩ := joinNames_append known more
  have none : added = [] := by
    rw [eq, List.length_append] at same
    exact List.length_eq_zero_iff.mp (by omega)
  intro name member
  have joined : name ∈ joinNames known more := (mem_joinNames known more name).mpr (Or.inr member)
  rwa [eq, none, List.append_nil] at joined

/-! ## The closure -/

/-- Whatever the names require is among them. -/
def RequirementClosed (entities : Table Entity) (names : List String) : Prop :=
  ∀ name ∈ names, ∀ target, Requires entities name target → target ∈ names

theorem requiredClosure_sound (entities : Table Entity) (steps : Nat) (names : List String)
    {target : String} (member : target ∈ requiredClosure entities steps names) :
    ∃ name ∈ names, ReflTransGen (Requires entities) name target := by
  induction steps generalizing names with
  | zero => exact ⟨target, member, .refl⟩
  | succ steps ih =>
    simp only [requiredClosure] at member
    split at member
    · exact ⟨target, member, .refl⟩
    · obtain ⟨middle, joined, path⟩ := ih _ member
      rcases (mem_joinNames _ _ _).mp joined with old | new
      · exact ⟨middle, old, path⟩
      · obtain ⟨name, present, required⟩ := List.mem_flatMap.mp new
        exact ⟨name, present, .head required path⟩

theorem subset_requiredClosure (entities : Table Entity) (steps : Nat) (names : List String) :
    names ⊆ requiredClosure entities steps names := by
  induction steps generalizing names with
  | zero => exact List.Subset.refl _
  | succ steps ih =>
    simp only [requiredClosure]
    split
    · exact List.Subset.refl _
    · exact fun name member => ih _ ((mem_joinNames _ _ _).mpr (Or.inl member))

/-- The entities of a table that have not been reached. -/
def unreached (entities : Table Entity) (names : List String) : List String :=
  entities.names.filter (!names.contains ·)

theorem unreached_sublist (entities : Table Entity) {names more : List String}
    (subset : names ⊆ more) : (unreached entities more).Sublist (unreached entities names) := by
  apply List.monotone_filter_right
  intro name absent
  simp only [Bool.not_eq_true', List.contains_eq_mem, decide_eq_false_iff_not] at absent ⊢
  exact fun member => absent (subset member)

theorem mem_unreached (entities : Table Entity) (names : List String) (name : String) :
    name ∈ unreached entities names ↔ name ∈ entities.names ∧ name ∉ names := by
  simp [unreached]

/-- Reaching another entity leaves fewer unreached. -/
theorem unreached_length_lt (entities : Table Entity) {names more : List String}
    (subset : names ⊆ more) {name : String} (known : name ∈ entities.names) (old : name ∉ names)
    (new : name ∈ more) : (unreached entities more).length < (unreached entities names).length := by
  have sublist := unreached_sublist entities subset
  apply Nat.lt_of_le_of_ne sublist.length_le
  intro same
  have member := (mem_unreached entities names name).mpr ⟨known, old⟩
  rw [← sublist.eq_of_length same] at member
  exact ((mem_unreached entities more name).mp member).2 new

theorem requiredClosure_of_closed (entities : Table Entity) (steps : Nat) {names : List String}
    (closed : RequirementClosed entities names) :
    requiredClosure entities steps names = names := by
  cases steps with
  | zero => rfl
  | succ steps =>
    have nothingNew : names.flatMap (requiredOf entities) ⊆ names := by
      intro target member
      obtain ⟨name, present, required⟩ := List.mem_flatMap.mp member
      exact closed name present target required
    have same : ∀ more, more ⊆ names → joinNames names more = names := by
      intro more subset
      unfold joinNames
      induction more with
      | nil => rfl
      | cons name rest ih =>
        have present : names.contains name = true := by simpa using subset List.mem_cons_self
        rw [List.foldl_cons, if_pos present]
        exact ih fun other member => subset (List.mem_cons_of_mem _ member)
    simp only [requiredClosure, same _ nothingNew, if_true]

/-- If a round brings in no further entity of the table, nothing is left for the next one. -/
theorem closed_join_of_no_entity {entities : Table Entity} {names : List String}
    (noEntity : ∀ name ∈ names.flatMap (requiredOf entities),
      name ∈ entities.names → name ∈ names) :
    RequirementClosed entities (joinNames names (names.flatMap (requiredOf entities))) := by
  intro name member target required
  have known : name ∈ entities.names := by
    by_contra absent
    simp [Requires, requiredOf_of_not_mem absent] at required
  have old : name ∈ names := by
    rcases (mem_joinNames _ _ _).mp member with old | new
    · exact old
    · exact noEntity name new known
  exact (mem_joinNames _ _ _).mpr (Or.inr (List.mem_flatMap.mpr ⟨name, old, required⟩))

/-- Enough rounds give a closed list. -/
theorem requiredClosure_closed (entities : Table Entity) (steps : Nat) (names : List String)
    (enough : (unreached entities names).length < steps) :
    RequirementClosed entities (requiredClosure entities steps names) := by
  induction steps generalizing names with
  | zero => omega
  | succ steps ih =>
    simp only [requiredClosure]
    split
    next same =>
      intro name member target required
      exact subset_of_length_joinNames same (List.mem_flatMap.mpr ⟨name, member, required⟩)
    · -- A round that reaches another entity leaves fewer unreached; after any other round the
      -- list is closed, and stays as it is.
      by_cases reaches : ∃ name ∈ names.flatMap (requiredOf entities),
          name ∈ entities.names ∧ name ∉ names
      · obtain ⟨name, new, known, old⟩ := reaches
        apply ih
        have fewer := unreached_length_lt entities
          (fun other member => (mem_joinNames names _ other).mpr (Or.inl member)) known old
          ((mem_joinNames names _ name).mpr (Or.inr new))
        omega
      · have closed : RequirementClosed entities
            (joinNames names (names.flatMap (requiredOf entities))) := by
          apply closed_join_of_no_entity
          intro name new known
          by_contra old
          exact reaches ⟨name, new, known, old⟩
        rw [requiredClosure_of_closed entities steps closed]
        exact closed

theorem requiredBelow_closed (entities : Table Entity) (name : String) :
    RequirementClosed entities (requiredBelow entities name) := by
  unfold requiredBelow
  -- The first round starts with the requirements of one entity. Unless none of them is an entity,
  -- there are fewer unreached ones than entities.
  by_cases reaches : ∃ target ∈ requiredOf entities name, target ∈ entities.names
  · obtain ⟨target, required, known⟩ := reaches
    apply requiredClosure_closed
    have fewer := unreached_length_lt entities (List.nil_subset _) known List.not_mem_nil required
    have bound : (unreached entities []).length ≤ entities.length := by
      have named : entities.names.length = entities.length := List.length_map _
      exact named ▸ List.length_filter_le _ _
    omega
  · have closed : RequirementClosed entities (requiredOf entities name) := by
      intro target member other required
      have absent : target ∉ entities.names := fun known => reaches ⟨target, member, known⟩
      simp [Requires, requiredOf_of_not_mem absent] at required
    rw [requiredClosure_of_closed entities _ closed]
    exact closed

/-- `requiredBelow` is the transitive closure of the requirement relation. -/
theorem mem_requiredBelow (entities : Table Entity) (name target : String) :
    target ∈ requiredBelow entities name ↔ TransGen (Requires entities) name target := by
  constructor
  · intro member
    obtain ⟨middle, required, path⟩ := requiredClosure_sound entities _ _ member
    exact .head' required path
  · intro path
    induction path with
    | single required => exact subset_requiredClosure entities _ _ required
    | tail _ required ih => exact requiredBelow_closed entities name _ ih _ required

theorem requiresAny_iff (entities : Table Entity) (waiting : List String) (name : String) :
    requiresAny entities waiting name = true ↔
      ∃ target ∈ waiting, TransGen (Requires entities) name target := by
  simp only [requiresAny, List.any_eq_true, List.contains_iff_mem, mem_requiredBelow]
  exact ⟨fun ⟨target, path, member⟩ => ⟨target, member, path⟩,
    fun ⟨target, member, path⟩ => ⟨target, path, member⟩⟩

/-- If no cycle is found, nothing requires itself. -/
theorem requiredCycle?_eq_none_iff (entities : Table Entity) :
    requiredCycle? entities = none ↔ ∀ name, ¬TransGen (Requires entities) name name := by
  simp only [requiredCycle?, Option.map_eq_none_iff, List.find?_eq_none, isCyclic,
    List.contains_iff_mem, mem_requiredBelow]
  constructor
  · intro acyclic name cycle
    -- Only entities of the table are looked at, but nothing else requires anything.
    have known : name ∈ entities.names := by
      by_contra absent
      obtain ⟨middle, required, _⟩ := Relation.TransGen.head'_iff.mp cycle
      simp [Requires, requiredOf_of_not_mem absent] at required
    exact acyclic name known cycle
  · exact fun acyclic name _ => acyclic name

end EntityGraph.Compile
