import EntityGraph.Proofs.Order.Emission
import EntityGraph.Proofs.Result
import Mathlib.Data.List.Lex

/-!
# Cycles of requirements

Entities cannot be put into an order if two of them require each other, directly or through others.
The error names one strongly connected component of the requirements, its names in order: the one
with the smallest name, which is also the least of these lists. Requirements that lead to the entity
itself or out of the list close no cycle.
-/
namespace EntityGraph.Compile

open Relation (ReflTransGen TransGen)

/-- One entity of a list has to come after another one of the list: its parent, or the target of a
reference that may not be null. -/
def Needs (entities : List Entity) (name target : String) : Prop :=
  target ≠ name ∧ target ∈ entities.map (·.name) ∧
    ∃ entity ∈ entities, entity.name = name ∧
      (entity.parent = some target ∨
        ∃ field ∈ entity.fields, field.nullable = false ∧
          ∃ oneToOne onDelete relatedName,
            field.kind = .toOne target oneToOne onDelete relatedName)

/-- The names of a strongly connected component of two entities or more, in order. -/
structure IsCycle (entities : List Entity) (names : List String) : Prop where
  sorted : names.Pairwise (· < ·)
  several : 2 ≤ names.length
  component : ∀ name ∈ names, ∀ other, other ∈ names ↔
    ReflTransGen (Needs entities) name other ∧ ReflTransGen (Needs entities) other name

/-- The cycle that comes first when their lists of names are compared. -/
structure IsLeastCycle (entities : List Entity) (names : List String) : Prop where
  cycle : IsCycle entities names
  least : ∀ other, IsCycle entities other → names = other ∨ List.Lex (· < ·) names other

/-! ## Requirements inside the list -/

theorem requiredTarget?_eq_some_iff {field : Field} {target : String} :
    Entity.requiredTarget? field = some target ↔ field.nullable = false ∧
      ∃ oneToOne onDelete relatedName,
        field.kind = .toOne target oneToOne onDelete relatedName := by
  unfold Entity.requiredTarget?
  split
  next other oneToOne onDelete relatedName kind =>
    rw [kind]
    cases field.nullable <;> simp
  next noReference =>
    constructor
    · intro none
      cases none
    · rintro ⟨_, oneToOne, onDelete, relatedName, kind⟩
      exact absurd kind (noReference _ _ _ _)

section ByName

variable {entities : List Entity} (distinct : (entities.map (·.name)).Nodup)

include distinct

theorem needs_iff (name target : String) :
    Needs entities name target ↔
      Requires (byName entities) name target ∧ target ∈ (byName entities).names := by
  rw [(byName_names_perm distinct).mem_iff]
  constructor
  · rintro ⟨different, known, entity, member, rfl, required⟩
    refine ⟨requires_byName distinct member ?_, known⟩
    refine (Entity.mem_requiredDependencies entity target).mpr ⟨different, required.imp_right ?_⟩
    rintro ⟨field, inFields, reference⟩
    exact ⟨field, inFields, requiredTarget?_eq_some_iff.mpr reference⟩
  · rintro ⟨required, known⟩
    cases found : (byName entities).get? name with
    | none => simp [Requires, requiredOf, found] at required
    | some entity =>
      obtain ⟨member, rfl⟩ := (get?_byName_iff distinct name entity).mp found
      have listed : target ∈ entity.requiredDependencies := by
        simpa [Requires, requiredOf, found] using required
      obtain ⟨different, reasons⟩ := (Entity.mem_requiredDependencies entity target).mp listed
      refine ⟨different, known, entity, member, rfl, reasons.imp_right ?_⟩
      rintro ⟨field, inFields, reference⟩
      exact ⟨field, inFields, requiredTarget?_eq_some_iff.mp reference⟩

/-- A path to an entity of the list stays inside the list, since nothing else requires anything. -/
theorem needs_path_iff (name target : String) :
    TransGen (Needs entities) name target ↔
      TransGen (Requires (byName entities)) name target ∧ target ∈ (byName entities).names := by
  constructor
  · intro path
    constructor
    · exact TransGen.mono (fun _ _ needs => ((needs_iff distinct _ _).mp needs).1) _ _ path
    · obtain ⟨_, _, last⟩ := Relation.TransGen.tail'_iff.mp path
      exact ((needs_iff distinct _ _).mp last).2
  · rintro ⟨path, known⟩
    -- What requires something is in the list, so from its last entity back the path is inside.
    induction path with
    | single required => exact .single ((needs_iff distinct _ _).mpr ⟨required, known⟩)
    | @tail middle last _ required ih =>
      have inside : middle ∈ (byName entities).names := by
        by_contra absent
        simp [Requires, requiredOf_of_not_mem absent] at required
      exact (ih inside).tail ((needs_iff distinct _ _).mpr ⟨required, known⟩)

theorem isCyclic_iff {name : String} (known : name ∈ (byName entities).names) :
    isCyclic (byName entities) name = true ↔ TransGen (Needs entities) name name := by
  rw [isCyclic, List.contains_iff_mem, mem_requiredBelow, needs_path_iff distinct,
    and_iff_left known]

theorem mem_cycleThrough {name : String} (known : name ∈ (byName entities).names)
    (other : String) : other ∈ cycleThrough (byName entities) name ↔
      TransGen (Needs entities) name other ∧ TransGen (Needs entities) other name := by
  simp only [cycleThrough, List.mem_filter, Bool.and_eq_true, List.contains_iff_mem,
    mem_requiredBelow, needs_path_iff distinct]
  tauto

end ByName

/-! ## Components -/

variable {entities : List Entity}

theorem Needs.ne {name target : String} (needs : Needs entities name target) : target ≠ name :=
  needs.1

/-- Different names of a component lie on a common cycle. -/
theorem IsCycle.path {names : List String} (cycle : IsCycle entities names)
    {name other : String} (member : name ∈ names) (otherMember : other ∈ names)
    (different : name ≠ other) : TransGen (Needs entities) name other := by
  have reaches := ((cycle.component name member other).mp otherMember).1
  exact (Relation.reflTransGen_iff_eq_or_transGen.mp reaches).resolve_left (Ne.symm different)

theorem IsCycle.exists_other {names : List String} (cycle : IsCycle entities names)
    (name : String) : ∃ other ∈ names, other ≠ name := by
  obtain ⟨first, second, rest, rfl⟩ : ∃ first second rest, names = first :: second :: rest := by
    have several := cycle.several
    match names with
    | first :: second :: rest => exact ⟨first, second, rest, rfl⟩
  have apart : first < second := (List.pairwise_cons.mp cycle.sorted).1 second List.mem_cons_self
  by_cases same : first = name
  · exact ⟨second, by simp, same ▸ (String.ne_of_lt apart).symm⟩
  · exact ⟨first, by simp, same⟩

/-- Every name of a component leads back to itself. -/
theorem IsCycle.returns {names : List String} (cycle : IsCycle entities names) {name : String}
    (member : name ∈ names) : TransGen (Needs entities) name name := by
  obtain ⟨other, otherMember, different⟩ := cycle.exists_other name
  exact (cycle.path member otherMember different.symm).trans
    (cycle.path otherMember member different)

/-- Components that share a name are equal. -/
theorem IsCycle.eq_of_mem {names others : List String} (cycle : IsCycle entities names)
    (otherCycle : IsCycle entities others) {name : String} (member : name ∈ names)
    (otherMember : name ∈ others) : names = others := by
  have members (other : String) : other ∈ names ↔ other ∈ others := by
    rw [cycle.component name member, otherCycle.component name otherMember]
  exact eq_of_sorted cycle.sorted otherCycle.sorted members

/-- An entity that leads back to itself does so through another one, so its component is a cycle. -/
theorem isCycle_cycleThrough (distinct : (entities.map (·.name)).Nodup) {name : String}
    (known : name ∈ (byName entities).names) (cyclic : TransGen (Needs entities) name name) :
    IsCycle entities (cycleThrough (byName entities) name) := by
  have sorted : (cycleThrough (byName entities) name).Pairwise (· < ·) :=
    (Table.sorted_ofList _).filter _
  have members := mem_cycleThrough distinct known
  refine ⟨sorted, ?_, fun first inCycle other => ?_⟩
  · obtain ⟨middle, needs, back⟩ := Relation.TransGen.head'_iff.mp cyclic
    have path : TransGen (Needs entities) middle name :=
      (Relation.reflTransGen_iff_eq_or_transGen.mp back).resolve_left needs.ne.symm
    have both : [name, middle] ⊆ cycleThrough (byName entities) name := by
      simp only [List.cons_subset, List.nil_subset, and_true]
      exact ⟨(members name).mpr ⟨cyclic, cyclic⟩, (members middle).mpr ⟨.single needs, path⟩⟩
    have nodup : [name, middle].Nodup := by simpa using needs.ne.symm
    exact (List.subperm_of_subset nodup both).length_le
  · obtain ⟨forth, back⟩ := (members first).mp inCycle
    rw [members other]
    constructor
    · rintro ⟨toOther, fromOther⟩
      exact ⟨(back.trans toOther).to_reflTransGen, (fromOther.trans forth).to_reflTransGen⟩
    · rintro ⟨toOther, fromOther⟩
      exact ⟨forth.trans_left toOther, Relation.TransGen.trans_right fromOther back⟩

/-! ## The least cycle -/

/-- A smallest member of a list in order stands at its head. -/
theorem exists_eq_cons_of_least {names : List String} (sorted : names.Pairwise (· < ·))
    {name : String} (member : name ∈ names) (least : ∀ other ∈ names, ¬other < name) :
    ∃ rest, names = name :: rest := by
  cases names with
  | nil => cases member
  | cons first rest =>
    rcases List.mem_cons.mp member with rfl | behind
    · exact ⟨rest, rfl⟩
    · exact absurd ((List.pairwise_cons.mp sorted).1 name behind)
        (least first List.mem_cons_self)

theorem IsLeastCycle.unique {names others : List String} (least : IsLeastCycle entities names)
    (otherLeast : IsLeastCycle entities others) : names = others :=
  (least.least others otherLeast.cycle).elim id fun less =>
    (otherLeast.least names least.cycle).elim Eq.symm fun greater =>
      absurd greater (asymm_of (List.Lex (· < ·)) less)

/-- The cycle of the first entity that leads back to itself is the least one. -/
theorem isLeastCycle_of_requiredCycle? (distinct : (entities.map (·.name)).Nodup)
    {names : List String} (found : requiredCycle? (byName entities) = some names) :
    IsLeastCycle entities names := by
  obtain ⟨name, first, rfl⟩ := Option.map_eq_some_iff.mp found
  obtain ⟨cyclicTest, before, after, split, earlier⟩ := List.find?_eq_some_iff_append.mp first
  have known : name ∈ (byName entities).names := by rw [split]; simp
  have cyclic := (isCyclic_iff distinct known).mp cyclicTest
  have cycle := isCycle_cycleThrough distinct known cyclic
  have member : name ∈ cycleThrough (byName entities) name :=
    (mem_cycleThrough distinct known name).mpr ⟨cyclic, cyclic⟩
  -- No name on a cycle stands before the first one that was found.
  have smallest : ∀ other, TransGen (Needs entities) other other → ¬other < name := by
    intro other otherCyclic less
    have inTable : other ∈ (byName entities).names :=
      ((needs_path_iff distinct _ _).mp otherCyclic).2
    have test := (isCyclic_iff distinct inTable).mpr otherCyclic
    have order : (before ++ name :: after).Pairwise (· < ·) := split ▸ Table.sorted_ofList _
    rw [split] at inTable
    rcases List.mem_append.mp inTable with inBefore | inRest
    · simpa [test] using earlier other inBefore
    · rcases List.mem_cons.mp inRest with rfl | inAfter
      · exact String.lt_irrefl _ less
      · have behind := List.pairwise_cons.mp (List.pairwise_append.mp order).2.1
        exact String.lt_asymm (behind.1 other inAfter) less
  refine ⟨cycle, fun others otherCycle => ?_⟩
  obtain ⟨rest, list⟩ := exists_eq_cons_of_least cycle.sorted member
    fun other inCycle => smallest other (cycle.returns inCycle)
  obtain ⟨head, tail, rfl⟩ : ∃ head tail, others = head :: tail := by
    obtain ⟨other, otherMember, _⟩ := otherCycle.exists_other name
    exact List.exists_cons_of_ne_nil (List.ne_nil_of_mem otherMember)
  have notLess := smallest head (otherCycle.returns List.mem_cons_self)
  by_cases same : name = head
  · exact .inl (cycle.eq_of_mem otherCycle member (same ▸ List.mem_cons_self))
  · rw [list]
    exact .inr (.rel (Std.lt_of_le_of_ne (String.not_lt.mp notLess) same))

theorem exists_requiredCycle?_iff (distinct : (entities.map (·.name)).Nodup) :
    (∃ names, requiredCycle? (byName entities) = some names) ↔
      ∃ names, IsCycle entities names := by
  constructor
  · rintro ⟨names, found⟩
    exact ⟨names, (isLeastCycle_of_requiredCycle? distinct found).cycle⟩
  · rintro ⟨names, cycle⟩
    refine Option.ne_none_iff_exists'.mp fun none => ?_
    obtain ⟨name, member, _⟩ := cycle.exists_other ""
    have path := ((needs_path_iff distinct name name).mp (cycle.returns member)).1
    exact (requiredCycle?_eq_none_iff _).mp none name path

/-- Ordering fails with the least cycle, if there is any, and in no other way. -/
theorem emissionOrder_eq_error_iff (distinct : (entities.map (·.name)).Nodup) (failure : Error) :
    emissionOrder entities = .error failure ↔
      ∃ names, failure = .dependencyCycle names ∧ IsLeastCycle entities names := by
  rw [emissionOrder_eq]
  constructor
  · intro failed
    split at failed
    next names found =>
      cases failed
      exact ⟨names, rfl, isLeastCycle_of_requiredCycle? distinct found⟩
    next => cases failed
  · rintro ⟨names, rfl, least⟩
    obtain ⟨others, found⟩ := (exists_requiredCycle?_iff distinct).mpr ⟨names, least.cycle⟩
    rw [found, least.unique (isLeastCycle_of_requiredCycle? distinct found)]

/-- A cycle is there as soon as two entities require each other. -/
theorem exists_isCycle_iff (distinct : (entities.map (·.name)).Nodup) :
    (∃ names, IsCycle entities names) ↔
      ∃ first ∈ entities, ∃ second ∈ entities, first ≠ second ∧
        TransGen (Needs entities) first.name second.name ∧
        TransGen (Needs entities) second.name first.name := by
  have named {name : String} (known : name ∈ (byName entities).names) :
      ∃ entity ∈ entities, entity.name = name :=
    List.mem_map.mp ((byName_names_perm distinct).mem_iff.mp known)
  constructor
  · rintro ⟨names, cycle⟩
    obtain ⟨name, member, _⟩ := cycle.exists_other ""
    obtain ⟨other, otherMember, different⟩ := cycle.exists_other name
    have forth := cycle.path member otherMember different.symm
    have back := cycle.path otherMember member different
    obtain ⟨first, inFirst, rfl⟩ := named ((needs_path_iff distinct _ _).mp back).2
    obtain ⟨second, inSecond, rfl⟩ := named ((needs_path_iff distinct _ _).mp forth).2
    exact ⟨first, inFirst, second, inSecond, fun same => different (same ▸ rfl), forth, back⟩
  · rintro ⟨first, _, second, _, _, forth, back⟩
    have cyclic := forth.trans back
    exact ⟨_, isCycle_cycleThrough distinct ((needs_path_iff distinct _ _).mp cyclic).2 cyclic⟩

theorem needs_of_perm {others : List Entity} (perm : others.Perm entities) :
    Needs others = Needs entities := by
  funext name target
  simp only [Needs, perm.mem_iff, (perm.map (·.name)).mem_iff]

theorem isLeastCycle_of_perm {others : List Entity} (perm : others.Perm entities)
    (names : List String) : IsLeastCycle others names ↔ IsLeastCycle entities names := by
  have cycles (names : List String) : IsCycle others names ↔ IsCycle entities names := by
    constructor
    · rintro ⟨sorted, several, component⟩
      exact ⟨sorted, several, needs_of_perm perm ▸ component⟩
    · rintro ⟨sorted, several, component⟩
      exact ⟨sorted, several, (needs_of_perm perm).symm ▸ component⟩
  constructor
  · rintro ⟨cycle, least⟩
    exact ⟨(cycles names).mp cycle,
      fun other otherCycle => least other ((cycles other).mpr otherCycle)⟩
  · rintro ⟨cycle, least⟩
    exact ⟨(cycles names).mpr cycle,
      fun other otherCycle => least other ((cycles other).mp otherCycle)⟩

/-- Entities of different names cannot be ordered exactly if two of them require each other. The
error then names the least cycle, in whatever order the entities are given. -/
theorem ordering_fails_on_cycles (distinct : (entities.map (·.name)).Nodup) :
    ((∃ names, emissionOrder entities = .error (.dependencyCycle names)) ↔
      ∃ first ∈ entities, ∃ second ∈ entities, first ≠ second ∧
        TransGen (Needs entities) first.name second.name ∧
        TransGen (Needs entities) second.name first.name) ∧
    (∀ failure, emissionOrder entities = .error failure ↔
      ∃ names, failure = .dependencyCycle names ∧ IsLeastCycle entities names) ∧
    ∀ others, others.Perm entities → ∀ failure,
      emissionOrder others = .error failure ↔ emissionOrder entities = .error failure := by
  refine ⟨?_, emissionOrder_eq_error_iff distinct, fun others perm failure => ?_⟩
  · rw [← exists_isCycle_iff distinct, ← exists_requiredCycle?_iff distinct]
    constructor
    · rintro ⟨names, failed⟩
      obtain ⟨_, same, least⟩ := (emissionOrder_eq_error_iff distinct _).mp failed
      exact (exists_requiredCycle?_iff distinct).mpr ⟨_, least.cycle⟩
    · rintro ⟨names, found⟩
      exact ⟨names, (emissionOrder_eq_error_iff distinct _).mpr
        ⟨names, rfl, isLeastCycle_of_requiredCycle? distinct found⟩⟩
  · have otherDistinct : (others.map (·.name)).Nodup := (perm.map _).nodup_iff.mpr distinct
    rw [emissionOrder_eq_error_iff distinct, emissionOrder_eq_error_iff otherDistinct]
    simp only [isLeastCycle_of_perm perm]

/-- Two pairs of entities that require each other, one of them through a parent, and an entity that
refers to itself. -/
def crossedReferences : List Entity :=
  let referring (name target : String) : Entity :=
    { Entity.ofTypePath name name with
      fields := [Field.ofKind "other" "other" (.toOne target false .protect none)] }
  let derived (name parent : String) : Entity :=
    { Entity.ofTypePath name name with parent := some parent }
  [referring "Node" "Node", referring "Order" "Seller", referring "Seller" "Order",
    derived "Child" "Parent", referring "Parent" "Child"]

theorem ordering_fails_on_cycles_of_crossedReferences :
    emissionOrder crossedReferences = .error (.dependencyCycle ["Child", "Parent"]) ∧
      IsLeastCycle crossedReferences ["Child", "Parent"] ∧
      emissionOrder crossedReferences.reverse = .error (.dependencyCycle ["Child", "Parent"]) ∧
      ∃ first ∈ crossedReferences, ∃ second ∈ crossedReferences, first ≠ second ∧
        TransGen (Needs crossedReferences) first.name second.name ∧
        TransGen (Needs crossedReferences) second.name first.name := by
  have failed : emissionOrder crossedReferences = .error (.dependencyCycle ["Child", "Parent"]) :=
    Result.eq_error_of_failure? (by decide)
  obtain ⟨cycle, failure, reordered⟩ := ordering_fails_on_cycles
    (show (crossedReferences.map (·.name)).Nodup by decide)
  obtain ⟨names, same, least⟩ := (failure _).mp failed
  cases same
  exact ⟨failed, least, (reordered _ (List.reverse_perm _) _).mpr failed, cycle.mp ⟨_, failed⟩⟩

end EntityGraph.Compile
