import EntityGraph.Proofs.Options

/-!
# Laying options over each other

Each option is combined in one of three ways: lists are joined without repeating an item, a single
value comes from above if it is set there, and the match fields come from above unless there are
none. All three are associative, so that overlays can be stacked over the options of an entity, and
those over the options of all entities, in any grouping. Joining leaves out whole records only, and
only such as come earlier; so the first record of a name is the upper one if there is one, and else
the lower one.
-/
namespace EntityGraph.EntityOptions

open Compile (FieldRules)

variable {α : Type} [BEq α] [LawfulBEq α]

/-! ## Joining lists -/

/-- A list with one item more, unless it is there already. -/
def withItem (items : List α) (item : α) : List α :=
  if items.contains item then items else items ++ [item]

omit [LawfulBEq α] in
theorem union_cons (primary : List α) (first : α) (rest : List α) :
    union primary (first :: rest) = union (withItem primary first) rest := rfl

theorem withItem_of_mem {items : List α} {item : α} (known : item ∈ items) :
    withItem items item = items := by
  simp [withItem, known]

theorem withItem_of_not_mem {items : List α} {item : α} (new : item ∉ items) :
    withItem items item = items ++ [item] := by
  simp [withItem, new]

theorem mem_withItem {items : List α} {item other : α} :
    other ∈ withItem items item ↔ other ∈ items ∨ other = item := by
  by_cases known : item ∈ items
  · rw [withItem_of_mem known]
    constructor
    · exact .inl
    · rintro (old | rfl)
      · exact old
      · exact known
  · rw [withItem_of_not_mem known, List.mem_append, List.mem_singleton]

theorem mem_union_iff {primary fallback : List α} {item : α} :
    item ∈ union primary fallback ↔ item ∈ primary ∨ item ∈ fallback := by
  induction fallback generalizing primary with
  | nil => simp [union]
  | cons first rest ih => rw [union_cons, ih, mem_withItem, List.mem_cons, or_assoc]

/-- Nothing is added that is there already. -/
theorem union_of_subset {primary fallback : List α} (subset : fallback ⊆ primary) :
    union primary fallback = primary := by
  induction fallback with
  | nil => rfl
  | cons first rest ih =>
    obtain ⟨known, others⟩ := List.cons_subset.mp subset
    rw [union_cons, withItem_of_mem known, ih others]

/-- An item that comes last below comes last. -/
theorem union_withItem (primary fallback : List α) (item : α) :
    union primary (withItem fallback item) = withItem (union primary fallback) item := by
  by_cases known : item ∈ fallback
  · rw [withItem_of_mem known, withItem_of_mem (mem_union_iff.mpr (.inr known))]
  · rw [withItem_of_not_mem known]
    exact List.foldl_append

theorem union_assoc (first second third : List α) :
    union (union first second) third = union first (union second third) := by
  -- The second list grows by the items of the third, and the joined one with it.
  induction third generalizing second with
  | nil => rfl
  | cons item rest ih => rw [union_cons, union_cons, ← union_withItem, ih]

/-- The first item that passes a test is found above, or else below. -/
theorem find?_union (test : α → Bool) (primary fallback : List α) :
    (union primary fallback).find? test = (primary.find? test <|> fallback.find? test) := by
  induction fallback generalizing primary with
  | nil => simp [union]
  | cons first rest ih =>
    rw [union_cons, ih]
    by_cases known : first ∈ primary
    · rw [withItem_of_mem known]
      by_cases passes : test first = true
      · -- An item that is left out is not the first one to pass.
        obtain ⟨item, found⟩ := Option.isSome_iff_exists.mp
          (List.find?_isSome.mpr ⟨first, known, passes⟩)
        simp [found]
      · rw [List.find?_cons_of_neg passes]
    · rw [withItem_of_not_mem known, List.find?_append]
      by_cases passes : test first = true
      · simp [passes]
      · simp [passes]

/-! ## Options -/

theorem orElse_assoc {β : Type} (first second third : Option β) :
    ((first <|> second) <|> third) = (first <|> second <|> third) := by
  cases first <;> rfl

theorem orElse_none {β : Type} (value : Option β) : (value <|> Option.none) = value := by
  cases value <;> rfl

theorem orElse_self {β : Type} (value : Option β) : (value <|> value) = value := by
  cases value <;> rfl

/-- The items from above, unless there are none. -/
def unlessEmpty {β : Type} (primary fallback : List β) : List β :=
  if primary.isEmpty then fallback else primary

theorem unlessEmpty_assoc {β : Type} (first second third : List β) :
    unlessEmpty (unlessEmpty first second) third =
      unlessEmpty first (unlessEmpty second third) := by
  cases first <;> rfl

theorem unlessEmpty_nil {β : Type} (items : List β) : unlessEmpty items [] = items := by
  cases items <;> rfl

theorem unlessEmpty_self {β : Type} (items : List β) : unlessEmpty items items = items := by
  cases items <;> rfl

theorem layered_assoc (first second third : EntityOptions) :
    layered (layered first second) third = layered first (layered second third) := by
  simp only [layered, union_assoc, orElse_assoc]
  congr 1
  exact unlessEmpty_assoc first.matchFields second.matchFields third.matchFields

theorem layered_none (options : EntityOptions) : layered options .none = options := by
  simp only [layered, none, union, List.foldl_nil, orElse_none]
  congr 1
  exact unlessEmpty_nil options.matchFields

theorem layered_self (options : EntityOptions) : layered options options = options := by
  simp only [layered, union_of_subset (List.Subset.refl _), orElse_self]
  congr 1
  exact unlessEmpty_self options.matchFields

/-- The first target of a name is the upper one if there is one. -/
theorem targetOf?_union (primary fallback : List TargetOverride) (name : String) :
    Compile.targetOf? (union primary fallback) name =
      ((primary.find? (·.field == name)) <|> fallback.find? (·.field == name)).map (·.target) := by
  rw [Compile.targetOf?, find?_union]

/-- Options can be laid over each other in any grouping; laying them over no options, or over
themselves, changes nothing. In layered options every lookup of a name gives the first record of the
name from above, or else the first one from below. -/
theorem layered_laws (first second third : EntityOptions) :
    layered (layered first second) third = layered first (layered second third) ∧
      layered first .none = first ∧ layered first first = first ∧
      ∀ (rules : FieldRules) (name : String), rules.options = layered first second →
        rules.manyToManyTarget? name =
            ((first.manyToManyOverrides.find? (·.field == name)) <|>
              second.manyToManyOverrides.find? (·.field == name)).map (·.target) ∧
          rules.oneToManyTarget? name =
            ((first.oneToManyOverrides.find? (·.field == name)) <|>
              second.oneToManyOverrides.find? (·.field == name)).map (·.target) ∧
          rules.foreignKeyTarget? name =
            ((first.foreignKeyOverrides.find? (·.field == name)) <|>
              second.foreignKeyOverrides.find? (·.field == name)).map (·.target) ∧
          rules.kind? name =
            ((first.kindOverrides.find? (·.field == name)) <|>
              second.kindOverrides.find? (·.field == name)).map (·.kind) ∧
          rules.fieldOverride? name =
            ((first.fieldOptions.find? (·.field == name)) <|>
              second.fieldOptions.find? (·.field == name)) ∧
          rules.fieldDoc? name =
            ((first.fieldDocs.find? (·.field == name)) <|>
              second.fieldDocs.find? (·.field == name)).map (·.doc) := by
  refine ⟨layered_assoc first second third, layered_none first, layered_self first, ?_⟩
  intro rules name options
  simp only [FieldRules.manyToManyTarget?, FieldRules.oneToManyTarget?,
    FieldRules.foreignKeyTarget?, FieldRules.kind?, FieldRules.fieldOverride?,
    FieldRules.fieldDoc?, options]
  refine ⟨targetOf?_union _ _ name, targetOf?_union _ _ name, targetOf?_union _ _ name, ?_, ?_, ?_⟩
  · exact congrArg _ (find?_union _ first.kindOverrides second.kindOverrides)
  · exact find?_union _ first.fieldOptions second.fieldOptions
  · exact congrArg _ (find?_union _ first.fieldDocs second.fieldDocs)

/-- The documentation of some fields, as pairs of a name and a text. -/
def documented (docs : List (String × String)) : EntityOptions :=
  { EntityOptions.none with fieldDocs := docs.map fun (field, doc) => ⟨field, doc⟩ }

theorem layered_laws_of_docs :
    ∃ rules, FieldRules.ofOptions (layered (documented [("total", "With tax")])
        (documented [("total", "Without tax"), ("tax", "In percent")])) = .ok rules ∧
      rules.fieldDoc? "total" = some "With tax" ∧ rules.fieldDoc? "tax" = some "In percent" ∧
      rules.fieldDoc? "id" = Option.none := by
  have reads : (FieldRules.ofOptions (layered (documented [("total", "With tax")])
      (documented [("total", "Without tax"), ("tax", "In percent")]))).toOption.isSome = true := by
    decide
  obtain ⟨rules, read⟩ := Result.isSome_toOption.mp reads
  have docs := fun name => ((layered_laws _ _ .none).2.2.2 rules name
    (Compile.ofOptions_options read)).2.2.2.2.2
  exact ⟨rules, read, docs "total", docs "tax", docs "id"⟩

end EntityGraph.EntityOptions
