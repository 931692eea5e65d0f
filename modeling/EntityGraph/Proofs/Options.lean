import EntityGraph.Compile.Build
import EntityGraph.Proofs.Result
import Mathlib.Data.Option.Basic

/-!
# Options at every level

The rules of a type path come from the options of an entity, under those of its overlays and over
those of all entities. What holds of the options at every level, and survives laying options over
others, therefore holds of the rules.
-/
namespace EntityGraph

/-- All options of the settings have a property. -/
def Settings.EveryOptions (settings : Settings) (Holds : EntityOptions → Prop) : Prop :=
  Holds settings.global ∧ ∀ rules ∈ settings.entities,
    Holds rules.options ∧ ∀ overlay ∈ rules.overlays, Holds overlay.options

instance (settings : Settings) (Holds : EntityOptions → Prop) [DecidablePred Holds] :
    Decidable (settings.EveryOptions Holds) :=
  inferInstanceAs (Decidable (_ ∧ _))

/-- A property of options that survives laying options over others. -/
structure Layers (Holds : EntityOptions → Prop) : Prop where
  none : Holds .none
  layered : ∀ {primary fallback}, Holds primary → Holds fallback → Holds (.layered primary fallback)

theorem EntityOptions.mem_union {α : Type} [BEq α] {primary fallback : List α} {item : α}
    (member : item ∈ union primary fallback) : item ∈ primary ∨ item ∈ fallback := by
  unfold union at member
  induction fallback generalizing primary with
  | nil => exact .inl member
  | cons first rest ih =>
    rcases ih member with grown | later
    · dsimp only at grown
      split at grown
      · exact .inl grown
      · rcases List.mem_append.mp grown with own | added
        · exact .inl own
        · exact .inr (List.mem_singleton.mp added ▸ List.mem_cons_self)
    · exact .inr (List.mem_cons_of_mem _ later)

theorem EntityOptions.mem_targets {options : EntityOptions} {path : String} :
    path ∈ options.targets ↔ options.parentType = some path ∨
      ∃ override, (override ∈ options.oneToManyOverrides ∨ override ∈ options.manyToManyOverrides ∨
        override ∈ options.foreignKeyOverrides) ∧ override.target = path := by
  simp only [targets, List.mem_append, Option.mem_toList, List.mem_map]
  constructor
  · rintro (((parent | ⟨override, member, same⟩) | ⟨override, member, same⟩) |
      ⟨override, member, same⟩)
    · exact .inl parent
    · exact .inr ⟨override, .inl member, same⟩
    · exact .inr ⟨override, .inr (.inl member), same⟩
    · exact .inr ⟨override, .inr (.inr member), same⟩
  · rintro (parent | ⟨override, member | member | member, same⟩)
    · exact .inl (.inl (.inl parent))
    · exact .inl (.inl (.inr ⟨override, member, same⟩))
    · exact .inl (.inr ⟨override, member, same⟩)
    · exact .inr ⟨override, member, same⟩

theorem EntityOptions.mem_targets_layered {primary fallback : EntityOptions} {path : String}
    (member : path ∈ (layered primary fallback).targets) :
    path ∈ primary.targets ∨ path ∈ fallback.targets := by
  simp only [mem_targets] at member ⊢
  rcases member with parent | ⟨override, member, same⟩
  · exact ((Option.orElse_eq_some _ _ _).mp parent).imp .inl fun other => .inl other.2
  · rcases member with oneToMany | manyToMany | foreignKey
    · exact (mem_union oneToMany).imp (fun own => .inr ⟨override, .inl own, same⟩)
        fun other => .inr ⟨override, .inl other, same⟩
    · exact (mem_union manyToMany).imp (fun own => .inr ⟨override, .inr (.inl own), same⟩)
        fun other => .inr ⟨override, .inr (.inl other), same⟩
    · exact (mem_union foreignKey).imp (fun own => .inr ⟨override, .inr (.inr own), same⟩)
        fun other => .inr ⟨override, .inr (.inr other), same⟩

namespace Compile

theorem ofSettings_settings {settings : Settings} {book : RuleBook}
    (read : RuleBook.ofSettings settings = .ok book) : book.settings = settings := by
  obtain ⟨_, _, read⟩ := Result.bind_eq_ok.mp read
  obtain ⟨_, _, read⟩ := Result.bind_eq_ok.mp read
  exact (Result.pure_eq_ok.mp read) ▸ rfl

variable {Holds : EntityOptions → Prop}

/-- Overlays are put over the options of an entity one after another. -/
theorem overlaid_of_layers (layers : Layers Holds) {typePath : String}
    {overlays : List (TypeOverlay × Pattern)} {options : EntityOptions} (own : Holds options)
    (all : ∀ overlay ∈ overlays, Holds overlay.1.options) :
    Holds (overlays.foldl (fun options (overlay, pattern) =>
      if pattern.isMatch typePath then .layered overlay.options options else options) options) := by
  induction overlays generalizing options with
  | nil => exact own
  | cons overlay rest ih =>
    have others : ∀ other ∈ rest, Holds other.1.options := fun other member =>
      all other (List.mem_cons_of_mem _ member)
    refine ih ?_ others
    obtain ⟨overlay, pattern⟩ := overlay
    by_cases applies : pattern.isMatch typePath = true
    · simp only [applies, if_true]
      exact layers.layered (all (overlay, pattern) List.mem_cons_self) own
    · simpa only [applies, Bool.false_eq_true, if_false] using own

theorem entityOptions_of_layers (layers : Layers Holds) {book : RuleBook}
    (every : book.settings.EveryOptions Holds) (entity typePath : String) :
    Holds (book.entityOptions entity typePath) := by
  unfold RuleBook.entityOptions
  split
  · exact layers.none
  next rules found =>
    obtain ⟨own, overlays⟩ := every.2 rules (List.mem_of_find?_eq_some found)
    exact overlaid_of_layers layers own fun overlay member =>
      overlays overlay.1 (List.of_mem_zip member).1

theorem ofOptions_options {options : EntityOptions} {rules : FieldRules}
    (read : FieldRules.ofOptions options = .ok rules) : rules.options = options := by
  -- Thirteen lists of patterns are read, and two of substitutions.
  iterate 15 obtain ⟨_, _, read⟩ := Result.bind_eq_ok.mp read
  obtain rfl := Result.pure_eq_ok.mp read
  rfl

/-- What holds of the options at every level holds of the rules of a type path. -/
theorem rules_of_layers (layers : Layers Holds) {settings : Settings} {book : RuleBook}
    (read : RuleBook.ofSettings settings = .ok book) (every : settings.EveryOptions Holds)
    {entity typePath : String} {rules : FieldRules}
    (given : book.forType entity typePath = .ok rules) : Holds rules.options := by
  rw [ofOptions_options given]
  have everyBook : book.settings.EveryOptions Holds := ofSettings_settings read ▸ every
  exact layers.layered (entityOptions_of_layers layers everyBook entity typePath) everyBook.1

end Compile

end EntityGraph
