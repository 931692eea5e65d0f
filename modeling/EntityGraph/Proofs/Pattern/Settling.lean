import EntityGraph.Pattern.Rules
import EntityGraph.Proofs.Result
import Mathlib.Data.Finset.Card
import Mathlib.Dynamics.PeriodicPts.Defs
import Mathlib.Logic.Relation

/-!
# Names that settle

A substitution list makes one pass more than it has rules, unless a pass changes nothing. Each pass
that does is the work of one rule. If none of them takes effect twice, a pass is left over in which
nothing happens, and the name that comes out is stable. A rule that works on what it has made itself
can use up all passes; then another renaming goes on where the first one stopped, unless the name
has come round to where it was.
-/
open Relation (TransGen)

namespace EntityGraph.SubstitutionList

variable (list : SubstitutionList)

/-- The name after one pass. -/
def next (name : String) : String := (list.step? name).getD name

/-- No rule changes the name. -/
def IsStable (name : String) : Prop := Function.IsFixedPt list.next name

instance (name : String) : Decidable (list.IsStable name) :=
  inferInstanceAs (Decidable (list.next name = name))

/-- The number of passes of a renaming. -/
def passes : Nat := list.rules.length + 1

/-- The place of the rule that changes a name. -/
def changer? (name : String) : Option Nat :=
  if list.IsStable name then none else list.rules.findIdx? (·.pattern.isMatch name)

/-- The first rule changes some name to one that the second rule changes. -/
def Feeds (first second : Nat) : Prop :=
  ∃ name, list.changer? name = some first ∧ list.changer? (list.next name) = some second

/-! ## Passes -/

variable {list}

/-- Stopping at a stable name makes no difference to going on. -/
theorem settle_eq_iterate (count : Nat) (name : String) :
    list.settle count name = list.next^[count] name := by
  induction count generalizing name with
  | zero => rfl
  | succ count ih =>
    rw [settle, Function.iterate_succ_apply]
    cases stepped : list.step? name with
    | none =>
      have stable : list.next name = name := by simp [next, stepped]
      rw [stable, Function.iterate_fixed stable]
    | some other =>
      have changed : list.next name = other := by simp [next, stepped]
      rw [changed]
      by_cases same : other = name
      · subst same
        simp [Function.iterate_fixed changed]
      · simp [same, ih]

theorem renamed?_eq_some_iff {name settled : String} :
    list.renamed? name = some settled ↔
      list.next^[list.passes] name = settled ∧ settled ≠ name := by
  rw [renamed?, settle_eq_iterate, ← passes]
  by_cases same : list.next^[list.passes] name = name
  · simp only [same, if_true, reduceCtorEq, false_iff, not_and, not_not]
    exact Eq.symm
  · simp only [same, if_false, Option.some.injEq, iff_self_and]
    rintro rfl
    exact same

theorem renamed?_eq_none_iff {name : String} :
    list.renamed? name = none ↔ Function.IsPeriodicPt list.next list.passes name := by
  rw [renamed?, settle_eq_iterate, ← passes]
  simp [Function.IsPeriodicPt, Function.IsFixedPt]

/-- A stable name stays as it is. -/
theorem IsStable.iterate {name : String} {fewer more : Nat}
    (stable : list.IsStable (list.next^[fewer] name)) (le : fewer ≤ more) :
    list.next^[more] name = list.next^[fewer] name := by
  obtain ⟨rest, rfl⟩ := Nat.exists_eq_add_of_le' le
  rw [Function.iterate_add_apply]
  exact Function.iterate_fixed stable rest

/-- A name that is not stable is changed by one of the rules. -/
theorem exists_changer {name : String} (unstable : ¬list.IsStable name) :
    ∃ rule < list.rules.length, list.changer? name = some rule := by
  rw [changer?, if_neg unstable]
  cases found : list.rules.findIdx? (·.pattern.isMatch name) with
  | some rule =>
    obtain ⟨inside, _⟩ := List.findIdx?_eq_some_iff_getElem.mp found
    exact ⟨rule, inside, rfl⟩
  | none =>
    -- If no rule matched, the pass would not change the name.
    have noMatch := List.findIdx?_eq_none_iff.mp found
    have noStep : list.step? name = none := by
      rw [step?, List.findSome?_eq_none_iff]
      intro rule member
      have missed := noMatch rule member
      rw [Pattern.isMatch, Option.isSome_eq_false_iff, Option.isNone_iff_eq_none] at missed
      rw [Pattern.replace?, missed, Option.map_none]
    exact absurd (by simp [IsStable, Function.IsFixedPt, next, noStep]) unstable

/-! ## Rules that take effect twice -/

/-- While no name is stable, each of the rules on the way feeds all later ones. -/
theorem feeds_of_changers {name : String} {earlier later first last : Nat}
    (unstable : ∀ count < later, ¬list.IsStable (list.next^[count] name)) (before : earlier < later)
    (start : list.changer? (list.next^[earlier] name) = some first)
    (stop : list.changer? (list.next^[later] name) = some last) :
    TransGen list.Feeds first last := by
  induction later, before using Nat.le_induction generalizing last with
  | base =>
    rw [Function.iterate_succ_apply'] at stop
    exact .single ⟨_, start, stop⟩
  | succ later before ih =>
    obtain ⟨middle, _, changed⟩ := exists_changer (unstable later (Nat.lt_succ_self later))
    have way := ih (fun count less => unstable count (Nat.lt_succ_of_lt less)) changed
    rw [Function.iterate_succ_apply'] at stop
    exact way.tail ⟨_, changed, stop⟩

/-- There are more passes than rules, so that one of the rules comes twice if every pass changes the
name. -/
theorem exists_repeated_changer {name : String}
    (unstable : ∀ count < list.passes, ¬list.IsStable (list.next^[count] name)) :
    ∃ earlier later rule, earlier < later ∧ later ≤ list.rules.length ∧
      list.changer? (list.next^[earlier] name) = some rule ∧
      list.changer? (list.next^[later] name) = some rule := by
  choose! rule inside changes using fun count less => exists_changer (unstable count less)
  have fewer : (Finset.range list.rules.length).card < (Finset.range list.passes).card := by
    simp [passes]
  obtain ⟨first, firstIn, second, secondIn, apart, same⟩ :=
    Finset.exists_ne_map_eq_of_card_lt_of_maps_to (f := rule) fewer (by
      intro count counted
      simp only [Finset.coe_range, Set.mem_Iio] at counted ⊢
      exact inside count counted)
  rw [Finset.mem_range] at firstIn secondIn
  unfold passes at firstIn secondIn
  -- The two passes come in one order or the other.
  rcases Nat.lt_or_gt_of_ne apart with before | before
  · exact ⟨first, second, rule first, before, by omega, changes first firstIn,
      same ▸ changes second secondIn⟩
  · exact ⟨second, first, rule second, before, by omega, changes second secondIn,
      same ▸ changes first firstIn⟩

/-- What a renaming gives is left alone by another renaming exactly if it is stable, or comes round
to itself again and again so that it is there after the last pass. It is stable unless some rule has
taken effect twice, and so it always is in a list in which no rule feeds itself, directly or through
others. -/
theorem renamed?_again {name settled : String} (renamed : list.renamed? name = some settled) :
    (list.renamed? settled = none ↔
      list.IsStable settled ∨
        1 < Function.minimalPeriod list.next settled ∧
          Function.minimalPeriod list.next settled ∣ list.passes) ∧
    (list.IsStable settled ∨
      ∃ earlier later rule, earlier < later ∧ later ≤ list.rules.length ∧
        list.changer? (list.next^[earlier] name) = some rule ∧
        list.changer? (list.next^[later] name) = some rule) ∧
    ((∀ rule, ¬TransGen list.Feeds rule rule) → list.IsStable settled) := by
  obtain ⟨settles, _⟩ := renamed?_eq_some_iff.mp renamed
  have unstable (open_ : ¬list.IsStable settled) (count : Nat) (less : count < list.passes) :
      ¬list.IsStable (list.next^[count] name) := by
    intro stable
    rw [← settles, stable.iterate (Nat.le_of_lt less)] at open_
    exact open_ stable
  refine ⟨?_, ?_, fun noCycle => ?_⟩
  · rw [renamed?_eq_none_iff, Function.isPeriodicPt_iff_minimalPeriod_dvd, IsStable,
      ← Function.minimalPeriod_eq_one_iff_isFixedPt]
    constructor
    · intro divides
      have positive := Nat.pos_of_dvd_of_pos divides (Nat.succ_pos _)
      omega
    · rintro (one | ⟨_, divides⟩)
      · rw [one]
        exact Nat.one_dvd _
      · exact divides
  · by_cases stable : list.IsStable settled
    · exact .inl stable
    · exact .inr (exists_repeated_changer (unstable stable))
  · by_contra open_
    obtain ⟨earlier, later, rule, before, bound, first, last⟩ :=
      exists_repeated_changer (unstable open_)
    have way := feeds_of_changers
      (fun count less => unstable open_ count (by unfold passes; omega)) before first last
    exact noCycle rule way

/-! ## Colors and bills -/

/-- Reads substitutions from pairs of a pattern and a template. -/
def ofPairs (pairs : List (String × String)) : Result SubstitutionList :=
  ofSubstitutions (pairs.map fun (pattern, replacement) => ⟨pattern, replacement⟩)

theorem renamed?_again_of_colors :
    ∃ list, ofPairs [("color(Name|Code)", "color"), ("billing_(.*)", "$1")] = .ok list ∧
      list.renamed? "billing_colorCode" = some "color" ∧ list.renamed? "color" = none := by
  have evaluated : (ofPairs [("color(Name|Code)", "color"), ("billing_(.*)", "$1")]).toOption.map
      (fun list => decide (list.renamed? "billing_colorCode" = some "color" ∧
        list.IsStable "color")) = some true := by
    decide +kernel
  obtain ⟨list, read, seen⟩ := Result.exists_ok_of_map evaluated
  obtain ⟨renamed, stable⟩ := of_decide_eq_true seen
  exact ⟨list, read, renamed, (renamed?_again renamed).1.mpr (.inl stable)⟩

/-- A rule that works on what it has made itself needs more passes than there are, although it
comes to an end. -/
theorem renaming_stops_early :
    ∃ list, ofPairs [("billing_(.*)", "$1")] = .ok list ∧
      list.renamed? "billing_billing_billing_total" = some "billing_total" ∧
      list.renamed? "billing_total" = some "total" ∧ list.IsStable "total" := by
  have evaluated : (ofPairs [("billing_(.*)", "$1")]).toOption.map
      (fun list => decide (list.renamed? "billing_billing_billing_total" = some "billing_total" ∧
        list.renamed? "billing_total" = some "total" ∧ list.IsStable "total")) = some true := by
    decide +kernel
  obtain ⟨list, read, seen⟩ := Result.exists_ok_of_map evaluated
  exact ⟨list, read, of_decide_eq_true seen⟩

end EntityGraph.SubstitutionList
