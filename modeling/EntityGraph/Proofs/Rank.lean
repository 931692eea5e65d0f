import Mathlib.Data.List.Count
import Mathlib.Logic.Relation

/-!
# Counting down

A search through finitely many items ends if it does not come to the same one twice: the number of
items that remain goes down. Steps that never lead back to where they began give every item a rank.
-/
namespace EntityGraph

open Relation (TransGen)

variable {α : Type}

theorem countP_lt {items : List α} {fewer more : α → Bool}
    (weaker : ∀ item, fewer item = true → more item = true) {item : α} (member : item ∈ items)
    (had : more item = true) (lost : fewer item = false) :
    items.countP fewer < items.countP more := by
  have both : items.countP fewer = (items.filter more).countP fewer := by
    rw [List.countP_filter]
    refine List.countP_congr fun other _ => ?_
    rw [Bool.and_eq_true]
    exact ⟨fun kept => ⟨kept, weaker other kept⟩, And.left⟩
  rw [both, List.countP_eq_length_filter (p := more)]
  exact List.countP_lt_length_iff.mpr ⟨item, List.mem_filter.mpr ⟨member, had⟩, lost⟩

/-! ## Items that remain -/

/-- The number of items that are not done. -/
def remaining (items : List α) (done : α → Bool) : Nat := items.countP fun item => !done item

variable {items : List α} {done later : α → Bool}

theorem remaining_le_length : remaining items done ≤ items.length := List.countP_le_length

theorem remaining_le (more : ∀ item, done item = true → later item = true) :
    remaining items later ≤ remaining items done := by
  refine List.countP_mono_left fun item _ open_ => ?_
  by_contra closed
  simp [more item (by simpa using closed)] at open_

theorem remaining_lt (more : ∀ item, done item = true → later item = true) {item : α}
    (member : item ∈ items) (new : done item = false) (now : later item = true) :
    remaining items later < remaining items done := by
  refine countP_lt (fun other open_ => ?_) member (by simp [new]) (by simp [now])
  by_contra closed
  simp [more other (by simpa using closed)] at open_

/-- Where none remains, every item is done. -/
theorem done_of_remaining_eq_zero (none : remaining items done = 0) {item : α}
    (member : item ∈ items) : done item = true := by
  have closed := List.countP_eq_zero.mp none item member
  simpa using closed

/-! ## Ranks -/

/-- The rank of an item is the number of items that it leads to. It does not lead to itself. -/
theorem exists_rank {step : α → α → Prop} {items : List α}
    (within : ∀ first next, step first next → next ∈ items)
    (noCycle : ∀ item ∈ items, ¬TransGen step item item) :
    ∃ rank : α → Nat, (∀ first next, step first next → rank next < rank first) ∧
      (∀ item, rank item ≤ items.length) ∧ ∀ item ∈ items, rank item < items.length := by
  classical
  refine ⟨fun item => items.countP fun other => decide (TransGen step item other),
    fun first next leads => ?_, fun item => List.countP_le_length, fun item member => ?_⟩
  · -- What the next one leads to is led to by the first one, and so is the next one itself.
    have member := within first next leads
    refine countP_lt (fun other led => ?_) member ?_ ?_
    · exact decide_eq_true (.head leads (of_decide_eq_true led))
    · exact decide_eq_true (.single leads)
    · exact decide_eq_false (noCycle next member)
  · exact List.countP_lt_length_iff.mpr ⟨item, member, decide_eq_false (noCycle item member)⟩

end EntityGraph
