import EntityGraph.Text.Basic
import Mathlib.Data.List.Forall2
import Mathlib.Data.List.Pairwise
import Mathlib.Data.List.Perm.Basic

/-!
# Lists

Sorting keeps the items of a list and puts them in order. Where two lists are related item by item,
what one of them says about the items of the other, and what replacing one item does.
-/
namespace EntityGraph

variable {α β : Type}

/-- Replacing one item of a list leaves the others in it. -/
theorem mem_set_or_eq {items : List α} {slot : Nat} {first item : α} (other : α)
    (place : items[slot]? = some first) (member : item ∈ items) :
    item ∈ items.set slot other ∨ item = first := by
  obtain ⟨index, at_⟩ := List.getElem?_of_mem member
  by_cases same : slot = index
  · subst same
    exact .inr (Option.some.inj (at_.symm.trans place))
  · exact .inl (List.mem_of_getElem? ((List.getElem?_set_ne same).trans at_))

theorem nodup_eraseDups [BEq α] [LawfulBEq α] (items : List α) : items.eraseDups.Nodup := by
  match items with
  | [] => exact List.nodup_nil
  | item :: rest =>
    rw [List.eraseDups_cons]
    exact List.nodup_cons.mpr ⟨by simp, nodup_eraseDups _⟩
termination_by items.length
decreasing_by exact Nat.lt_succ_of_le (List.length_filter_le _ _)

/-! ## Sorted texts -/

theorem insertSorted_perm (text : String) (texts : List String) :
    (Text.insertSorted text texts).Perm (text :: texts) := by
  induction texts with
  | nil => exact .refl _
  | cons first rest ih =>
    simp only [Text.insertSorted]
    split
    · exact (ih.cons first).trans (.swap text first rest)
    · exact .refl _

theorem sorted_perm (texts : List String) : (Text.sorted texts).Perm texts := by
  induction texts with
  | nil => exact .refl _
  | cons text rest ih => exact (insertSorted_perm text _).trans (ih.cons text)

/-- Texts in order, each of them once, are known from their members. -/
theorem eq_of_sorted {left right : List String} (leftSorted : left.Pairwise (· < ·))
    (rightSorted : right.Pairwise (· < ·)) (members : ∀ text, text ∈ left ↔ text ∈ right) :
    left = right := by
  have perm : left.Perm right := (List.perm_ext_iff_of_nodup (leftSorted.imp String.ne_of_lt)
    (rightSorted.imp String.ne_of_lt)).mpr members
  exact perm.eq_of_pairwise (fun _ _ _ _ less more => absurd more (String.lt_asymm less))
    leftSorted rightSorted

theorem insertSorted_ordered {text : String} {texts : List String}
    (ordered : texts.Pairwise (· ≤ ·)) : (Text.insertSorted text texts).Pairwise (· ≤ ·) := by
  induction texts with
  | nil => exact List.pairwise_singleton _ _
  | cons first rest ih =>
    obtain ⟨above, restOrdered⟩ := List.pairwise_cons.mp ordered
    simp only [Text.insertSorted]
    split
    next smaller =>
      refine List.pairwise_cons.mpr ⟨fun other member => ?_, ih restOrdered⟩
      rcases List.mem_cons.mp ((insertSorted_perm text rest).mem_iff.mp member) with rfl | inRest
      · exact String.not_lt.mp (String.lt_asymm smaller)
      · exact above other inRest
    next notSmaller =>
      exact List.pairwise_cons_cons_iff_of_trans.mpr ⟨String.not_lt.mp notSmaller, ordered⟩

theorem sorted_ordered (texts : List String) : (Text.sorted texts).Pairwise (· ≤ ·) := by
  induction texts with
  | nil => exact .nil
  | cons text rest ih => exact insertSorted_ordered ih

/-- Leaves out a text where the list that follows starts with it. -/
def withoutRepeats (texts : List String) : List String :=
  texts.foldr (fun text rest => if rest.head? == some text then rest else text :: rest) []

theorem sortDistinct_eq (texts : List String) :
    Text.sortDistinct texts = withoutRepeats (Text.sorted texts) := rfl

theorem withoutRepeats_cons (text : String) (rest : List String) :
    withoutRepeats (text :: rest) =
      if (withoutRepeats rest).head? = some text then withoutRepeats rest
      else text :: withoutRepeats rest := by
  simp [withoutRepeats]

theorem mem_withoutRepeats {text : String} {texts : List String} :
    text ∈ withoutRepeats texts ↔ text ∈ texts := by
  induction texts with
  | nil => rfl
  | cons first rest ih =>
    rw [withoutRepeats_cons, List.mem_cons, ← ih]
    split
    next repeated =>
      constructor
      · exact .inr
      · rintro (rfl | member)
        · exact List.mem_of_head? repeated
        · exact member
    next => exact List.mem_cons

theorem withoutRepeats_sorted {texts : List String} (ordered : texts.Pairwise (· ≤ ·)) :
    (withoutRepeats texts).Pairwise (· < ·) := by
  induction texts with
  | nil => exact .nil
  | cons text rest ih =>
    obtain ⟨above, restOrdered⟩ := List.pairwise_cons.mp ordered
    have restSorted := ih restOrdered
    rw [withoutRepeats_cons]
    split
    · exact restSorted
    next new =>
      cases kept : withoutRepeats rest with
      | nil => exact List.pairwise_singleton _ _
      | cons first others =>
        -- Only the first of the texts that follow can be the same one, and it is not.
        have different : text ≠ first := by
          rintro rfl
          exact new (by rw [kept, List.head?_cons])
        have firstMember : first ∈ rest := mem_withoutRepeats.mp (kept ▸ List.mem_cons_self)
        rw [kept] at restSorted
        exact List.pairwise_cons_cons_iff_of_trans.mpr
          ⟨Std.lt_of_le_of_ne (above first firstMember) different, restSorted⟩

theorem mem_sortDistinct {text : String} {texts : List String} :
    text ∈ Text.sortDistinct texts ↔ text ∈ texts := by
  rw [sortDistinct_eq, mem_withoutRepeats, (sorted_perm texts).mem_iff]

theorem sortDistinct_sorted (texts : List String) :
    (Text.sortDistinct texts).Pairwise (· < ·) :=
  withoutRepeats_sorted (sorted_ordered texts)

/-! ## Related lists -/

namespace Pointwise

variable {relation : α → β → Prop} {items : List α} {others : List β}

theorem exists_right (related : List.Forall₂ relation items others) {item : α}
    (member : item ∈ items) : ∃ other ∈ others, relation item other := by
  induction related with
  | nil => cases member
  | cons head _ ih =>
    rcases List.mem_cons.mp member with rfl | member
    · exact ⟨_, List.mem_cons_self, head⟩
    · obtain ⟨other, otherMember, holds⟩ := ih member
      exact ⟨other, List.mem_cons_of_mem _ otherMember, holds⟩

theorem exists_left (related : List.Forall₂ relation items others) {other : β}
    (member : other ∈ others) : ∃ item ∈ items, relation item other :=
  exists_right (List.Forall₂.flip related) member

/-- In a list without repetition every item has its own place, so whatever stands elsewhere on the
right side is related to another item. -/
theorem exists_right_apart (related : List.Forall₂ relation items others) (nodup : items.Nodup)
    {item : α} (member : item ∈ items) :
    ∃ other ∈ others, relation item other ∧
      ∀ later ∈ others,
        later = other ∨ ∃ another ∈ items, another ≠ item ∧ relation another later := by
  induction related with
  | nil => cases member
  | @cons first other rest others head tail ih =>
    obtain ⟨fresh, restNodup⟩ := List.nodup_cons.mp nodup
    rcases List.mem_cons.mp member with rfl | inRest
    · refine ⟨other, List.mem_cons_self, head, fun later laterMember => ?_⟩
      rcases List.mem_cons.mp laterMember with same | inOthers
      · exact .inl same
      · obtain ⟨another, anotherMember, holds⟩ := exists_left tail inOthers
        refine .inr ⟨another, List.mem_cons_of_mem _ anotherMember, ?_, holds⟩
        rintro rfl
        exact fresh anotherMember
    · obtain ⟨found, foundMember, holds, apart⟩ := ih restNodup inRest
      refine ⟨found, List.mem_cons_of_mem _ foundMember, holds, fun later laterMember => ?_⟩
      rcases List.mem_cons.mp laterMember with rfl | inOthers
      · refine .inr ⟨first, List.mem_cons_self, ?_, head⟩
        rintro rfl
        exact fresh inRest
      · rcases apart later inOthers with same | ⟨another, anotherMember, different, step⟩
        · exact .inl same
        · exact .inr ⟨another, List.mem_cons_of_mem _ anotherMember, different, step⟩

theorem getElem?_right (related : List.Forall₂ relation items others) {position : Nat} {item : α}
    (place : items[position]? = some item) :
    ∃ other, others[position]? = some other ∧ relation item other := by
  induction related generalizing position with
  | nil => simp at place
  | cons head _ ih =>
    cases position with
    | zero =>
      obtain rfl := Option.some.inj place
      exact ⟨_, rfl, head⟩
    | succ position => exact ih place

/-- Where a test does not tell related items apart, the first ones that pass it are related. -/
theorem find?_right {test : α → Bool} {testOther : β → Bool}
    (same : ∀ item other, relation item other → testOther other = test item)
    (related : List.Forall₂ relation items others) {item : α}
    (found : items.find? test = some item) :
    ∃ other, others.find? testOther = some other ∧ relation item other := by
  induction related with
  | nil => cases found
  | @cons first other _ _ head _ ih =>
    rw [List.find?_cons] at found ⊢
    rw [same _ _ head]
    cases passes : test first with
    | true =>
      rw [passes] at found
      obtain rfl := Option.some.inj found
      exact ⟨other, rfl, head⟩
    | false =>
      rw [passes] at found
      exact ih found

/-- Following a relation on the right side. -/
theorem mono_right {step : β → β → Prop} {after : α → β → Prop}
    (follows : ∀ item other later, relation item other → step other later → after item later)
    {later : List β} (related : List.Forall₂ relation items others)
    (steps : List.Forall₂ step others later) : List.Forall₂ after items later := by
  induction related generalizing later with
  | nil =>
    cases steps
    exact .nil
  | cons head _ ih =>
    cases steps with
    | cons next rest => exact .cons (follows _ _ _ head next) (ih rest)

theorem trans {step : α → α → Prop} (trans : ∀ first second third, step first second →
    step second third → step first third) {first second third : List α}
    (left : List.Forall₂ step first second) (right : List.Forall₂ step second third) :
    List.Forall₂ step first third :=
  mono_right trans left right

/-- What the related items have in common, the lists have in common. -/
theorem map_eq {γ : Type} {left : α → γ} {right : β → γ}
    (same : ∀ item other, relation item other → right other = left item)
    (related : List.Forall₂ relation items others) : others.map right = items.map left := by
  induction related with
  | nil => rfl
  | cons head _ ih => rw [List.map_cons, List.map_cons, same _ _ head, ih]

/-- Replacing an item by a related one. -/
theorem set {step : α → α → Prop} (refl : ∀ item, step item item) {items : List α} {slot : Nat}
    {first other : α} (place : items[slot]? = some first) (related : step first other) :
    List.Forall₂ step items (items.set slot other) := by
  induction items generalizing slot with
  | nil => exact .nil
  | cons item rest ih =>
    cases slot with
    | zero =>
      obtain rfl : item = first := by simpa using place
      exact .cons related (List.forall₂_same.mpr fun item _ => refl item)
    | succ slot => exact .cons (refl item) (ih (by simpa using place))

end Pointwise

end EntityGraph
