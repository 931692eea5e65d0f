import EntityGraph.Proofs.Json.Scalars

/-!
# What a text leaves open

A double that is not finite is written as `null`, so a text does not tell such doubles from each
other or from `null`; it tells everything else. Blurring puts one and the same value in the place of
all of them: two values have the same text exactly if they are equal when they are blurred.
-/
namespace EntityGraph

namespace Json

mutual

/-- The same value with `blank` for `null` and for every double that is not finite. -/
def blur (blank : Json) : Json → Json
  | .null => blank
  | .float value => if value.isFinite then .float value else blank
  | .arr items => .arr (blurItems blank items)
  | .obj members => .obj (blurMembers blank members)
  | .bool value => .bool value
  | .int value => .int value
  | .str value => .str value

def blurItems (blank : Json) : List Json → List Json
  | [] => []
  | item :: rest => blur blank item :: blurItems blank rest

def blurMembers (blank : Json) : List (String × Json) → List (String × Json)
  | [] => []
  | (key, value) :: rest => (key, blur blank value) :: blurMembers blank rest

end

variable {blank : Json}

theorem blurItems_eq (items : List Json) : blurItems blank items = items.map (blur blank) := by
  induction items with
  | nil => rfl
  | cons item rest ih => rw [blurItems, ih, List.map_cons]

theorem blurMembers_eq (members : List (String × Json)) :
    blurMembers blank members = members.map fun member => (member.1, blur blank member.2) := by
  induction members with
  | nil => rfl
  | cons member rest ih => rw [blurMembers, ih, List.map_cons]

@[simp] theorem blur_bool (value : Bool) : blur blank (.bool value) = .bool value := by rw [blur]

@[simp] theorem blur_int (value : Int) : blur blank (.int value) = .int value := by rw [blur]

@[simp] theorem blur_ofNat (value : Nat) : blur blank (.ofNat value) = .ofNat value :=
  blur_int value

@[simp] theorem blur_str (text : String) : blur blank (.str text) = .str text := by rw [blur]

theorem blur_map {α β : Type} (change : α → β) {encode : α → Json} {encode' : β → Json}
    (blurred : ∀ value, blur blank (encode value) = encode' (change value)) (values : List α) :
    blur blank (.arr (values.map encode)) = .arr ((values.map change).map encode') := by
  rw [blur, blurItems_eq, List.map_map, List.map_map]
  exact congrArg Json.arr (List.map_congr_left fun value _ => blurred value)

/-- Texts have nothing to blur. -/
@[simp] theorem blur_ofStrings (texts : List String) :
    blur blank (.ofStrings texts) = .ofStrings texts := by
  rw [ofStrings, blur_map id blur_str, List.map_id]

/-! ## Blurring and the text -/

theorem compactItems_map {change : Json → Json} {items : List Json}
    (same : ∀ item ∈ items, (change item).compact = item.compact) :
    compactItems (items.map change) = compactItems items := by
  induction items with
  | nil => rfl
  | cons item rest ih =>
    obtain ⟨first, others⟩ := List.forall_mem_cons.mp same
    cases rest with
    | nil => simp [compactItems, first]
    | cons next rest =>
      rw [List.map_cons, compactItems, compactItems, first, ih others]
      · simp
      · simp

theorem compactMembers_map {change : Json → Json} {members : List (String × Json)}
    (same : ∀ member ∈ members, (change member.2).compact = member.2.compact) :
    compactMembers (members.map fun member => (member.1, change member.2)) =
      compactMembers members := by
  induction members with
  | nil => rfl
  | cons member rest ih =>
    obtain ⟨first, others⟩ := List.forall_mem_cons.mp same
    cases rest with
    | nil => simp [compactMembers, first]
    | cons next rest =>
      rw [List.map_cons, compactMembers, compactMembers, first, ih others]
      · simp
      · simp

/-- A double that is not finite has the text of `null`. -/
theorem floatText_of_not_isFinite {value : Float} (infinite : ¬value.isFinite = true) :
    floatText value = "null" := by
  rw [floatText, Decimal.render?, if_neg infinite, Option.getD_none]

theorem compact_blur (value : Json) : (blur .null value).compact = value.compact := by
  induction value using induction with
  | null | bool | int | str => rw [blur]
  | float value =>
    rw [blur]
    split
    · rfl
    next infinite => rw [compact, compact, floatText_of_not_isFinite infinite]
  | arr items ih => rw [blur, blurItems_eq, compact, compact, compactItems_map ih]
  | obj members ih => rw [blur, blurMembers_eq, compact, compact, compactMembers_map ih]

theorem isFinite_blur (value : Json) : IsFinite (blur .null value) := by
  induction value using induction with
  | null | bool | int | str =>
    rw [blur]
    trivial
  | float value =>
    rw [blur]
    split
    next finite => exact finite
    · trivial
  | arr items ih =>
    rw [blur, blurItems_eq, isFinite_arr]
    exact List.forall_mem_map.mpr ih
  | obj members ih =>
    rw [blur, blurMembers_eq, isFinite_obj]
    exact List.forall_mem_map.mpr ih

/-- Blurring again with a value that is blurred itself has the same outcome as once. -/
theorem blur_blur {other : Json} (blurred : blur blank other = blank) (value : Json) :
    blur blank (blur other value) = blur blank value := by
  induction value using induction with
  | null => rw [blur, blur, blurred]
  | bool value => rw [blur_bool]
  | int value => rw [blur_int]
  | str value => rw [blur_str]
  | float value =>
    by_cases finite : value.isFinite = true
    · rw [blur, if_pos finite]
    · rw [blur, if_neg finite, blurred, blur, if_neg finite]
  | arr items ih =>
    simp only [blur, blurItems_eq, List.map_map]
    exact congrArg Json.arr (List.map_congr_left ih)
  | obj members ih =>
    simp only [blur, blurMembers_eq, List.map_map]
    exact congrArg Json.obj (List.map_congr_left fun member among =>
      congrArg (Prod.mk member.1) (ih member among))

/-- The compact text tells everything but what is blurred. -/
theorem compact_eq_iff (blurred : blur .null blank = .null) {left right : Json} :
    left.compact = right.compact ↔ blur blank left = blur blank right := by
  constructor
  · intro same
    -- Written values are not finite in general, but blurred ones are, and have the same texts.
    rw [← compact_blur left, ← compact_blur right] at same
    have equal := compact_injective (isFinite_blur left) (isFinite_blur right) same
    have null : blur blank .null = blank := by rw [blur]
    rw [← blur_blur null left, equal, blur_blur null right]
  · intro same
    rw [← compact_blur left, ← compact_blur right, ← blur_blur blurred left, same,
      blur_blur blurred right]

end Json

/-! ## Entries -/

section Entries

open Json (blur blurMembers blurMembers_eq)

variable {α β : Type} {blank : Json} {key : String}

theorem blurMembers_append (left right : List (String × Json)) :
    blurMembers blank (left ++ right) = blurMembers blank left ++ blurMembers blank right := by
  rw [blurMembers_eq, blurMembers_eq, blurMembers_eq, List.map_append]

theorem blurMembers_flagEntry (value : Bool) :
    blurMembers blank (flagEntry key value) = flagEntry key value := by
  cases value <;> simp [flagEntry, blurMembers]

theorem blurMembers_optionalEntry (change : α → β) {encode : α → Json} {encode' : β → Json}
    (blurred : ∀ value, blur blank (encode value) = encode' (change value)) (value : Option α) :
    blurMembers blank (optionalEntry key encode value) =
      optionalEntry key encode' (value.map change) := by
  cases value <;> simp [optionalEntry, blurMembers, blurred]

/-- An entry of texts or counts has nothing to blur. -/
theorem blurMembers_optionalEntry_of_kept {encode : α → Json}
    (kept : ∀ value, blur blank (encode value) = encode value) (value : Option α) :
    blurMembers blank (optionalEntry key encode value) = optionalEntry key encode value := by
  rw [blurMembers_optionalEntry id kept, Option.map_id, id]

theorem blurMembers_listEntry (change : α → β) {encode : α → Json} {encode' : β → Json}
    (blurred : ∀ value, blur blank (encode value) = encode' (change value)) (values : List α) :
    blurMembers blank (listEntry key encode values) =
      listEntry key encode' (values.map change) := by
  cases values with
  | nil => rfl
  | cons value rest =>
    rw [listEntry, List.isEmpty_cons, if_neg Bool.false_ne_true, blurMembers, blurMembers,
      Json.blur_map change blurred]
    rfl

theorem blurMembers_listEntry_of_kept {encode : α → Json}
    (kept : ∀ value, blur blank (encode value) = encode value) (values : List α) :
    blurMembers blank (listEntry key encode values) = listEntry key encode values := by
  rw [blurMembers_listEntry id kept, List.map_id]

end Entries

end EntityGraph
