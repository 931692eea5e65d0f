import EntityGraph.Proofs.Json.Reading
import EntityGraph.Proofs.Table

/-!
# Values in key order

Bringing the members of all objects into key order keeps what stands under each key, so two values
that are alike in key order have alike members under every key.
-/
namespace EntityGraph.Json

/-! ## The last of equal keys -/

/-- The value under the last occurrence of a key. -/
def lastOf {α : Type} (key : String) (entries : List (String × α)) : Option α :=
  (entries.reverse.find? (·.1 == key)).map (·.2)

section LastOf

variable {α β : Type} {key : String}

@[simp] theorem lastOf_nil : lastOf key ([] : List (String × α)) = none := rfl

theorem lastOf_append (left right : List (String × α)) :
    lastOf key (left ++ right) = (lastOf key right).or (lastOf key left) := by
  unfold lastOf
  rw [List.reverse_append, List.find?_append]
  cases right.reverse.find? (·.1 == key) <;> simp

theorem lastOf_concat (entries : List (String × α)) (entry : String × α) :
    lastOf key (entries ++ [entry]) =
      if key = entry.1 then some entry.2 else lastOf key entries := by
  unfold lastOf
  rw [List.reverse_concat, List.find?_cons]
  by_cases same : key = entry.1
  · simp [same]
  · have different : (entry.1 == key) = false := by simpa using Ne.symm same
    simp [different, same]

theorem lastOf_singleton (name : String) (value : α) :
    lastOf key [(name, value)] = if key = name then some value else none :=
  lastOf_concat [] (name, value)

theorem lastOf_cons (name : String) (value : α) (rest : List (String × α)) :
    lastOf key ((name, value) :: rest) =
      (lastOf key rest).or (if key = name then some value else none) := by
  rw [← List.singleton_append, lastOf_append, lastOf_singleton]

theorem lastOf_eq_none {entries : List (String × α)} (absent : ∀ entry ∈ entries, entry.1 ≠ key) :
    lastOf key entries = none := by
  unfold lastOf
  rw [List.find?_eq_none.mpr]
  · rfl
  · intro entry member
    simpa using absent entry (List.mem_reverse.mp member)

/-- A table has the last value of each key. -/
theorem get?_ofList (entries : List (String × α)) :
    (Table.ofList entries).get? key = lastOf key entries := by
  induction entries using List.reverseRecOn with
  | nil => rfl
  | append_singleton entries entry ih =>
    have step : Table.ofList (entries ++ [entry]) =
        (Table.ofList entries).set entry.1 entry.2 := by simp [Table.ofList]
    rw [step, Table.get?_set, lastOf_concat, ih]

/-- Leaving out other keys changes nothing. -/
theorem lastOf_filter {entries : List (String × α)} (keep : String → Bool)
    (kept : keep key = true) :
    lastOf key (entries.filter fun entry => keep entry.1) = lastOf key entries := by
  induction entries using List.reverseRecOn with
  | nil => rfl
  | append_singleton entries entry ih =>
    rw [List.filter_append, lastOf_concat]
    by_cases stays : keep entry.1 = true
    · have single : [entry].filter (fun entry => keep entry.1) = [entry] := by simp [stays]
      rw [single, lastOf_concat, ih]
    · have different : key ≠ entry.1 := by
        rintro rfl
        exact stays kept
      have single : [entry].filter (fun entry => keep entry.1) = [] := by simp [stays]
      rw [single, List.append_nil, if_neg different, ih]

end LastOf

/-! ## Key order -/

theorem sortItems_eq (items : List Json) : sortItems items = items.map sortKeys := by
  induction items with
  | nil => rfl
  | cons item rest ih => rw [sortItems, ih, List.map_cons]

theorem sortMembers_eq (members : List (String × Json)) :
    sortMembers members = members.map fun member => (member.1, member.2.sortKeys) := by
  induction members with
  | nil => rfl
  | cons member rest ih => rw [sortMembers, ih, List.map_cons]

theorem lastOf_sortMembers (key : String) (members : List (String × Json)) :
    lastOf key (sortMembers members) = (lastOf key members).map sortKeys := by
  rw [sortMembers_eq]
  induction members using List.reverseRecOn with
  | nil => rfl
  | append_singleton members member ih =>
    rw [List.map_append, List.map_singleton, lastOf_concat, lastOf_concat, ih]
    split <;> rfl

/-- Whether two values differ in the order of keys only. -/
def Alike (left right : Json) : Prop := left.sortKeys = right.sortKeys

/-- Whether the same stands under a key. -/
def AlikeAt (key : String) (left right : List (String × Json)) : Prop :=
  (lastOf key left).map sortKeys = (lastOf key right).map sortKeys

theorem Alike.at {left right : List (String × Json)} (alike : Alike (.obj left) (.obj right))
    (key : String) : AlikeAt key left right := by
  have tables : Table.ofList (sortMembers left) = Table.ofList (sortMembers right) := by
    simpa [Alike, sortKeys] using alike
  rw [AlikeAt, ← lastOf_sortMembers, ← lastOf_sortMembers, ← get?_ofList, ← get?_ofList, tables]

/-- Lists that are alike have alike items, and are equal if alike items are. -/
theorem Alike.list {α : Type} {encode : α → Json} {left right : List α}
    (alike : Alike (.arr (left.map encode)) (.arr (right.map encode)))
    (injective : ∀ a ∈ left, ∀ b ∈ right, Alike (encode a) (encode b) → a = b) : left = right := by
  have items : (left.map encode).map sortKeys = (right.map encode).map sortKeys := by
    simpa [Alike, sortKeys, sortItems_eq] using alike
  clear alike
  induction left generalizing right with
  | nil =>
    cases right with
    | nil => rfl
    | cons b right => cases items
  | cons a left ih =>
    cases right with
    | nil => cases items
    | cons b right =>
      obtain ⟨heads, tails⟩ := List.cons.inj items
      rw [injective a List.mem_cons_self b List.mem_cons_self heads,
        ih (fun a inLeft b inRight => injective a (List.mem_cons_of_mem _ inLeft) b
          (List.mem_cons_of_mem _ inRight)) tails]

/-! ## Finite values -/

theorem IsFinite.sortKeys {value : Json} (finite : IsFinite value) : IsFinite value.sortKeys := by
  induction value using Json.induction with
  | null => trivial
  | bool value => trivial
  | int value => trivial
  | float value => exact finite
  | str value => trivial
  | arr items ih =>
    rw [Json.sortKeys, sortItems_eq, isFinite_arr]
    intro item member
    obtain ⟨known, inItems, rfl⟩ := List.mem_map.mp member
    exact ih known inItems (isFinite_arr.mp finite known inItems)
  | obj members ih =>
    rw [Json.sortKeys, sortMembers_eq, isFinite_obj]
    intro entry member
    obtain ⟨known, inMembers, rfl⟩ := List.mem_map.mp (Table.mem_of_mem_ofList member)
    exact ih known inMembers (isFinite_obj.mp finite known inMembers)

/-- Finite values of one text in key order are alike. -/
theorem alike_of_pretty_eq {left right : Json} (leftFinite : IsFinite left)
    (rightFinite : IsFinite right) (same : left.sortKeys.pretty = right.sortKeys.pretty) :
    Alike left right :=
  pretty_injective leftFinite.sortKeys rightFinite.sortKeys same

end EntityGraph.Json
