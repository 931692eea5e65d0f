import EntityGraph.Table
import Mathlib.Data.List.Induction
import Mathlib.Data.List.Nodup
import Mathlib.Data.List.Pairwise
import Mathlib.Data.List.Perm.Basic

/-!
# Laws of tables

A table is an association list in name order. `set` changes what one name stands for and leaves all
other names alone, whatever the order of the list; the order itself is an invariant of `set`, and
makes the entries of a table and its look-ups the same thing.
-/
namespace EntityGraph.Table

variable {α : Type}

/-! ## Looking up -/

@[simp] theorem get?_nil (name : String) : get? ([] : Table α) name = none := rfl

theorem get?_cons (entry : String × α) (rest : Table α) (name : String) :
    get? (entry :: rest) name = if entry.1 = name then some entry.2 else get? rest name := by
  by_cases same : entry.1 = name
  · simp [get?, same]
  · have different : (entry.1 == name) = false := by simpa using same
    simp only [get?, List.find?_cons, different, if_neg same]

theorem mem_of_get? {table : Table α} {name : String} {value : α}
    (found : table.get? name = some value) : (name, value) ∈ table := by
  simp only [get?, Option.map_eq_some_iff] at found
  obtain ⟨entry, found, rfl⟩ := found
  have same : entry.1 = name := by simpa using List.find?_some found
  exact same ▸ List.mem_of_find?_eq_some found

theorem has_iff_mem_names (table : Table α) (name : String) :
    table.has name = true ↔ name ∈ table.names := by
  simp [has, names]

theorem get?_eq_none_iff (table : Table α) (name : String) :
    table.get? name = none ↔ name ∉ table.names := by
  induction table with
  | nil => simp [names]
  | cons entry rest ih =>
    rw [get?_cons]
    by_cases same : entry.1 = name
    · simp [names, same]
    · simp [names, same, eq_comm (a := name), ih]

theorem mem_names_of_get? {table : Table α} {name : String} {value : α}
    (found : table.get? name = some value) : name ∈ table.names :=
  List.mem_map.mpr ⟨(name, value), mem_of_get? found, rfl⟩

theorem exists_get?_of_mem_names {table : Table α} {name : String} (member : name ∈ table.names) :
    ∃ value, table.get? name = some value := by
  cases found : table.get? name with
  | none => exact absurd member ((get?_eq_none_iff table name).mp found)
  | some value => exact ⟨value, rfl⟩

/-! ## Setting -/

@[simp] theorem get?_set_self (table : Table α) (name : String) (value : α) :
    (table.set name value).get? name = some value := by
  induction table with
  | nil => simp [set, get?_cons]
  | cons entry rest ih =>
    simp only [set]
    split
    · simp [get?_cons]
    · split
      · simp [get?_cons]
      next different => simp [get?_cons, Ne.symm different, ih]

theorem get?_set_of_ne (table : Table α) {name other : String} (value : α) (ne : other ≠ name) :
    (table.set name value).get? other = table.get? other := by
  induction table with
  | nil => simp [set, get?_cons, ne.symm]
  | cons entry rest ih =>
    simp only [set]
    split
    · simp [get?_cons, ne.symm]
    · split
      next same => simp [get?_cons, ← same, ne.symm]
      · simp [get?_cons, ih]

theorem get?_set (table : Table α) (name other : String) (value : α) :
    (table.set name value).get? other = if other = name then some value else table.get? other := by
  by_cases same : other = name
  · simp [same]
  · simp [same, get?_set_of_ne]

/-- An entry of a table with a new value is the new one or an old one. -/
theorem cases_of_get?_set {table : Table α} {name other : String} {value found : α}
    (get : (table.set name value).get? other = some found) :
    (name = other ∧ value = found) ∨ table.get? other = some found := by
  rw [get?_set] at get
  split at get
  next same => exact .inl ⟨same.symm, Option.some.inj get⟩
  next => exact .inr get

theorem mem_names_set (table : Table α) (name other : String) (value : α) :
    other ∈ (table.set name value).names ↔ other = name ∨ other ∈ table.names := by
  induction table with
  | nil => simp [set, names]
  | cons entry rest ih =>
    simp only [set]
    split
    · simp [names]
    · split
      next same => simp [names, ← same]
      · simp only [names, List.map_cons, List.mem_cons] at ih ⊢
        rw [ih]
        tauto

/-- Setting a name keeps all names in their order. -/
theorem names_sublist_set (table : Table α) (name : String) (value : α) :
    table.names.Sublist (table.set name value).names := by
  induction table with
  | nil => exact List.nil_sublist _
  | cons entry rest ih =>
    simp only [set]
    split
    · exact .cons _ (.refl _)
    · split
      next same => simp [names, ← same]
      next => exact ih.cons_cons entry.1

theorem get?_erase_of_ne (table : Table α) {name other : String} (ne : other ≠ name) :
    (table.erase name).get? other = table.get? other := by
  induction table with
  | nil => rfl
  | cons entry rest ih =>
    by_cases same : entry.1 = name
    · have gone : Table.erase name (entry :: rest) = Table.erase name rest := by
        simp [erase, same]
      rw [gone, ih, get?_cons, if_neg (same ▸ ne.symm)]
    · have stays : Table.erase name (entry :: rest) = entry :: Table.erase name rest := by
        simp [erase, same]
      rw [stays, get?_cons, get?_cons, ih]

/-! ## Order -/

/-- The entries are in name order, without repetitions. -/
def Sorted (table : Table α) : Prop := table.names.Pairwise (· < ·)

instance (table : Table α) : Decidable table.Sorted :=
  inferInstanceAs (Decidable (table.names.Pairwise (· < ·)))

theorem sorted_nil : Sorted ([] : Table α) := List.Pairwise.nil

theorem sorted_set {table : Table α} (sorted : Sorted table) (name : String) (value : α) :
    Sorted (table.set name value) := by
  induction table with
  | nil => simp [set, Sorted, names]
  | cons entry rest ih =>
    obtain ⟨above, sortedRest⟩ := List.pairwise_cons.mp sorted
    simp only [set]
    split
    next smaller =>
      -- The new name comes to stand before the first larger one, and so before all others.
      exact List.pairwise_cons_cons_iff_of_trans.mpr ⟨smaller, sorted⟩
    next notSmaller =>
      split
      next same => exact List.pairwise_cons.mpr ⟨same ▸ above, sortedRest⟩
      next different =>
        have larger : entry.1 < name :=
          Std.lt_of_le_of_ne (String.not_lt.mp notSmaller) (Ne.symm different)
        refine List.pairwise_cons.mpr ⟨fun other member => ?_, ih sortedRest⟩
        rcases (mem_names_set rest name other value).mp member with rfl | member
        · exact larger
        · exact above other member

theorem sorted_ofList (entries : List (String × α)) : Sorted (ofList entries) := by
  have keeps : ∀ table : Table α, Sorted table →
      Sorted (entries.foldl (fun table entry => set entry.1 entry.2 table) table) := by
    induction entries with
    | nil => exact fun _ sorted => sorted
    | cons entry rest ih => exact fun table sorted => ih _ (sorted_set sorted entry.1 entry.2)
  exact keeps [] sorted_nil

theorem Sorted.nodup {table : Table α} (sorted : Sorted table) : table.names.Nodup :=
  List.Pairwise.imp String.ne_of_lt sorted

theorem get?_of_mem {table : Table α} (nodup : table.names.Nodup) {name : String} {value : α}
    (member : (name, value) ∈ table) : table.get? name = some value := by
  induction table with
  | nil => cases member
  | cons entry rest ih =>
    simp only [names, List.map_cons, List.nodup_cons] at nodup
    rw [get?_cons]
    rcases List.mem_cons.mp member with rfl | member
    · simp
    · have different : entry.1 ≠ name := by
        rintro rfl
        exact nodup.1 (List.mem_map.mpr ⟨_, member, rfl⟩)
      rw [if_neg different]
      exact ih nodup.2 member

/-- Setting a new name adds one entry. -/
theorem set_perm {table : Table α} {name : String} (fresh : name ∉ table.names) (value : α) :
    (table.set name value).Perm ((name, value) :: table) := by
  induction table with
  | nil => exact List.Perm.refl _
  | cons entry rest ih =>
    simp only [names, List.map_cons, List.mem_cons, not_or] at fresh
    simp only [set]
    split
    · exact List.Perm.refl _
    · rw [if_neg fresh.1]
      exact ((ih fresh.2).cons entry).trans (List.Perm.swap _ _ _)

/-- The table of entries with different names has exactly these entries. -/
theorem ofList_perm {entries : List (String × α)} (nodup : (entries.map (·.1)).Nodup) :
    (ofList entries).Perm entries := by
  -- Every name is new to the table that the earlier entries have made.
  have adds : ∀ table : Table α, (∀ entry ∈ entries, entry.1 ∉ table.names) →
      (entries.foldl (fun table entry => set entry.1 entry.2 table) table).Perm
        (entries ++ table) := by
    induction entries with
    | nil => exact fun _ _ => List.Perm.refl _
    | cons entry rest ih =>
      intro table fresh
      simp only [List.map_cons, List.nodup_cons] at nodup
      have freshRest : ∀ other ∈ rest, other.1 ∉ (set entry.1 entry.2 table).names := by
        intro other member
        rw [mem_names_set]
        rintro (same | old)
        · exact nodup.1 (List.mem_map.mpr ⟨other, member, same⟩)
        · exact fresh other (List.mem_cons_of_mem _ member) old
      have setPerm := set_perm (fresh entry List.mem_cons_self) entry.2
      exact ((ih nodup.2 _ freshRest).trans (setPerm.append_left rest)).trans List.perm_middle
  have all := adds [] (by simp [names])
  rwa [List.append_nil] at all

theorem eq_of_perm {left right : Table α} (leftSorted : Sorted left) (rightSorted : Sorted right)
    (perm : left.Perm right) : left = right := by
  have inOrder {table : Table α} (sorted : Sorted table) :
      table.Pairwise fun entry other => entry.1 < other.1 := List.pairwise_map.mp sorted
  exact perm.eq_of_pairwise (fun _ _ _ _ less more => absurd more (String.lt_asymm less))
    (inOrder leftSorted) (inOrder rightSorted)

/-- A table is the table of its entries. -/
theorem ofList_of_sorted {table : Table α} (sorted : Sorted table) : ofList table = table :=
  eq_of_perm (sorted_ofList table) sorted (ofList_perm sorted.nodup)

theorem mem_iff_get? {table : Table α} (nodup : table.names.Nodup) {name : String} {value : α} :
    (name, value) ∈ table ↔ table.get? name = some value :=
  ⟨get?_of_mem nodup, mem_of_get?⟩

/-- Tables are known from what stands under each name. -/
theorem eq_of_get? {left right : Table α} (leftSorted : Sorted left) (rightSorted : Sorted right)
    (same : ∀ name, left.get? name = right.get? name) : left = right := by
  have entriesNodup {table : Table α} (sorted : Sorted table) : table.Nodup :=
    .of_map _ sorted.nodup
  apply eq_of_perm leftSorted rightSorted
  apply (List.perm_ext_iff_of_nodup (entriesNodup leftSorted) (entriesNodup rightSorted)).mpr
  intro (name, value)
  rw [mem_iff_get? leftSorted.nodup, mem_iff_get? rightSorted.nodup, same]

/-! ## Entries -/

theorem mem_of_mem_set {table : Table α} {name : String} {value : α}
    {entry : String × α} (member : entry ∈ table.set name value) :
    entry = (name, value) ∨ entry ∈ table := by
  induction table with
  | nil => exact .inl (List.mem_singleton.mp member)
  | cons first rest ih =>
    unfold set at member
    split_ifs at member
    · exact List.mem_cons.mp member
    · exact (List.mem_cons.mp member).imp_right (List.mem_cons_of_mem _)
    · rcases List.mem_cons.mp member with rfl | inRest
      · exact .inr List.mem_cons_self
      · exact (ih inRest).imp_right (List.mem_cons_of_mem _)

theorem mem_of_mem_ofList {entries : List (String × α)} {entry : String × α}
    (member : entry ∈ ofList entries) : entry ∈ entries := by
  induction entries using List.reverseRecOn with
  | nil => cases member
  | append_singleton entries last ih =>
    have step : ofList (entries ++ [last]) =
        (ofList entries).set last.1 last.2 := by simp [ofList]
    rw [step] at member
    rcases mem_of_mem_set member with rfl | known
    · simp
    · exact List.mem_append_left _ (ih known)

/-! ## The first entry -/

theorem mem_names_foldl_set {entries : List (String × α)} {table : Table α} {name : String}
    (member : name ∈ (entries.foldl (fun table entry => set entry.1 entry.2 table) table).names) :
    name ∈ table.names ∨ name ∈ entries.map (·.1) := by
  induction entries generalizing table with
  | nil => exact .inl member
  | cons entry rest ih =>
    rcases ih member with inSet | inRest
    · rcases (mem_names_set table entry.1 name entry.2).mp inSet with rfl | old
      · exact .inr List.mem_cons_self
      · exact .inl old
    · exact .inr (List.mem_cons_of_mem _ inRest)

/-- A name that is smaller than all others comes first. -/
theorem set_of_lt {table : Table α} {name : String} (least : ∀ other ∈ table.names, name < other)
    (value : α) : table.set name value = (name, value) :: table := by
  cases table with
  | nil => rfl
  | cons entry rest =>
    have smaller : name < entry.1 := least entry.1 List.mem_cons_self
    simp only [set]
    rw [if_pos smaller]

/-- Entries with larger names come behind the first one. -/
theorem foldl_set_cons {entries : List (String × α)} {first : String × α} {table : Table α}
    (larger : ∀ entry ∈ entries, first.1 < entry.1) :
    ∃ rest, entries.foldl (fun table entry => set entry.1 entry.2 table) (first :: table) =
      first :: rest := by
  induction entries generalizing table with
  | nil => exact ⟨table, rfl⟩
  | cons entry others ih =>
    have behind : first.1 < entry.1 := larger entry List.mem_cons_self
    have same : set entry.1 entry.2 (first :: table) = first :: set entry.1 entry.2 table := by
      simp only [set]
      rw [if_neg (String.lt_asymm behind), if_neg (String.ne_of_lt behind).symm]
    rw [List.foldl_cons, same]
    exact ih fun other member => larger other (List.mem_cons_of_mem _ member)

/-- The entry with the smallest name is the first one of the table. -/
theorem ofList_of_least {before after : List (String × α)} (first : String × α)
    (least : ∀ entry ∈ before ++ after, first.1 < entry.1) :
    ∃ rest, ofList (before ++ first :: after) = first :: rest := by
  unfold ofList
  rw [List.foldl_append, List.foldl_cons, set_of_lt]
  · exact foldl_set_cons fun entry member => least entry (List.mem_append_right _ member)
  · intro other member
    rcases mem_names_foldl_set member with none | inBefore
    · cases none
    · obtain ⟨entry, entryMember, rfl⟩ := List.mem_map.mp inBefore
      exact least entry (List.mem_append_left _ entryMember)

end EntityGraph.Table
