import EntityGraph.Compile.Bag
import EntityGraph.Proofs.Table
import EntityGraph.Proofs.Text.Split
import EntityGraph.Proofs.Text.Squeezing

/-!
# Merged bags

What two bags have in common is documented by the parts of both texts, squeezed. These parts are
found again in the text that they make, so a third bag adds its own parts to them as if all had come
together; and squeezing does not depend on the order of the parts. Hence bags may be merged in any
order and in any grouping. A path of one bag only keeps its text as it is, with the repetitions and
empty parts that it may have.
-/
namespace EntityGraph.Bag

open Text.Documentation

/-! ## Parts of a documentation text -/

/-- The parts between bars, apart from empty ones. -/
def parts (doc : String) : List String := (Text.split '|' doc).filter (!·.isEmpty)

theorem joinDocs_eq (old new : String) :
    joinDocs old new = "|".intercalate (squeeze (parts old ++ parts new)) := by
  simp only [joinDocs, parts, List.filter_append]

theorem free_of_mem_parts {doc part : String} (member : part ∈ parts doc) :
    '|' ∉ part.toList ∧ part ≠ "" := by
  obtain ⟨inSplit, nonempty⟩ := List.mem_filter.mp member
  exact ⟨Text.not_mem_of_mem_split inSplit, by simpa using nonempty⟩

theorem parts_intercalate {pieces : List String}
    (free : ∀ piece ∈ pieces, '|' ∉ piece.toList ∧ piece ≠ "") :
    parts ("|".intercalate pieces) = pieces := by
  by_cases none : pieces = []
  · subst none
    decide
  · have bar : "|".toList = ['|'] := rfl
    rw [parts, Text.split_intercalate bar none fun piece member => (free piece member).1]
    refine List.filter_eq_self.mpr fun piece member => ?_
    simpa using (free piece member).2

/-- The parts of a joined text are those that neither text continues. -/
theorem parts_joinDocs (old new : String) :
    parts (joinDocs old new) = squeeze (parts old ++ parts new) := by
  rw [joinDocs_eq]
  apply parts_intercalate
  intro piece member
  have known : piece ∈ parts old ++ parts new := (mem_squeeze.mp member).1
  rcases List.mem_append.mp known with inOld | inNew
  · exact free_of_mem_parts inOld
  · exact free_of_mem_parts inNew

theorem joinDocs_comm (old new : String) : joinDocs old new = joinDocs new old := by
  rw [joinDocs_eq, joinDocs_eq, squeeze_append_comm]

theorem joinDocs_assoc (first second third : String) :
    joinDocs (joinDocs first second) third = joinDocs first (joinDocs second third) := by
  -- Both sides squeeze all parts, some of which have been squeezed before.
  rw [joinDocs_eq (joinDocs first second), joinDocs_eq first (joinDocs second third),
    parts_joinDocs, parts_joinDocs, squeeze_squeeze_append, squeeze_append_squeeze,
    List.append_assoc]

instance : Std.Commutative joinDocs := ⟨joinDocs_comm⟩

instance : Std.Associative joinDocs := ⟨joinDocs_assoc⟩

/-! ## The paths of bags -/

theorem mem_names_addEntry (entries : Bag) (path doc other : String) :
    other ∈ (addEntry entries path doc).names ↔ other = path ∨ other ∈ entries.names := by
  unfold addEntry
  split
  · exact Table.mem_names_set _ _ _ _
  · exact Table.mem_names_set _ _ _ _

theorem merge_cons (entries : Bag) (entry : String × String) (rest : Bag) :
    merge entries (entry :: rest) = merge (addEntry entries entry.1 entry.2) rest := rfl

/-- Merged bags have the paths of both. -/
theorem mem_names_merge {entries other : Bag} {path : String} :
    path ∈ (merge entries other).names ↔ path ∈ entries.names ∨ path ∈ other.names := by
  induction other generalizing entries with
  | nil => simp [merge, Table.names]
  | cons entry rest ih =>
    rw [merge_cons, ih, mem_names_addEntry]
    simp only [Table.names, List.map_cons, List.mem_cons]
    tauto

theorem sorted_addEntry {entries : Bag} (sorted : entries.Sorted) (path doc : String) :
    (addEntry entries path doc).Sorted := by
  unfold addEntry
  split
  · exact Table.sorted_set sorted _ _
  · exact Table.sorted_set sorted _ _

theorem sorted_merge {entries : Bag} (sorted : entries.Sorted) (other : Bag) :
    (merge entries other).Sorted := by
  induction other generalizing entries with
  | nil => exact sorted
  | cons entry rest ih =>
    rw [merge_cons]
    exact ih (sorted_addEntry sorted entry.1 entry.2)

/-! ## The texts of bags -/

theorem get?_addEntry (entries : Bag) (path doc other : String) :
    (addEntry entries path doc).get? other =
      if other = path then Option.merge joinDocs (entries.get? path) (some doc)
      else entries.get? other := by
  unfold addEntry
  split
  next old known => rw [Table.get?_set, known, Option.merge_some_some]
  next new => rw [Table.get?_set, new, Option.merge_none_left]

/-- A path has the text that it has in one of the bags, or both texts joined. -/
theorem get?_merge {other : Bag} (nodup : other.names.Nodup) (entries : Bag) (path : String) :
    (merge entries other).get? path =
      Option.merge joinDocs (entries.get? path) (other.get? path) := by
  induction other generalizing entries with
  | nil => rw [Table.get?_nil, Option.merge_none_right, merge, List.foldl_nil]
  | cons entry rest ih =>
    simp only [Table.names, List.map_cons, List.nodup_cons] at nodup
    rw [merge_cons, ih nodup.2, get?_addEntry, Table.get?_cons]
    by_cases same : path = entry.1
    · -- Each path comes once, so nothing is added to this one later.
      subst same
      have absent : Table.get? rest entry.1 = none :=
        (Table.get?_eq_none_iff rest entry.1).mpr nodup.1
      rw [if_pos rfl, if_pos rfl, absent, Option.merge_none_right]
    · rw [if_neg same, if_neg (Ne.symm same)]

theorem merge_comm {left right : Bag} (leftSorted : left.Sorted) (rightSorted : right.Sorted) :
    merge left right = merge right left := by
  apply Table.eq_of_get? (sorted_merge leftSorted right) (sorted_merge rightSorted left)
  intro path
  rw [get?_merge rightSorted.nodup, get?_merge leftSorted.nodup]
  exact (Option.commutative_merge joinDocs).comm _ _

theorem merge_assoc {left middle right : Bag} (leftSorted : left.Sorted)
    (middleSorted : middle.Sorted) (rightSorted : right.Sorted) :
    merge (merge left middle) right = merge left (merge middle right) := by
  have innerSorted := sorted_merge middleSorted right
  apply Table.eq_of_get? (sorted_merge (sorted_merge leftSorted middle) right)
    (sorted_merge leftSorted (merge middle right))
  intro path
  rw [get?_merge rightSorted.nodup, get?_merge middleSorted.nodup, get?_merge innerSorted.nodup,
    get?_merge rightSorted.nodup]
  exact (Option.associative_merge joinDocs).assoc _ _ _

/-- Squeezing leaves, in order, the texts of a collection that no other text of it continues. It
depends on the texts alone, and leaves its own results as they are. So bags may be merged in any
order and in any grouping. The merged bag has the paths of both sides. Where only one side has a
path, its text is unchanged; where both have it, the parts of both texts are squeezed together. -/
theorem merge_lawful {left middle right : Bag} (leftSorted : left.Sorted)
    (middleSorted : middle.Sorted) (rightSorted : right.Sorted) :
    (∀ texts : List String, (squeeze texts).Pairwise (· < ·) ∧
      (∀ text, text ∈ squeeze texts ↔
        text ∈ texts ∧ ∀ other ∈ texts, ¬IsContinuedBy text other) ∧
      squeeze (squeeze texts) = squeeze texts ∧
      ∀ others, (∀ text, text ∈ texts ↔ text ∈ others) → squeeze texts = squeeze others) ∧
    merge left right = merge right left ∧
    merge (merge left middle) right = merge left (merge middle right) ∧
    (merge left right).Sorted ∧
    ∀ path, (path ∈ (merge left right).names ↔ path ∈ left.names ∨ path ∈ right.names) ∧
      (path ∉ right.names → (merge left right).get? path = left.get? path) ∧
      (path ∉ left.names → (merge left right).get? path = right.get? path) ∧
      ∀ old new, left.get? path = some old → right.get? path = some new →
        (merge left right).get? path =
          some ("|".intercalate (squeeze (parts old ++ parts new))) := by
  refine ⟨fun texts => ⟨squeeze_sorted texts, fun _ => mem_squeeze, squeeze_squeeze texts, ?_⟩,
    merge_comm leftSorted rightSorted, merge_assoc leftSorted middleSorted rightSorted,
    sorted_merge leftSorted right, fun path => ⟨mem_names_merge, ?_, ?_, ?_⟩⟩
  · intro others same
    exact squeeze_congr (isMaximal_congr same)
  · intro absent
    rw [get?_merge rightSorted.nodup, (Table.get?_eq_none_iff right path).mpr absent,
      Option.merge_none_right]
  · intro absent
    rw [get?_merge rightSorted.nodup, (Table.get?_eq_none_iff left path).mpr absent,
      Option.merge_none_left]
  · intro old new known added
    rw [get?_merge rightSorted.nodup, known, added, Option.merge_some_some, joinDocs_eq]

theorem merge_lawful_of_measures :
    let left : Bag := [("size", "Radius|Area")]
    let middle : Bag := [("size", "Radius in cm|"), ("tag", "")]
    let right : Bag := [("note", "|x"), ("size", "Area")]
    (left.Sorted ∧ middle.Sorted ∧ right.Sorted) ∧
      merge (merge left middle) right =
        [("note", "|x"), ("size", "Area|Radius in cm"), ("tag", "")] ∧
      merge (merge left middle) right = merge left (merge middle right) ∧
      merge left right = merge right left := by
  intro left middle right
  have leftSorted : left.Sorted := by decide
  have middleSorted : middle.Sorted := by decide
  have rightSorted : right.Sorted := by decide
  obtain ⟨-, commutes, associates, -⟩ := merge_lawful leftSorted middleSorted rightSorted
  exact ⟨⟨leftSorted, middleSorted, rightSorted⟩, by decide +kernel, associates, commutes⟩

end EntityGraph.Bag
