import EntityGraph.Json.Decode
import EntityGraph.Json.Printer
import EntityGraph.Json.Reader
import EntityGraph.Proofs.Decimal.Rounding

/-!
# The text of a value

Induction over values, finite values, and the characters of a text: what numbers are written with,
and the two layouts, which differ in the blanks between the parts only.
-/
namespace EntityGraph.Json

open Decimal (isNumeral)

/-! ## Induction -/

/-- Induction over values: a list or object after all of its parts. -/
theorem induction {motive : Json → Prop} (null : motive .null)
    (bool : ∀ value, motive (.bool value))
    (int : ∀ value, motive (.int value)) (float : ∀ value, motive (.float value))
    (str : ∀ value, motive (.str value))
    (arr : ∀ items, (∀ item ∈ items, motive item) → motive (.arr items))
    (obj : ∀ members, (∀ member ∈ members, motive member.2) → motive (.obj members))
    (value : Json) : motive value :=
  @Json.rec motive (fun items => ∀ item ∈ items, motive item)
    (fun members => ∀ member ∈ members, motive member.2) (fun member => motive member.2)
    null bool int float str arr obj
    (List.forall_mem_nil _) (fun _ _ first rest => List.forall_mem_cons.mpr ⟨first, rest⟩)
    (List.forall_mem_nil _) (fun _ _ first rest => List.forall_mem_cons.mpr ⟨first, rest⟩)
    (fun _ _ second => second) value

/-! ## Finite values -/

mutual

/-- Whether all doubles of a value are finite. -/
def IsFinite : Json → Prop
  | .float value => value.isFinite = true
  | .arr items => ItemsFinite items
  | .obj members => MembersFinite members
  | .null | .bool _ | .int _ | .str _ => True

def ItemsFinite : List Json → Prop
  | [] => True
  | item :: rest => IsFinite item ∧ ItemsFinite rest

def MembersFinite : List (String × Json) → Prop
  | [] => True
  | (_, value) :: rest => IsFinite value ∧ MembersFinite rest

end

theorem isFinite_arr {items : List Json} :
    IsFinite (.arr items) ↔ ∀ item ∈ items, IsFinite item := by
  rw [IsFinite]
  induction items with
  | nil => simp [ItemsFinite]
  | cons item rest ih => simp [ItemsFinite, ih]

theorem isFinite_map {α : Type} {encode : α → Json} {values : List α}
    (finite : ∀ value ∈ values, IsFinite (encode value)) :
    IsFinite (.arr (values.map encode)) := by
  rw [isFinite_arr, List.forall_mem_map]
  exact finite

theorem isFinite_obj {members : List (String × Json)} :
    IsFinite (.obj members) ↔ ∀ member ∈ members, IsFinite member.2 := by
  rw [IsFinite]
  induction members with
  | nil => simp [MembersFinite]
  | cons member rest ih => simp [MembersFinite, ih]

/-! ## Heights -/

theorem height_le_heightItems {item : Json} {items : List Json} (member : item ∈ items) :
    height item ≤ heightItems items := by
  induction items with
  | nil => cases member
  | cons first rest ih =>
    rw [heightItems]
    rcases List.mem_cons.mp member with rfl | behind
    · exact le_max_left _ _
    · exact (ih behind).trans (le_max_right _ _)

theorem height_le_heightMembers {member : String × Json} {members : List (String × Json)}
    (among : member ∈ members) : height member.2 ≤ heightMembers members := by
  induction members with
  | nil => cases among
  | cons first rest ih =>
    rw [heightMembers]
    rcases List.mem_cons.mp among with rfl | behind
    · exact le_max_left _ _
    · exact (ih behind).trans (le_max_right _ _)

theorem height_lt_obj {member : String × Json} {members : List (String × Json)}
    (among : member ∈ members) : height member.2 < height (.obj members) := by
  rw [height]
  exact Nat.lt_succ_of_le (height_le_heightMembers among)

/-! ## Numbers -/

/-- What may follow a number. -/
def Stops (rest : List Char) : Prop := ∀ c ∈ rest.head?, isNumeral c = false ∧ c ≠ 'E'

/-- The text of a finite double. -/
theorem floatText_spec {value : Float} (finite : value.isFinite = true) :
    floatText value = Decimal.signText value ++ (Decimal.shortest value).layout := by
  rw [floatText, Decimal.render?_of_isFinite finite, Option.getD_some]

theorem isNumeral_floatText {value : Float} (finite : value.isFinite = true) :
    ∀ c ∈ (floatText value).toList, isNumeral c = true := by
  intro c member
  rw [floatText_spec finite, String.toList_append] at member
  rcases List.mem_append.mp member with sign | magnitude
  · unfold Decimal.signText at sign
    split at sign
    · rw [List.mem_singleton.mp sign]
      rfl
    · cases sign
  · exact (Decimal.layout_isFractional _).letters c magnitude

theorem floatText_ne_nil {value : Float} (finite : value.isFinite = true) :
    (floatText value).toList ≠ [] := by
  obtain ⟨first, rest, letters, -⟩ :=
    (Decimal.layout_isFractional (Decimal.shortest value)).digit
  rw [floatText_spec finite, String.toList_append, letters]
  simp

theorem floatText_injective {left right : Float} (leftFinite : left.isFinite = true)
    (rightFinite : right.isFinite = true) (same : floatText left = floatText right) :
    left = right := by
  rw [floatText_spec leftFinite, floatText_spec rightFinite] at same
  refine Decimal.render?_injective leftFinite rightFinite ?_
  rw [Decimal.render?_of_isFinite leftFinite, Decimal.render?_of_isFinite rightFinite, same]

/-- A double is written with a point or an exponent, an integer is not. -/
theorem floatText_ne_int {value : Float} (finite : value.isFinite = true) (n : Int) :
    floatText value ≠ toString n := by
  intro same
  rw [floatText_spec finite] at same
  have letters (c : Char) (member : c ∈ (Decimal.shortest value).layout.toList) :
      c.isDigit = true ∨ c = '-' := by
    refine Decimal.letters_int n c ?_
    rw [← same, String.toList_append]
    exact List.mem_append_right _ member
  rcases (Decimal.layout_isFractional (Decimal.shortest value)).marked with point | exponent
  · exact absurd (letters '.' point) (by decide)
  · exact absurd (letters 'e' exponent) (by decide)

/-! ## Layouts -/

/-- How the parts of a text are set apart: by blanks before each part of a level, and by blanks
behind a colon. -/
structure Layout where
  lineBreak : Nat → List Char
  space : List Char
  lineBreak_blank : ∀ level, ∀ c ∈ lineBreak level, isBlank c = true
  space_blank : ∀ c ∈ space, isBlank c = true

theorem toList_lineBreak (level : Nat) :
    (lineBreak level).toList = '\n' :: List.replicate (2 * level) ' ' :=
  Decimal.toList_pushn "\n" ' ' (2 * level)

namespace Layout

/-- No blanks at all. -/
def dense : Layout := ⟨fun _ => [], [], by simp, by simp⟩

/-- Each part on its own line, two spaces further in for each level. -/
def indented : Layout where
  lineBreak level := (Json.lineBreak level).toList
  space := [' ']
  lineBreak_blank := by
    intro level c member
    rw [toList_lineBreak] at member
    rcases List.mem_cons.mp member with rfl | blank
    · rfl
    · rw [List.eq_of_mem_replicate blank]
      rfl
  space_blank := by simp [isBlank]

variable (layout : Layout)

mutual

/-- The text of a value that stands at `level`. -/
def write (level : Nat) : Json → List Char
  | .null => "null".toList
  | .bool value => (if value then "true" else "false").toList
  | .int value => (toString value).toList
  | .float value => (floatText value).toList
  | .str value => (quote value).toList
  | .arr [] => ['[', ']']
  | .arr (item :: rest) =>
    '[' :: (layout.lineBreak (level + 1) ++ (writeItems (level + 1) (item :: rest) ++
      (layout.lineBreak level ++ [']'])))
  | .obj [] => ['\x7b', '\x7d']
  | .obj (member :: rest) =>
    '\x7b' :: (layout.lineBreak (level + 1) ++ (writeMembers (level + 1) (member :: rest) ++
      (layout.lineBreak level ++ ['\x7d'])))

def writeItems (level : Nat) : List Json → List Char
  | [] => []
  | [item] => write level item
  | item :: rest => write level item ++ ',' :: (layout.lineBreak level ++ writeItems level rest)

def writeMembers (level : Nat) : List (String × Json) → List Char
  | [] => []
  | [(key, value)] => (quote key).toList ++ ':' :: (layout.space ++ write level value)
  | (key, value) :: rest =>
    (quote key).toList ++ ':' :: (layout.space ++ (write level value ++
      ',' :: (layout.lineBreak level ++ writeMembers level rest)))

end

end Layout

mutual

theorem toList_prettyAt (level : Nat) : ∀ value : Json,
    (prettyAt level value).toList = Layout.indented.write level value
  | .null => by rw [prettyAt, Layout.write]
  | .bool value => by rw [prettyAt, Layout.write]
  | .int value => by rw [prettyAt, Layout.write]
  | .float value => by rw [prettyAt, Layout.write]
  | .str value => by rw [prettyAt, Layout.write]
  | .arr [] => by rw [prettyAt, Layout.write]; rfl
  | .arr (item :: rest) => by
    rw [prettyAt, Layout.write, ← toList_prettyItems (level + 1) (item :: rest)]
    simp [Layout.indented]
  | .obj [] => by rw [prettyAt, Layout.write]; rfl
  | .obj (member :: rest) => by
    rw [prettyAt, Layout.write, ← toList_prettyMembers (level + 1) (member :: rest)]
    simp [Layout.indented]

theorem toList_prettyItems (level : Nat) : ∀ items : List Json,
    (prettyItems level items).toList = Layout.indented.writeItems level items
  | [] => by rw [prettyItems, Layout.writeItems]; rfl
  | [item] => by rw [prettyItems, Layout.writeItems, toList_prettyAt level item]
  | item :: next :: rest => by
    rw [prettyItems, Layout.writeItems, ← toList_prettyAt level item,
      ← toList_prettyItems level (next :: rest)]
    · simp [Layout.indented]
    · simp
    · simp

theorem toList_prettyMembers (level : Nat) : ∀ members : List (String × Json),
    (prettyMembers level members).toList = Layout.indented.writeMembers level members
  | [] => by rw [prettyMembers, Layout.writeMembers]; rfl
  | [(key, value)] => by
    rw [prettyMembers, Layout.writeMembers, ← toList_prettyAt level value]
    simp [Layout.indented]
  | (key, value) :: next :: rest => by
    rw [prettyMembers, Layout.writeMembers, ← toList_prettyAt level value,
      ← toList_prettyMembers level (next :: rest)]
    · simp [Layout.indented]
    · simp
    · simp

end

mutual

theorem toList_compact (level : Nat) : ∀ value : Json,
    (compact value).toList = Layout.dense.write level value
  | .null => by rw [compact, Layout.write]
  | .bool value => by rw [compact, Layout.write]
  | .int value => by rw [compact, Layout.write]
  | .float value => by rw [compact, Layout.write]
  | .str value => by rw [compact, Layout.write]
  | .arr [] => by rw [compact, compactItems, Layout.write]; rfl
  | .arr (item :: rest) => by
    rw [compact, Layout.write, ← toList_compactItems (level + 1) (item :: rest)]
    simp [Layout.dense]
  | .obj [] => by rw [compact, compactMembers, Layout.write]; rfl
  | .obj (member :: rest) => by
    rw [compact, Layout.write, ← toList_compactMembers (level + 1) (member :: rest)]
    simp [Layout.dense]

theorem toList_compactItems (level : Nat) : ∀ items : List Json,
    (compactItems items).toList = Layout.dense.writeItems level items
  | [] => by rw [compactItems, Layout.writeItems]; rfl
  | [item] => by rw [compactItems, Layout.writeItems, toList_compact level item]
  | item :: next :: rest => by
    rw [compactItems, Layout.writeItems, ← toList_compact level item,
      ← toList_compactItems level (next :: rest)]
    · simp [Layout.dense]
    · simp
    · simp

theorem toList_compactMembers (level : Nat) : ∀ members : List (String × Json),
    (compactMembers members).toList = Layout.dense.writeMembers level members
  | [] => by rw [compactMembers, Layout.writeMembers]; rfl
  | [(key, value)] => by
    rw [compactMembers, Layout.writeMembers, ← toList_compact level value]
    simp [Layout.dense]
  | (key, value) :: next :: rest => by
    rw [compactMembers, Layout.writeMembers, ← toList_compact level value,
      ← toList_compactMembers level (next :: rest)]
    · simp [Layout.dense]
    · simp
    · simp

end

end EntityGraph.Json
