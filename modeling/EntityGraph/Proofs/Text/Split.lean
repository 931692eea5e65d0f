import EntityGraph.Text.Basic
import EntityGraph.Text.Case

/-!
# Pieces of a text

The pieces between separators have no separator in them, and pieces that have none are found again
in the text that they make. What is dropped from the start of a text is found there. The name that
is made for a type path goes through its segments one by one, so the name of a path inside of
another one is the name of the outer path with that of the rest behind it.
-/
namespace EntityGraph.Text

theorem splitChars_ne_nil (separator : Char) (text : List Char) :
    splitChars separator text ≠ [] := by
  cases text with
  | nil => simp [splitChars]
  | cons c rest =>
    simp only [splitChars]
    split
    · simp
    · split <;> simp

theorem splitChars_append (separator : Char) (before after : List Char) :
    splitChars separator (before ++ separator :: after) =
      splitChars separator before ++ splitChars separator after := by
  induction before with
  | nil => simp [splitChars]
  | cons c rest ih =>
    simp only [List.cons_append, splitChars, ih]
    split
    · rfl
    · cases pieces : splitChars separator rest with
      | nil => exact absurd pieces (splitChars_ne_nil separator rest)
      | cons => rfl

variable {separator : Char}

theorem splitChars_eq_singleton {piece : List Char} (free : separator ∉ piece) :
    splitChars separator piece = [piece] := by
  induction piece with
  | nil => rfl
  | cons c piece ih =>
    have different := List.ne_of_not_mem_cons free
    rw [splitChars, if_neg different.symm, ih (List.not_mem_of_not_mem_cons free)]

/-- Pieces without separators are found again in the text that they make. -/
theorem split_intercalate {joint : String} (isJoint : joint.toList = [separator])
    {pieces : List String} (nonempty : pieces ≠ [])
    (free : ∀ piece ∈ pieces, separator ∉ piece.toList) :
    split separator (joint.intercalate pieces) = pieces := by
  induction pieces with
  | nil => exact absurd rfl nonempty
  | cons piece rest ih =>
    have freePiece := free piece List.mem_cons_self
    cases rest with
    | nil =>
      rw [String.intercalate_singleton, split, splitChars_eq_singleton freePiece]
      simp
    | cons next rest =>
      have later := ih (List.cons_ne_nil _ _) fun other member =>
        free other (List.mem_cons_of_mem _ member)
      have text : (joint.intercalate (piece :: next :: rest)).toList =
          piece.toList ++ separator :: (joint.intercalate (next :: rest)).toList := by
        simp [String.intercalate_cons_cons, isJoint]
      rw [split, text, splitChars_append, splitChars_eq_singleton freePiece, List.map_append,
        ← split, later]
      simp

theorem not_mem_of_mem_splitChars {cs piece : List Char}
    (member : piece ∈ splitChars separator cs) : separator ∉ piece := by
  induction cs generalizing piece with
  | nil => simp_all [splitChars]
  | cons c rest ih =>
    rw [splitChars] at member
    split at member
    · rcases List.mem_cons.mp member with rfl | inRest
      · exact List.not_mem_nil
      · exact ih inRest
    next different =>
      split at member
      next first pieces parts =>
        rw [parts] at ih
        rcases List.mem_cons.mp member with rfl | inRest
        · exact fun has => (List.mem_cons.mp has).elim (fun same => different same.symm)
            (ih List.mem_cons_self)
        · exact ih (List.mem_cons_of_mem _ inRest)
      next =>
        obtain rfl := List.mem_singleton.mp member
        exact fun has => different (List.mem_singleton.mp has).symm

theorem not_mem_of_mem_split {text piece : String} (member : piece ∈ split separator text) :
    separator ∉ piece.toList := by
  obtain ⟨cs, inSplit, rfl⟩ := List.mem_map.mp member
  rw [String.toList_ofList]
  exact not_mem_of_mem_splitChars inSplit

/-! ## The last piece -/

/-- Behind the last separator there is none. -/
theorem exists_last (separator : Char) (text : List Char) :
    ∃ front last, text = front ++ last ∧ (front = [] ∨ ∃ before, front = before ++ [separator]) ∧
      separator ∉ last := by
  by_cases has : separator ∈ text.reverse
  · obtain ⟨last, before, parts, free⟩ := List.eq_append_cons_of_mem has
    refine ⟨before.reverse ++ [separator], last.reverse, ?_, .inr ⟨_, rfl⟩,
      fun member => free (List.mem_reverse.mp member)⟩
    rw [← List.reverse_reverse text, parts]
    simp
  · exact ⟨[], text, rfl, .inl rfl, fun member => has (List.mem_reverse.mpr member)⟩

theorem getLastD_splitChars {front last : List Char}
    (ends : front = [] ∨ ∃ before, front = before ++ [separator]) (free : separator ∉ last) :
    (splitChars separator (front ++ last)).getLastD [] = last := by
  rcases ends with rfl | ⟨before, rfl⟩
  · rw [List.nil_append, splitChars_eq_singleton free]
    rfl
  · rw [List.append_assoc, List.singleton_append, splitChars_append, splitChars_eq_singleton free,
      List.getLastD_concat]

/-! ## Beginnings -/

theorem dropStart?_eq_some {start whole rest : String} :
    dropStart? start whole = some rest ↔ whole.toList = start.toList ++ rest.toList := by
  rw [dropStart?, Option.ite_none_right_eq_some, Option.some.injEq, List.isPrefixOf_iff_prefix]
  constructor
  · rintro ⟨begins, rfl⟩
    rw [String.toList_ofList, ← String.length_toList]
    exact (List.prefix_iff_eq_append.mp begins).symm
  · intro parts
    refine ⟨⟨rest.toList, parts.symm⟩, ?_⟩
    rw [parts, ← String.length_toList, List.drop_left, String.ofList_toList]

/-! ## Names of nested paths -/

theorem intercalate_append_of_ne_nil {separator : List Char} {left right : List (List Char)}
    (first : left ≠ []) (second : right ≠ []) :
    separator.intercalate (left ++ right) =
      separator.intercalate left ++ separator ++ separator.intercalate right := by
  induction left with
  | nil => contradiction
  | cons piece rest ih =>
    rw [List.cons_append, List.intercalate_cons_of_ne_nil (by simp [second])]
    cases rest with
    | nil => simp
    | cons next rest =>
      rw [ih (by simp), List.intercalate_cons_cons]
      simp

/-- A word starts behind a dot, whatever stands in front of it. -/
theorem joinWords_append (capital : Bool) (before after : List Char) :
    joinWords capital (before ++ '.' :: after) =
      joinWords capital before ++ joinWords true after := by
  induction before generalizing capital with
  | nil => rfl
  | cons c rest ih =>
    simp only [List.cons_append, joinWords]
    split
    · exact ih true
    · rw [ih false, List.cons_append]

theorem pascalName_append (path name : String) :
    pascalName (path ++ "." ++ name) = pascalName path ++ pascalName name := by
  have chars : (path ++ "." ++ name).toList = path.toList ++ '.' :: name.toList := by simp
  simp only [pascalName, chars, splitChars_append, List.map_append]
  rw [intercalate_append_of_ne_nil (by simp [splitChars_ne_nil]) (by simp [splitChars_ne_nil]),
    List.append_assoc, List.singleton_append, joinWords_append, String.ofList_append]

end EntityGraph.Text
