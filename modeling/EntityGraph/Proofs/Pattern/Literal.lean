import EntityGraph.Compile.Naming
import EntityGraph.Proofs.Pattern.Straight

/-!
# Patterns without special characters

A pattern that consists of plain characters, and of dots that may be escaped, is read as a sequence
of sets, one for each character. So it matches the text that it spells, and a template without a
dollar sign is what comes out of replacing the match.
-/
namespace EntityGraph.Pattern

/-- The characters that have a meaning in patterns. -/
def special : List Char := "\\()[]\x7b\x7d|*+?^$".toList

/-- The text of a pattern spells a plain text. -/
inductive Spells : List Char → List Char → Prop
  | nil : Spells [] []
  | escaped {text plain : List Char} : Spells text plain →
    Spells ('\\' :: '.' :: text) ('.' :: plain)
  | char {c : Char} {text plain : List Char} : c ∉ special → Spells text plain →
    Spells (c :: text) (c :: plain)

theorem spells_replacePair {text : List Char}
    (plain : ∀ c ∈ Text.replacePair '\\' '.' '.' text, c ∉ special) :
    Spells text (Text.replacePair '\\' '.' '.' text) := by
  fun_induction Text.replacePair '\\' '.' '.' text with
  | case1 => exact .nil
  | case2 c => exact .char (plain c List.mem_cons_self) .nil
  | case3 c d rest pair ih =>
    obtain ⟨rfl, rfl⟩ := pair
    exact .escaped (ih fun c member => plain c (List.mem_cons_of_mem _ member))
  | case4 c d rest _ ih =>
    exact .char (plain c List.mem_cons_self)
      (ih fun c member => plain c (List.mem_cons_of_mem _ member))

theorem spells_of_literalText? {text plain : String}
    (literal : Compile.literalText? text = some plain) : Spells text.toList plain.toList := by
  simp only [Compile.literalText?] at literal
  split at literal
  · cases literal
  next plainOnly =>
    obtain rfl := Option.some.inj literal
    rw [String.toList_ofList]
    refine spells_replacePair fun c member has => plainOnly ?_
    exact List.any_eq_true.mpr ⟨c, member, List.contains_iff_mem.mpr has⟩

/-! ## Reading -/

theorem contains_single (c : Char) : (CharSet.single c).contains c = true := by
  simp [CharSet.single, CharSet.contains]

/-- A plain character is read as a set that has it. That of the dot has others too. -/
theorem primitive?_of_not_special {c : Char} (plain : c ∉ special) :
    ∃ members, members.contains c = true ∧ ∀ rest,
      primitive? .standard (c :: rest) = some (.leaf (.set members), rest) := by
  by_cases dot : c = '.'
  · subst dot
    exact ⟨.compl (.single '\n'), by decide, fun _ => rfl⟩
  · refine ⟨.single c, contains_single c, fun rest => ?_⟩
    -- All other cases are for special characters.
    unfold primitive?
    split
    case h_1 same => cases same
    case h_3 same => exact absurd (List.cons.inj same).1 dot
    case h_7 same =>
      obtain ⟨rfl, rfl⟩ := List.cons.inj same
      rfl
    all_goals
      next same =>
        obtain ⟨rfl, -⟩ := List.cons.inj same
        exact absurd (by decide) plain

/-- An escaped dot is read as the set of the dot. -/
theorem primitive?_escaped (rest : List Char) :
    primitive? .standard ('\\' :: '.' :: rest) = some (.leaf (.set (.single '.')), rest) := by
  rfl

/-- The characters that begin or end something in a pattern, or repeat it. -/
def nesting : List Char := "()|?*+\x7b".toList

theorem nesting_special : nesting ⊆ special := by decide

/-- A character that has no meaning for the nesting of a pattern is read as a piece of its own. -/
theorem alternatives?_primitive {steps : Nat} {groups : Groups} {branches : List Built}
    {items : List Item} {c : Char} {chars rest : List Char} {part : Built}
    (inside : c ∉ nesting)
    (read : primitive? .standard (c :: chars) = some (part, rest)) :
    alternatives? (steps + 1) .standard groups branches items (c :: chars) =
      alternatives? steps .standard groups branches (.piece part :: items) rest := by
  have skips : skip .standard (c :: chars) = c :: chars := rfl
  rw [alternatives?, skips]
  split
  case h_1 same => cases same
  case h_9 =>
    rw [read]
    rfl
  all_goals
    next same =>
      obtain ⟨rfl, -⟩ := List.cons.inj same
      exact absurd (by decide) inside

/-- The piece that is read for a character. -/
def setPiece (members : CharSet) : Item := .piece (.leaf (.set members))

/-- What spells a plain text is read up to the end of its group, as one set for each character. -/
theorem alternatives?_spells {text plain : List Char} (spells : Spells text plain) :
    ∃ sets, List.Forall₂ (fun members c => members.contains c = true) sets plain ∧
      ∀ steps groups items rest, text.length < steps →
        alternatives? steps .standard groups [] items (text ++ ')' :: rest) =
          some (sequenceOf ((sets.map setPiece).reverse ++ items), groups, ')' :: rest) := by
  induction spells with
  | nil =>
    refine ⟨[], .nil, fun steps groups items rest enough => ?_⟩
    obtain ⟨left, rfl⟩ := Nat.exists_eq_succ_of_ne_zero (Nat.ne_of_gt enough)
    rfl
  | @escaped text plain _ ih =>
    obtain ⟨sets, contains, reads⟩ := ih
    refine ⟨.single '.' :: sets, .cons (contains_single '.') contains, ?_⟩
    intro steps groups items rest enough
    obtain ⟨left, rfl⟩ := Nat.exists_eq_succ_of_ne_zero (Nat.ne_of_gt (Nat.zero_lt_of_lt enough))
    simp only [List.length_cons, List.cons_append] at enough ⊢
    rw [alternatives?_primitive (by decide) (primitive?_escaped _),
      reads left groups _ rest (by omega)]
    simp [setPiece]
  | @char c text plain notSpecial _ ih =>
    obtain ⟨sets, contains, reads⟩ := ih
    obtain ⟨members, has, read⟩ := primitive?_of_not_special notSpecial
    refine ⟨members :: sets, .cons has contains, ?_⟩
    intro steps groups items rest enough
    obtain ⟨left, rfl⟩ := Nat.exists_eq_succ_of_ne_zero (Nat.ne_of_gt (Nat.zero_lt_of_lt enough))
    simp only [List.length_cons, List.cons_append] at enough ⊢
    rw [alternatives?_primitive (fun inside => notSpecial (nesting_special inside)) (read _),
      reads left groups _ rest (by omega)]
    simp [setPiece]

theorem node_join_seq (parts : List Built) :
    (Built.join .seq parts).node = sequence (parts.map (·.node)) := by
  match parts with
  | [] => rfl
  | [part] => rfl
  | first :: second :: others =>
    simp only [Built.join, sequence, List.map_cons, List.foldl_cons, List.foldl_map]

theorem node_sequenceOf (sets : List CharSet) :
    (sequenceOf (sets.map setPiece).reverse).node = sequence (sets.map .set) := by
  rw [sequenceOf, List.reverse_reverse, node_join_seq, List.map_map, List.map_map]
  rfl

/-- A group without a mark is read as one piece. -/
theorem alternatives?_group {steps : Nat} {groups after : Groups} {branches : List Built}
    {items : List Item} {text rest : List Char} {body : Built}
    (inner : alternatives? steps .standard groups [] [] text = some (body, after, ')' :: rest)) :
    alternatives? (steps + 1) .standard groups branches items ('(' :: '?' :: ':' :: text) =
      alternatives? steps .standard after branches (.piece (body.group none) :: items) rest := by
  have skips (chars : List Char) : skip .standard chars = chars := rfl
  have opens : groupHead? .standard ('?' :: ':' :: text) = some (.plain .standard, text) := rfl
  rw [alternatives?]
  simp only [skips, opens, Option.bind_eq_bind, Option.bind_some, inner]

/-- Between the ends that are put around it, the text of a pattern is a group that is not marked. -/
theorem alternatives?_ends {steps : Nat} {text : List Char} {body : Built}
    (inner : alternatives? (steps + 2) .standard ⟨0, []⟩ [] [] (text ++ [')', '$']) =
      some (body, ⟨0, []⟩, [')', '$'])) :
    alternatives? (steps + 4) .standard ⟨0, []⟩ [] []
        ('^' :: '(' :: '?' :: ':' :: (text ++ [')', '$'])) =
      some (.join .seq [.leaf (.look .textStart), body.group none, .leaf (.look .textEnd)],
        ⟨0, []⟩, []) := by
  rw [alternatives?_primitive (by decide) rfl, alternatives?_group inner,
    alternatives?_primitive (by decide) rfl]
  rfl

/-- The pattern for a whole text has what is read of it between the two ends. -/
theorem whole_eq_of_reads {text : String} {body : Built} {pattern : Pattern}
    (reads : ∀ steps, text.toList.length < steps →
      alternatives? steps .standard ⟨0, []⟩ [] [] (text.toList ++ [')', '$']) =
        some (body, ⟨0, []⟩, [')', '$']))
    (read : whole text = .ok pattern) :
    pattern = ⟨.seq (.seq (.look .textStart) body.node) (.look .textEnd), []⟩ := by
  have chars : ("^(?:" ++ text ++ ")$").toList =
      '^' :: '(' :: '?' :: ':' :: (text.toList ++ [')', '$']) := by simp
  -- The characters around the text give more steps than are needed to read it.
  have long : ("^(?:" ++ text ++ ")$").length + 2 = text.toList.length + 4 + 4 := by
    rw [← String.length_toList, chars]
    simp
  have inner := reads (text.toList.length + 4 + 2) (by omega)
  rw [whole, ofText?, long, chars, alternatives?_ends inner] at read
  dsimp only at read
  split_ifs at read
  obtain rfl := Except.ok.inj read
  rfl

/-- A pattern without special characters is the sequence of a set for each of its characters. -/
theorem root_of_spells {text : String} {plain : List Char} (spells : Spells text.toList plain)
    {pattern : Pattern} (read : whole text = .ok pattern) :
    ∃ sets, List.Forall₂ (fun members c => members.contains c = true) sets plain ∧
      pattern = ⟨wholeSequence sets, []⟩ := by
  obtain ⟨sets, contains, reads⟩ := alternatives?_spells spells
  refine ⟨sets, contains, ?_⟩
  rw [wholeSequence, ← node_sequenceOf]
  refine whole_eq_of_reads (fun steps enough => ?_) read
  rw [reads steps ⟨0, []⟩ [] ['$'] enough, List.append_nil]

/-! ## Replacing -/

theorem pieces_of_no_dollar {length : Nat} {chars : List Char} (none : '$' ∉ chars)
    (bounded : chars.length ≤ length) : pieces length chars = chars.map .char := by
  induction length generalizing chars with
  | zero =>
    rw [List.length_eq_zero_iff.mp (Nat.le_zero.mp bounded)]
    rfl
  | succ length ih =>
    cases chars with
    | nil => rfl
    | cons c rest =>
      simp only [List.mem_cons, not_or, List.length_cons] at none bounded
      rw [pieces, ih none.2 (by omega), List.map_cons]
      · exact fun _ same _ => none.1 same.symm
      · exact fun same => none.1 same.symm

/-- A template without a dollar sign stands for itself. -/
theorem expand_of_no_dollar {template : String} (none : '$' ∉ template.toList) (pattern : Pattern)
    (found : Match) : expand pattern found template = template.toList := by
  rw [expand, pieces_of_no_dollar none (Nat.le_of_eq String.length_toList), List.flatMap_map]
  exact List.flatMap_singleton' _

/-- A pattern without special characters matches the text that it spells, and such a template is
what comes out. -/
theorem replace?_of_literalText? {text plain template : String} {pattern : Pattern}
    (read : whole text = .ok pattern) (literal : Compile.literalText? text = some plain)
    (none : '$' ∉ template.toList) : pattern.replace? plain template = some template := by
  obtain ⟨sets, contains, rfl⟩ := root_of_spells (spells_of_literalText? literal) read
  rw [replace?, find?_wholeSequence contains, Option.map_some, substitute,
    expand_of_no_dollar none]
  simp [Match.mark?]

end EntityGraph.Pattern
