import EntityGraph.Proofs.Calendar.Reading
import EntityGraph.Proofs.Decimal.Numerals
import EntityGraph.Proofs.Pattern.Language
import EntityGraph.Proofs.Pattern.Literal
import EntityGraph.Scalar.Facets

/-!
# Patterns that count digits

A pattern that only says how many digits there are is read as a repetition of the set of digits. So
it takes no more characters than its upper count says, and alternatives of such patterns take no
more than the highest of these counts.
-/
namespace EntityGraph.Pattern

open Decimal (AllDigits IsDigits digitsOf)

/-- The text of a pattern for digits, and how many there are at least and at most. -/
inductive CountsDigits : List Char → Nat → Nat → Prop
  | exactly {digits : List Char} (isDigits : IsDigits digits) :
      CountsDigits ("\\d\x7b".toList ++ digits ++ ['\x7d']) (digitsOf digits) (digitsOf digits)
  | between {fewest greatest : List Char} (fewestDigits : IsDigits fewest)
      (greatestDigits : IsDigits greatest) (ordered : digitsOf fewest ≤ digitsOf greatest) :
      CountsDigits ("\\d\x7b".toList ++ fewest ++ ',' :: greatest ++ ['\x7d']) (digitsOf fewest)
        (digitsOf greatest)

/-! ## Numbers -/

theorem skip_standard (chars : List Char) : skip .standard chars = chars := rfl

theorem digits_append {run rest : List Char} (allDigits : AllDigits run) (ends : EndsDigits rest)
    {steps : Nat} (enough : run.length ≤ steps) :
    digits .standard steps (run ++ rest) = (run, rest) := by
  induction run generalizing steps with
  | nil =>
    cases steps with
    | zero => rfl
    | succ steps =>
      cases rest with
      | nil => rfl
      | cons c rest =>
        have stop : ¬Text.isDigit c = true := Bool.eq_false_iff.mp (ends c rfl)
        rw [List.nil_append, digits, if_neg stop]
  | cons c run ih =>
    obtain ⟨left, rfl⟩ := Nat.exists_eq_succ_of_ne_zero (Nat.ne_of_gt (Nat.zero_lt_of_lt enough))
    have digit : Text.isDigit c = true := allDigits c List.mem_cons_self
    have more := ih (fun d member => allDigits d (List.mem_cons_of_mem c member))
      (Nat.le_of_succ_le_succ enough)
    rw [List.cons_append, digits, if_pos digit, skip_standard, more]

theorem dropWhile_isBlank {run : List Char} (isDigits : IsDigits run) (rest : List Char) :
    (run ++ rest).dropWhile Text.isBlank = run ++ rest :=
  DateForm.trimLeftChars_digits isDigits.2 isDigits.1 rest

/-- A number ends at a mark that is no blank. -/
theorem count_append {run rest : List Char} {mark : Char} (isDigits : IsDigits run)
    (small : digitsOf run ≤ Decimal.maxCount) (noDigit : mark.isDigit = false)
    (noBlank : Text.isBlank mark = false) :
    count .standard (run ++ mark :: rest) = (some (digitsOf run), mark :: rest) := by
  have read : digits .standard (run ++ mark :: rest).length (run ++ mark :: rest) =
      (run, mark :: rest) :=
    digits_append isDigits.2 (endsDigits_cons noDigit rest) (by simp)
  have fits : (some (digitsOf run)).filter (· ≤ Decimal.maxCount) = some (digitsOf run) := by
    simp [small]
  rw [count, dropWhile_isBlank isDigits]
  simp only [read, Decimal.natural?_of_isDigits isDigits, fits]
  simp [noBlank]

theorem bounds?_exactly {run : List Char} (isDigits : IsDigits run)
    (small : digitsOf run ≤ Decimal.maxCount) (rest : List Char) :
    bounds? .standard (run ++ '\x7d' :: rest) =
      some ((digitsOf run, some (digitsOf run)), rest) := by
  rw [bounds?, skip_standard, count_append isDigits small rfl rfl]
  rfl

theorem bounds?_between {fewest greatest : List Char} (fewestDigits : IsDigits fewest)
    (greatestDigits : IsDigits greatest) (ordered : digitsOf fewest ≤ digitsOf greatest)
    (small : digitsOf greatest ≤ Decimal.maxCount) (rest : List Char) :
    bounds? .standard (fewest ++ ',' :: (greatest ++ '\x7d' :: rest)) =
      some ((digitsOf fewest, some (digitsOf greatest)), rest) := by
  have noBrace := @IsDigits.append_ne _ greatestDigits '\x7d' rfl ('\x7d' :: rest)
  rw [bounds?, skip_standard, count_append fewestDigits (ordered.trans small) rfl rfl]
  have read := @count_append greatest rest '\x7d' greatestDigits small rfl rfl
  simp only [skip_standard, read, if_pos ordered]

/-! ## Pieces -/

/-- The pattern of a number of digits. -/
def digitPiece (least most : Nat) : Built := ⟨.repeated least (some most) true (.set .digit), 1⟩

theorem noWider_digitPiece (least most : Nat) : (digitPiece least most).node.NoWider most := by
  simpa [digitPiece] using (Node.NoWider.set .digit).repeated least most true

/-- A count repeats the piece before it. -/
theorem alternatives?_brace {steps : Nat} {groups : Groups} {branches : List Built} {part : Built}
    {items : List Item} {chars rest : List Char} {least most : Nat}
    (bounds : bounds? .standard chars = some ((least, some most), ')' :: rest)) :
    alternatives? (steps + 1) .standard groups branches (.piece part :: items) ('\x7b' :: chars) =
      alternatives? steps .standard groups branches
        (.piece ⟨.repeated least (some most) true part.node, part.depth + 1⟩ :: items)
        (')' :: rest) := by
  rw [alternatives?]
  simp only [skip_standard, bounds]
  rfl

/-- Up to the end of a group, the text of a pattern is read as one part, and opens no marked
group. -/
def ReadsAs (text : List Char) (part : Built) : Prop :=
  ∀ steps groups rest, text.length < steps →
    alternatives? steps .standard groups [] [] (text ++ ')' :: rest) =
      some (part, groups, ')' :: rest)

/-- Behind the digits there is a count, with the bounds of the pattern. -/
theorem CountsDigits.exists_bounds {text : List Char} {least most : Nat}
    (counts : CountsDigits text least most) (small : most ≤ Decimal.maxCount) :
    ∃ bounds, text = '\\' :: 'd' :: '\x7b' :: bounds ∧ ∀ rest,
      bounds? .standard (bounds ++ rest) = some ((least, some most), rest) := by
  cases counts with
  | @exactly run isDigits =>
    refine ⟨run ++ ['\x7d'], by simp, fun rest => ?_⟩
    rw [List.append_assoc]
    exact bounds?_exactly isDigits small rest
  | @between fewest greatest fewestDigits greatestDigits ordered =>
    refine ⟨fewest ++ ',' :: (greatest ++ ['\x7d']), by simp, fun rest => ?_⟩
    rw [List.append_assoc, List.cons_append, List.append_assoc]
    exact bounds?_between fewestDigits greatestDigits ordered small rest

theorem CountsDigits.readsAs {text : List Char} {least most : Nat}
    (counts : CountsDigits text least most) (small : most ≤ Decimal.maxCount) :
    ReadsAs text (digitPiece least most) := by
  have digit (chars : List Char) :
      primitive? .standard ('\\' :: 'd' :: chars) = some (.leaf (.set .digit), chars) := rfl
  obtain ⟨bounds, rfl, read⟩ := counts.exists_bounds small
  intro steps groups rest enough
  -- Two steps for the digits and their count, and one for the end.
  obtain ⟨left, rfl⟩ : ∃ left, steps = left + 3 := by
    simp only [List.length_cons] at enough
    exact ⟨steps - 3, by omega⟩
  rw [List.cons_append, List.cons_append, List.cons_append,
    alternatives?_primitive (by decide) (digit _), alternatives?_brace (read _)]
  rfl

/-! ## Alternatives -/

theorem noWider_alternatives {width : Nat} {parts : List Built}
    (narrow : ∀ part ∈ parts, part.node.NoWider width) :
    (Built.join .alt parts).node.NoWider width := by
  have fold (others : List Built) (first : Node) (left : first.NoWider width)
      (right : ∀ part ∈ others, part.node.NoWider width) :
      (others.foldl (fun node part => .alt node part.node) first).NoWider width := by
    induction others generalizing first with
    | nil => exact left
    | cons part others ih =>
      exact ih _ (left.alt (right part List.mem_cons_self))
        fun other member => right other (List.mem_cons_of_mem _ member)
  match parts with
  | [] => exact Node.NoWider.empty.mono (Nat.zero_le _)
  | [part] => exact narrow part List.mem_cons_self
  | first :: second :: others =>
    exact fold (second :: others) first.node (narrow first List.mem_cons_self)
      fun part member => narrow part (List.mem_cons_of_mem _ member)

/-- A pattern in a group of its own. -/
def grouped (pattern : String) : String := "(?:" ++ pattern ++ ")"

theorem toList_grouped (pattern : String) :
    (grouped pattern).toList = '(' :: '?' :: ':' :: (pattern.toList ++ [')']) := by
  simp [grouped]

/-- Such a pattern is read as one item. -/
theorem alternatives?_grouped {pattern : String} {part : Built}
    (reads : ReadsAs pattern.toList part) {steps : Nat} (enough : pattern.toList.length < steps)
    (groups : Groups) (branches : List Built) (rest : List Char) :
    alternatives? (steps + 1) .standard groups branches [] ((grouped pattern).toList ++ rest) =
      alternatives? steps .standard groups branches [.piece (part.group none)] rest := by
  rw [toList_grouped, List.cons_append, List.cons_append, List.cons_append, List.append_assoc]
  exact alternatives?_group (reads steps groups rest enough)

/-- Patterns in groups of their own, with bars between them, are read as alternatives. -/
theorem alternatives?_bars {patterns : List String} {parts : List Built}
    (reads : List.Forall₂ (fun pattern part => ReadsAs pattern.toList part) patterns parts)
    (nonempty : patterns ≠ []) (branches : List Built) {steps : Nat} (groups : Groups)
    (rest : List Char)
    (enough : ("|".intercalate (patterns.map grouped)).toList.length < steps) :
    alternatives? steps .standard groups branches []
        (("|".intercalate (patterns.map grouped)).toList ++ ')' :: rest) =
      some (choiceOf ((parts.map (·.group none)).reverse ++ branches), groups, ')' :: rest) := by
  induction reads generalizing branches steps with
  | nil => exact absurd rfl nonempty
  | @cons pattern part patterns parts read reads ih =>
    cases reads with
    | nil =>
      rw [List.map_singleton, String.intercalate_singleton] at enough ⊢
      have long := congrArg List.length (toList_grouped pattern)
      simp only [List.length_cons, List.length_append, List.length_nil] at long
      obtain ⟨left, rfl⟩ : ∃ left, steps = left + 2 := ⟨steps - 2, by omega⟩
      rw [alternatives?_grouped read (by omega)]
      rfl
    | @cons next nextPart others otherParts nextReads othersRead =>
      have text : ("|".intercalate ((pattern :: next :: others).map grouped)).toList =
          (grouped pattern).toList ++
            '|' :: ("|".intercalate ((next :: others).map grouped)).toList := by
        simp [String.intercalate_cons_cons]
      have long := congrArg List.length (toList_grouped pattern)
      simp only [List.length_cons, List.length_append, List.length_nil] at long
      rw [text, List.length_append, List.length_cons] at enough
      obtain ⟨left, rfl⟩ : ∃ left, steps = left + 2 := ⟨steps - 2, by omega⟩
      rw [text, List.append_assoc, List.cons_append, alternatives?_grouped read (by omega)]
      have fewer : ("|".intercalate ((next :: others).map grouped)).toList.length < left := by
        omega
      have order : ((part :: nextPart :: otherParts).map (·.group none)).reverse ++ branches =
          ((nextPart :: otherParts).map (·.group none)).reverse ++ part.group none :: branches := by
        simp
      rw [order, ← ih (List.cons_ne_nil _ _) (part.group none :: branches) fewer]
      rfl

theorem exists_parts {patterns : List String} {width : Nat}
    (reads : ∀ pattern ∈ patterns, ∃ part, ReadsAs pattern.toList part ∧ part.node.NoWider width) :
    ∃ parts, List.Forall₂ (fun pattern part => ReadsAs pattern.toList part) patterns parts ∧
      ∀ part ∈ parts, part.node.NoWider width := by
  induction patterns with
  | nil => exact ⟨[], .nil, by simp⟩
  | cons pattern patterns ih =>
    obtain ⟨part, read, narrow⟩ := reads pattern List.mem_cons_self
    obtain ⟨parts, others, narrowOthers⟩ :=
      ih fun other member => reads other (List.mem_cons_of_mem _ member)
    exact ⟨part :: parts, .cons read others, List.forall_mem_cons.mpr ⟨narrow, narrowOthers⟩⟩

/-- If every pattern is read as something that is not too wide, then so is what they are joined
to. -/
theorem exists_readsAs_joinPatterns {patterns : List String} {width : Nat}
    (nonempty : patterns ≠ [])
    (reads : ∀ pattern ∈ patterns, ∃ part, ReadsAs pattern.toList part ∧ part.node.NoWider width) :
    ∃ part, ReadsAs (Scalar.joinPatterns patterns).toList part ∧ part.node.NoWider width := by
  match patterns with
  | [pattern] => exact reads pattern List.mem_cons_self
  | first :: second :: others =>
    obtain ⟨parts, all, narrow⟩ := exists_parts reads
    refine ⟨.join .alt (parts.map (·.group none)), ?_, noWider_alternatives ?_⟩
    · intro steps groups rest enough
      have joined := alternatives?_bars all nonempty [] groups rest enough
      rwa [List.append_nil, choiceOf, List.reverse_reverse] at joined
    · intro part member
      obtain ⟨inner, isPart, rfl⟩ := List.mem_map.mp member
      exact narrow inner isPart

/-- What is made of digits only, as often as one of some patterns says, is not too long. -/
theorem length_le_of_countsDigits {patterns : List String} {limit : Nat} (nonempty : patterns ≠ [])
    (small : limit ≤ Decimal.maxCount)
    (counts : ∀ pattern ∈ patterns, ∃ least most, CountsDigits pattern.toList least most ∧
      most ≤ limit)
    {pattern : Pattern} (read : whole (Scalar.joinPatterns patterns) = .ok pattern) {text : String}
    (isMatch : pattern.isMatch text = true) : text.length ≤ limit := by
  obtain ⟨part, reads, narrow⟩ := exists_readsAs_joinPatterns nonempty fun pattern member => by
    obtain ⟨least, most, has, le⟩ := counts pattern member
    exact ⟨_, has.readsAs (le.trans small), (noWider_digitPiece least most).mono le⟩
  obtain rfl := whole_eq_of_reads (fun steps enough => reads steps ⟨0, []⟩ ['$'] enough) read
  exact length_le_of_isMatch narrow isMatch

end EntityGraph.Pattern
