import EntityGraph.Text.Documentation
import Mathlib.Data.List.DropRight
import Mathlib.Data.List.Infix

/-!
# Normal documentation texts

A text is normal if it has no blank at either end, no two spaces in a row, no space before a closing
parenthesis, no empty line and no period at the end. Cleaning leaves exactly the normal texts as
they are. What it makes of a text begins without a blank, and is free of double spaces, spaces
before closing parentheses and final periods.

Each step is taken once, though. Blanks before the final periods are at the end when the periods
have gone, as the ends have been trimmed before; and of three line breaks in a row two are left. A
text with neither of them becomes normal, and any other text would be changed by a second cleaning.
-/
namespace EntityGraph.Text.Documentation

variable {first second c : Char} {chars rest : List Char}

/-! ## Characters next to each other -/

theorem pair_infix_cons :
    [first, second] <:+: c :: rest ↔
      c = first ∧ rest.head? = some second ∨ [first, second] <:+: rest := by
  rw [List.infix_cons_iff, List.cons_prefix_cons, eq_comm (a := first)]
  cases rest with
  | nil => simp
  | cons d rest => simp [List.cons_prefix_cons, eq_comm (a := second)]

/-! ## Ends of texts -/

/-- Whether the first character is a blank. -/
def beginsBlank (chars : List Char) : Bool := chars.head?.any isBlank

/-- Whether the last character is a blank. -/
def endsBlank (chars : List Char) : Bool := chars.getLast?.any isBlank

theorem trimLeftChars_eq_self_iff : trimLeftChars chars = chars ↔ beginsBlank chars = false := by
  cases chars with
  | nil => simp [trimLeftChars, beginsBlank]
  | cons c rest => simp [trimLeftChars, beginsBlank, List.dropWhile_eq_self_iff]

theorem beginsBlank_trimLeftChars (chars : List Char) : beginsBlank (trimLeftChars chars) = false :=
  trimLeftChars_eq_self_iff.mp (List.dropWhile_idempotent _ _)

theorem trimRightChars_eq (chars : List Char) : trimRightChars chars = chars.rdropWhile isBlank :=
  rfl

theorem dropTrailing_eq (c : Char) (chars : List Char) :
    dropTrailing c chars = chars.rdropWhile (· = c) := rfl

theorem trimRightChars_eq_self_iff : trimRightChars chars = chars ↔ endsBlank chars = false := by
  rw [trimRightChars_eq, List.rdropWhile_eq_self_iff]
  cases chars with
  | nil => simp [endsBlank]
  | cons c rest => simp [endsBlank, List.getLast?_eq_some_getLast]

theorem dropTrailing_eq_self_iff : dropTrailing c chars = chars ↔ chars.getLast? ≠ some c := by
  rw [dropTrailing_eq, List.rdropWhile_eq_self_iff]
  cases chars with
  | nil => simp
  | cons c rest => simp [List.getLast?_eq_some_getLast]

theorem getLast?_dropTrailing (c : Char) (chars : List Char) :
    (dropTrailing c chars).getLast? ≠ some c :=
  dropTrailing_eq_self_iff.mp (List.rdropWhile_idempotent _ _)

/-- The beginning of a text begins with a blank only if the text does. -/
theorem beginsBlank_of_starting {start : List Char} (starts : start <+: chars)
    (free : beginsBlank chars = false) : beginsBlank start = false := by
  obtain ⟨more, rfl⟩ := starts
  cases start with
  | nil => rfl
  | cons c rest => exact free

theorem beginsBlank_trimChars (chars : List Char) : beginsBlank (trimChars chars) = false :=
  beginsBlank_of_starting (List.rdropWhile_prefix _ _) (beginsBlank_trimLeftChars chars)

/-- A text is its part before the final marks, and the marks. -/
theorem exists_dropTrailing (c : Char) (chars : List Char) :
    ∃ marks : List Char, (∀ mark ∈ marks, mark = c) ∧ chars = dropTrailing c chars ++ marks :=
  ⟨chars.rtakeWhile (· = c), fun _ member => by simpa using List.mem_rtakeWhile_imp member,
    List.rdropWhile_append_rtakeWhile.symm⟩

theorem infix_append_marks {part marks : List Char} (nonempty : part ≠ [])
    (free : ∀ mark ∈ marks, mark ∉ part) (chars : List Char) :
    part <:+: chars ++ marks ↔ part <:+: chars := by
  induction marks using List.reverseRecOn with
  | nil => rw [List.append_nil]
  | append_singleton marks last ih =>
    rw [← List.append_assoc, List.infix_concat_iff,
      ih fun mark member => free mark (List.mem_append_left _ member)]
    refine or_iff_right fun ends => ?_
    obtain ⟨others, final, rfl⟩ := (List.eq_nil_or_concat part).resolve_left nonempty
    rw [List.concat_eq_append] at ends free
    obtain ⟨front, whole⟩ := ends
    have same : final = last := by simpa using congrArg List.getLast? whole
    exact free last (by simp) (by simp [same])

theorem dropTrailing_append {marks : List Char} (all : ∀ mark ∈ marks, mark = c)
    (open_ : chars.getLast? ≠ some c) : dropTrailing c (chars ++ marks) = chars := by
  induction marks using List.reverseRecOn with
  | nil => rw [List.append_nil, dropTrailing_eq_self_iff.mpr open_]
  | append_singleton marks last ih =>
    have isMark : last = c := all last (by simp)
    rw [← List.append_assoc, dropTrailing_eq,
      List.rdropWhile_concat_pos _ _ _ (by simpa using isMark)]
    exact ih fun mark member => all mark (List.mem_append_left _ member)

/-! ## Runs of spaces -/

theorem collapseSpaces_sublist (afterSpace : Bool) (chars : List Char) :
    (collapseSpaces afterSpace chars).Sublist chars := by
  induction chars generalizing afterSpace with
  | nil => exact .slnil
  | cons c rest ih =>
    rw [collapseSpaces]
    split
    · split
      · exact (ih true).cons c
      · exact (ih true).cons_cons c
    · exact (ih false).cons_cons c

theorem head?_collapseSpaces (chars : List Char) :
    (collapseSpaces false chars).head? = chars.head? := by
  cases chars with
  | nil => rfl
  | cons c rest => simp only [collapseSpaces, Bool.false_eq_true, if_false]; split <;> rfl

/-- No space follows another one, or a space that stands before. -/
theorem collapseSpaces_spaced (afterSpace : Bool) (chars : List Char) :
    ¬[' ', ' '] <:+: collapseSpaces afterSpace chars ∧
      (afterSpace = true → (collapseSpaces afterSpace chars).head? ≠ some ' ') := by
  induction chars generalizing afterSpace with
  | nil => simp [collapseSpaces]
  | cons c rest ih =>
    rw [collapseSpaces]
    split
    next space =>
      cases afterSpace with
      | true => exact ih true
      | false =>
        obtain ⟨spaced, starts⟩ := ih true
        simp only [Bool.false_eq_true, if_false, false_imp_iff, and_true, pair_infix_cons]
        exact not_or.mpr ⟨fun ⟨_, next⟩ => starts rfl next, spaced⟩
    next mark =>
      rw [pair_infix_cons]
      exact ⟨not_or.mpr ⟨fun ⟨space, _⟩ => mark space, (ih false).1⟩, fun _ => by simpa using mark⟩

theorem collapseSpaces_of_spaced (afterSpace : Bool) (spaced : ¬[' ', ' '] <:+: chars)
    (starts : afterSpace = true → chars.head? ≠ some ' ') :
    collapseSpaces afterSpace chars = chars := by
  induction chars generalizing afterSpace with
  | nil => rfl
  | cons c rest ih =>
    rw [pair_infix_cons, not_or] at spaced
    rw [collapseSpaces]
    split
    next space =>
      have single : ¬afterSpace = true := fun after => starts after (by simp [space])
      rw [if_neg single, ih true spaced.2 fun _ next => spaced.1 ⟨space, next⟩]
    next => rw [ih false spaced.2 nofun]

theorem collapseSpaces_eq_self_iff :
    collapseSpaces false chars = chars ↔ ¬[' ', ' '] <:+: chars :=
  ⟨fun same => same ▸ (collapseSpaces_spaced false chars).1,
    fun spaced => collapseSpaces_of_spaced false spaced nofun⟩

theorem collapseSpaces_append {more : List Char} (free : ' ' ∉ more) (afterSpace : Bool)
    (chars : List Char) :
    collapseSpaces afterSpace (chars ++ more) = collapseSpaces afterSpace chars ++ more := by
  induction chars generalizing afterSpace with
  | nil =>
    have spaced : ¬[' ', ' '] <:+: more := fun has => free (has.subset List.mem_cons_self)
    exact collapseSpaces_of_spaced afterSpace spaced fun _ next => free (List.mem_of_mem_head? next)
  | cons c rest ih =>
    simp only [List.cons_append, collapseSpaces, ih]
    split
    · split
      · rfl
      · rfl
    · rfl

/-- The last of several spaces is the same as the first one of them. -/
theorem getLast?_collapse (chars : List Char) :
    (collapseSpaces true chars).getLast?.getD ' ' = chars.getLast?.getD ' ' ∧
      (collapseSpaces false chars).getLast? = chars.getLast? := by
  induction chars with
  | nil => exact ⟨rfl, rfl⟩
  | cons c rest ih =>
    by_cases space : c = ' '
    · simp [collapseSpaces, space, List.getLast?_cons, ih.1]
    · simp [collapseSpaces, space, List.getLast?_cons, ih.2]

theorem prefix_collapseSpaces {part : List Char} (free : ' ' ∉ part) :
    part <+: collapseSpaces false chars ↔ part <+: chars := by
  induction part generalizing chars with
  | nil => simp
  | cons mark part ih =>
    obtain ⟨other, free⟩ := not_or.mp (mt List.mem_cons.mpr free)
    cases chars with
    | nil => rfl
    | cons c rest =>
      rw [collapseSpaces, if_neg Bool.false_ne_true]
      split
      next space => simp [List.cons_prefix_cons, space, Ne.symm other]
      next => rw [List.cons_prefix_cons, List.cons_prefix_cons, ih free]

/-- Nothing but spaces is added to a text or removed from it. -/
theorem infix_collapseSpaces {part : List Char} (nonempty : part ≠ []) (free : ' ' ∉ part)
    (afterSpace : Bool) (chars : List Char) :
    part <:+: collapseSpaces afterSpace chars ↔ part <:+: chars := by
  have behind {c : Char} (space : c = ' ') (rest : List Char) : ¬part <+: c :: rest := by
    intro starts
    obtain ⟨mark, others, rfl⟩ := List.exists_cons_of_ne_nil nonempty
    obtain ⟨rfl, _⟩ := List.cons_prefix_cons.mp starts
    exact free (space ▸ List.mem_cons_self)
  induction chars generalizing afterSpace with
  | nil => rfl
  | cons c rest ih =>
    by_cases space : c = ' '
    · cases afterSpace with
      | true => simp [collapseSpaces, space, ih, List.infix_cons_iff, behind]
      | false => simp [collapseSpaces, space, ih, List.infix_cons_iff, behind]
    · have starts : part <+: _ ↔ part <+: c :: rest := prefix_collapseSpaces free
      rw [collapseSpaces, if_neg space] at starts ⊢
      rw [List.infix_cons_iff, List.infix_cons_iff]
      exact or_congr starts (ih false)

/-! ## Pairs of which the second character stays -/

@[simp] theorem replacePair_nil : replacePair first second second [] = [] := rfl

@[simp] theorem replacePair_single : replacePair first second second [c] = [c] := rfl

@[simp] theorem replacePair_pair :
    replacePair first second second (first :: second :: rest) =
      second :: replacePair first second second rest := if_pos ⟨rfl, rfl⟩

theorem replacePair_other {d : Char} (other : ¬(c = first ∧ d = second)) :
    replacePair first second second (c :: d :: rest) =
      c :: replacePair first second second (d :: rest) := if_neg other

/-- A text is gone through as replacing goes through it: from a pair to what comes behind it, and
from any other character to the next one. -/
theorem replacePair_induction (first second : Char) {motive : List Char → Prop} (nil : motive [])
    (single : ∀ c, motive [c]) (pair : ∀ rest, motive rest → motive (first :: second :: rest))
    (other : ∀ c d rest, ¬(c = first ∧ d = second) → motive (d :: rest) → motive (c :: d :: rest))
    (chars : List Char) : motive chars := by
  fun_induction replacePair first second second chars with
  | case1 => exact nil
  | case2 c => exact single c
  | case3 c d rest found ih =>
    obtain ⟨rfl, rfl⟩ := found
    exact pair rest ih
  | case4 c d rest none ih => exact other c d rest none ih

theorem replacePair_sublist (first second : Char) (chars : List Char) :
    (replacePair first second second chars).Sublist chars := by
  induction chars using replacePair_induction first second with
  | nil => exact .slnil
  | single c => exact .refl _
  | pair rest ih =>
    rw [replacePair_pair]
    exact (ih.cons_cons second).cons first
  | other c d rest other ih =>
    rw [replacePair_other other]
    exact ih.cons_cons c

theorem getLast?_replacePair (first second : Char) (chars : List Char) :
    (replacePair first second second chars).getLast? = chars.getLast? := by
  induction chars using replacePair_induction first second with
  | nil => rfl
  | single => rfl
  | pair rest ih => simp [List.getLast?_cons, ih]
  | other c d rest other ih =>
    rw [replacePair_other other, List.getLast?_cons, ih, List.getLast?_cons (a := c)]

/-- Only a pair at the front changes the first character, unless both its characters are the
same. -/
theorem head?_replacePair (other : chars.head? = some first → first = second) :
    (replacePair first second second chars).head? = chars.head? := by
  induction chars using replacePair_induction first second with
  | nil => rfl
  | single => rfl
  | pair rest =>
    rw [replacePair_pair]
    exact congrArg some (other rfl).symm
  | other c d rest none => rw [replacePair_other none, List.head?_cons, List.head?_cons]

theorem eq_of_head?_replacePair {mark : Char}
    (starts : (replacePair first second second chars).head? = some mark) :
    chars.head? = some mark ∨ mark = second := by
  by_cases pair : chars.head? = some first ∧ first ≠ second
  · clear pair
    induction chars using replacePair_induction first second with
    | nil => exact .inl starts
    | single => exact .inl starts
    | pair =>
      rw [replacePair_pair] at starts
      exact .inr (Option.some.inj starts).symm
    | other c d rest none =>
      rw [replacePair_other none] at starts
      exact .inl starts
  · have same := head?_replacePair fun front => by_contra fun apart => pair ⟨front, apart⟩
    exact .inl (same ▸ starts)

theorem replacePair_of_free (free : ¬[first, second] <:+: chars) :
    replacePair first second second chars = chars := by
  induction chars using replacePair_induction first second with
  | nil => rfl
  | single => rfl
  | pair rest => exact absurd (pair_infix_cons.mpr (.inl ⟨rfl, rfl⟩)) free
  | other c d rest other ih =>
    rw [replacePair_other other, ih fun has => free (pair_infix_cons.mpr (.inr has))]

/-- A text is changed wherever it has the pair. -/
theorem replacePair_eq_self_iff :
    replacePair first second second chars = chars ↔ ¬[first, second] <:+: chars := by
  refine ⟨fun same => ?_, replacePair_of_free⟩
  induction chars using replacePair_induction first second with
  | nil => simp
  | single c => simp [pair_infix_cons]
  | pair rest ih =>
    have shorter := (replacePair_sublist first second rest).length_le
    have length := congrArg List.length same
    simp only [replacePair_pair, List.length_cons] at length
    omega
  | other c d rest other ih =>
    rw [replacePair_other other] at same
    rw [pair_infix_cons, not_or]
    exact ⟨fun ⟨front, next⟩ => other ⟨front, Option.some.inj next⟩, ih (List.cons.inj same).2⟩

/-- No other pair arises, unless it ends with the character that moves up. -/
theorem infix_of_infix_replacePair {left right : Char} (other : right ≠ second)
    (has : [left, right] <:+: replacePair first second second chars) :
    [left, right] <:+: chars := by
  induction chars using replacePair_induction first second with
  | nil => exact has
  | single c => exact has
  | pair rest ih =>
    rw [replacePair_pair] at has
    refine pair_infix_cons.mpr (.inr (pair_infix_cons.mpr ?_))
    rcases pair_infix_cons.mp has with ⟨front, next⟩ | inRest
    · exact .inl ⟨front, (eq_of_head?_replacePair next).resolve_right other⟩
    · exact .inr (ih inRest)
  | other c d rest none ih =>
    rw [replacePair_other none] at has
    rw [pair_infix_cons]
    rcases pair_infix_cons.mp has with ⟨front, next⟩ | inRest
    · exact .inl ⟨front, (eq_of_head?_replacePair next).resolve_right other⟩
    · exact .inr (ih inRest)

/-- The pair itself does not arise again, unless its first character is repeated. -/
theorem not_infix_replacePair (apart : first ≠ second) (single : ¬[first, first] <:+: chars) :
    ¬[first, second] <:+: replacePair first second second chars := by
  induction chars using replacePair_induction first second with
  | nil => simp
  | single c => simp [pair_infix_cons]
  | pair rest ih =>
    rw [pair_infix_cons, not_or, pair_infix_cons, not_or] at single
    rw [replacePair_pair, pair_infix_cons]
    exact not_or.mpr ⟨fun ⟨front, _⟩ => apart front.symm, ih single.2.2⟩
  | other c d rest other ih =>
    rw [pair_infix_cons, not_or] at single
    rw [replacePair_other other, pair_infix_cons]
    refine not_or.mpr ⟨fun ⟨front, next⟩ => ?_, ih single.2⟩
    -- Behind the first character of the pair there is neither of the two.
    rw [head?_replacePair fun front' => absurd ⟨front, front'⟩ single.1] at next
    exact other ⟨front, Option.some.inj next⟩

theorem replacePair_append {more : List Char} (noFirst : first ∉ more) (noSecond : second ∉ more)
    (chars : List Char) :
    replacePair first second second (chars ++ more) =
      replacePair first second second chars ++ more := by
  have same {more : List Char} (noFirst : first ∉ more) :
      replacePair first second second more = more :=
    replacePair_of_free fun has => noFirst (has.subset List.mem_cons_self)
  induction chars using replacePair_induction first second with
  | nil => exact same noFirst
  | single c =>
    refine replacePair_of_free fun has => ?_
    rcases pair_infix_cons.mp has with ⟨_, next⟩ | inMore
    · exact noSecond (List.mem_of_mem_head? next)
    · exact noFirst (inMore.subset List.mem_cons_self)
  | pair rest ih => simp [ih]
  | other c d rest other ih =>
    rw [List.cons_append, List.cons_append, replacePair_other other, replacePair_other other,
      ← List.cons_append, ih, List.cons_append]

theorem prefix_replacePair {part : List Char} (noFirst : first ∉ part) (noSecond : second ∉ part) :
    part <+: replacePair first second second chars ↔ part <+: chars := by
  induction part generalizing chars with
  | nil => simp
  | cons mark part ih =>
    obtain ⟨notFirst, noFirst⟩ := not_or.mp (mt List.mem_cons.mpr noFirst)
    obtain ⟨notSecond, noSecond⟩ := not_or.mp (mt List.mem_cons.mpr noSecond)
    induction chars using replacePair_induction first second with
    | nil => rfl
    | single => rfl
    | pair rest => simp [List.cons_prefix_cons, Ne.symm notFirst, Ne.symm notSecond]
    | other c d rest other =>
      rw [replacePair_other other, List.cons_prefix_cons, List.cons_prefix_cons,
        ih noFirst noSecond]

theorem infix_replacePair {part : List Char} (nonempty : part ≠ []) (noFirst : first ∉ part)
    (noSecond : second ∉ part) (chars : List Char) :
    part <:+: replacePair first second second chars ↔ part <:+: chars := by
  have behind {c : Char} (of_pair : c = first ∨ c = second) (rest : List Char) :
      ¬part <+: c :: rest := by
    intro starts
    obtain ⟨mark, others, rfl⟩ := List.exists_cons_of_ne_nil nonempty
    obtain ⟨rfl, _⟩ := List.cons_prefix_cons.mp starts
    rcases of_pair with rfl | rfl
    · exact noFirst List.mem_cons_self
    · exact noSecond List.mem_cons_self
  induction chars using replacePair_induction first second with
  | nil => rfl
  | single => rfl
  | pair rest ih => simp [List.infix_cons_iff, behind, ih]
  | other c d rest other ih =>
    have starts := @prefix_replacePair first second (c :: d :: rest) part noFirst noSecond
    rw [replacePair_other other] at starts ⊢
    rw [List.infix_cons_iff, List.infix_cons_iff (a := c)]
    exact or_congr starts ih

theorem head?_of_starting {more : List Char} (starts : c :: more <+: chars) :
    chars.head? = some c := by
  obtain ⟨rest, rfl⟩ := starts
  rfl

/-- Of three in a row two are left, and of two in a row one. -/
theorem double_infix_replacePair (mark : Char) (chars : List Char) :
    [mark, mark] <:+: replacePair mark mark mark chars ↔ [mark, mark, mark] <:+: chars := by
  have head (chars : List Char) : (replacePair mark mark mark chars).head? = chars.head? :=
    head?_replacePair fun _ => rfl
  induction chars using replacePair_induction mark mark with
  | nil => simp
  | single c => simp [List.infix_cons_iff]
  | pair rest ih =>
    -- A third one stands at the front of the rest, or three stand in the rest.
    rw [replacePair_pair, pair_infix_cons, head, List.infix_cons_iff, List.infix_cons_iff]
    constructor
    · rintro (⟨_, next⟩ | inRest)
      · obtain ⟨more, rfl⟩ := List.head?_eq_some_iff.mp next
        exact .inl (by simp)
      · exact .inr (.inr (ih.mp inRest))
    · rintro (three | three | inRest)
      · exact .inl ⟨rfl, head?_of_starting (by simpa [List.cons_prefix_cons] using three)⟩
      · exact .inl ⟨rfl, head?_of_starting (by simpa [List.cons_prefix_cons] using three)⟩
      · exact .inr (ih.mpr inRest)
  | other c d rest other ih =>
    rw [replacePair_other other, pair_infix_cons, head, List.infix_cons_iff (a := c)]
    refine or_congr ⟨fun ⟨front, next⟩ => ?_, fun three => ?_⟩ ih
    · exact absurd ⟨front, Option.some.inj next⟩ other
    · obtain ⟨front, twice⟩ := List.cons_prefix_cons.mp three
      exact absurd ⟨front.symm, (List.cons_prefix_cons.mp twice).1.symm⟩ other

/-! ## Cleaned texts -/

/-- A text without anything that cleaning removes. -/
structure IsNormal (chars : List Char) : Prop where
  begins : beginsBlank chars = false
  ends : endsBlank chars = false
  spaces : ¬[' ', ' '] <:+: chars
  parentheses : ¬[' ', ')'] <:+: chars
  lines : ¬['\n', '\n'] <:+: chars
  period : chars.getLast? ≠ some '.'

instance (chars : List Char) : Decidable (IsNormal chars) :=
  decidable_of_iff (beginsBlank chars = false ∧ endsBlank chars = false ∧ ¬[' ', ' '] <:+: chars ∧
      ¬[' ', ')'] <:+: chars ∧ ¬['\n', '\n'] <:+: chars ∧ chars.getLast? ≠ some '.')
    ⟨fun ⟨begins, ends, spaces, parentheses, lines, period⟩ =>
      ⟨begins, ends, spaces, parentheses, lines, period⟩,
    fun ⟨begins, ends, spaces, parentheses, lines, period⟩ =>
      ⟨begins, ends, spaces, parentheses, lines, period⟩⟩

/-- The steps between trimming and dropping the final periods. -/
def tidied (chars : List Char) : List Char :=
  replacePair '\n' '\n' '\n' (replacePair ' ' ')' ')' (collapseSpaces false chars))

theorem trimChars_sublist (chars : List Char) : (trimChars chars).Sublist chars :=
  (List.rdropWhile_prefix _ _).sublist.trans (List.dropWhile_sublist _)

/-- Two steps that only remove characters leave a text as it is exactly if each of them does. -/
theorem steps_eq_self_iff (step next : List Char → List Char)
    (stepRemoves : ∀ chars, (step chars).Sublist chars)
    (nextRemoves : ∀ chars, (next chars).Sublist chars) (chars : List Char) :
    next (step chars) = chars ↔ step chars = chars ∧ next chars = chars := by
  constructor
  · intro same
    have kept : step chars = chars := by
      refine (stepRemoves chars).antisymm ?_
      simpa only [same] using nextRemoves (step chars)
    rw [kept] at same
    exact ⟨kept, same⟩
  · rintro ⟨kept, nextKept⟩
    rw [kept, nextKept]

theorem trimChars_eq_self_iff :
    trimChars chars = chars ↔ beginsBlank chars = false ∧ endsBlank chars = false := by
  rw [← trimLeftChars_eq_self_iff, ← trimRightChars_eq_self_iff]
  exact steps_eq_self_iff trimLeftChars trimRightChars (fun _ => List.dropWhile_sublist _)
    (fun _ => (List.rdropWhile_prefix _ _).sublist) chars

theorem tidied_sublist (chars : List Char) : (tidied chars).Sublist chars :=
  (replacePair_sublist _ _ _).trans
    ((replacePair_sublist _ _ _).trans (collapseSpaces_sublist false chars))

theorem tidied_eq_self_iff :
    tidied chars = chars ↔
      ¬[' ', ' '] <:+: chars ∧ ¬[' ', ')'] <:+: chars ∧ ¬['\n', '\n'] <:+: chars := by
  have pairs := steps_eq_self_iff (replacePair ' ' ')' ')') (replacePair '\n' '\n' '\n')
    (replacePair_sublist _ _) (replacePair_sublist _ _) chars
  rw [replacePair_eq_self_iff, replacePair_eq_self_iff] at pairs
  rw [← pairs, ← collapseSpaces_eq_self_iff]
  exact steps_eq_self_iff (collapseSpaces false)
    (fun chars => replacePair '\n' '\n' '\n' (replacePair ' ' ')' ')' chars))
    (collapseSpaces_sublist false)
    (fun chars => (replacePair_sublist _ _ _).trans (replacePair_sublist _ _ chars)) chars

/-- Cleaning leaves exactly the normal texts as they are. -/
theorem normalizeChars_eq_self_iff : normalizeChars chars = chars ↔ IsNormal chars := by
  have ends := steps_eq_self_iff tidied (dropTrailing '.') tidied_sublist
    (fun _ => (List.rdropWhile_prefix _ _).sublist) chars
  have all := steps_eq_self_iff trimChars (fun chars => dropTrailing '.' (tidied chars))
    trimChars_sublist
    (fun chars => (List.rdropWhile_prefix _ _).sublist.trans (tidied_sublist chars)) chars
  rw [ends, trimChars_eq_self_iff, tidied_eq_self_iff, dropTrailing_eq_self_iff] at all
  refine all.trans ⟨?_, ?_⟩
  · rintro ⟨⟨begins, ends⟩, ⟨spaces, parentheses, lines⟩, period⟩
    exact ⟨begins, ends, spaces, parentheses, lines, period⟩
  · rintro ⟨begins, ends, spaces, parentheses, lines, period⟩
    exact ⟨⟨begins, ends⟩, ⟨spaces, parentheses, lines⟩, period⟩

/-! ### What cleaning makes of a text -/

theorem tidied_append {marks : List Char} (all : ∀ mark ∈ marks, mark = '.') (chars : List Char) :
    tidied (chars ++ marks) = tidied chars ++ marks := by
  have free {c : Char} (other : c ≠ '.') : c ∉ marks := fun member => other (all c member)
  rw [tidied, collapseSpaces_append (free (by decide)),
    replacePair_append (free (by decide)) (free (by decide)),
    replacePair_append (free (by decide)) (free (by decide)), tidied]

theorem getLast?_tidied (chars : List Char) : (tidied chars).getLast? = chars.getLast? := by
  rw [tidied, getLast?_replacePair, getLast?_replacePair, (getLast?_collapse chars).2]

theorem beginsBlank_tidied (free : beginsBlank chars = false) :
    beginsBlank (tidied chars) = false := by
  have noSpace : (collapseSpaces false chars).head? ≠ some ' ' := by
    intro space
    rw [head?_collapseSpaces] at space
    simp [beginsBlank, space, isBlank] at free
  rw [beginsBlank, tidied, head?_replacePair fun _ => rfl,
    head?_replacePair fun space => absurd space noSpace, head?_collapseSpaces]
  exact free

/-- The final periods may as well be dropped before the text is tidied. -/
theorem normalizeChars_eq (chars : List Char) :
    normalizeChars chars = tidied (dropTrailing '.' (trimChars chars)) := by
  obtain ⟨marks, all, split⟩ := exists_dropTrailing '.' (trimChars chars)
  have steps : normalizeChars chars = dropTrailing '.' (tidied (trimChars chars)) := rfl
  rw [steps, split, tidied_append all, dropTrailing_append all, ← split]
  rw [getLast?_tidied]
  exact getLast?_dropTrailing '.' _

theorem infix_tidied {part : List Char} (nonempty : part ≠ []) (noSpace : ' ' ∉ part)
    (noParenthesis : ')' ∉ part) (chars : List Char) :
    part <:+: replacePair ' ' ')' ')' (collapseSpaces false chars) ↔ part <:+: chars := by
  rw [infix_replacePair nonempty noSpace noParenthesis]
  exact infix_collapseSpaces nonempty noSpace false chars

/-- An empty line is left exactly where there were two in a row. -/
theorem empty_line_iff (chars : List Char) :
    ['\n', '\n'] <:+: normalizeChars chars ↔ ['\n', '\n', '\n'] <:+: trimChars chars := by
  obtain ⟨marks, all, split⟩ := exists_dropTrailing '.' (trimChars chars)
  have free : ∀ mark ∈ marks, mark ∉ ['\n', '\n', '\n'] := fun mark member => by
    simp [all mark member]
  rw [normalizeChars_eq, tidied, double_infix_replacePair]
  conv_rhs => rw [split, infix_append_marks (by simp) free]
  exact infix_tidied (by simp) (by simp) (by simp) _

theorem normalizeChars_spaced (chars : List Char) :
    ¬[' ', ' '] <:+: normalizeChars chars ∧ ¬[' ', ')'] <:+: normalizeChars chars := by
  rw [normalizeChars_eq, tidied]
  generalize dropTrailing '.' (trimChars chars) = start
  have spaces := (collapseSpaces_spaced false start).1
  have parentheses := @not_infix_replacePair ' ' ')' _ (by decide) spaces
  refine ⟨fun has => spaces ?_, fun has => parentheses ?_⟩
  · exact infix_of_infix_replacePair (by decide) (infix_of_infix_replacePair (by decide) has)
  · exact infix_of_infix_replacePair (by decide) has

/-- A text is left as it is exactly if it is normal. What cleaning makes of a text is normal, and
left as it is by a second cleaning, exactly if no blank stands before its final periods and no three
line breaks stand in a row, apart from blanks at its ends. In any case it begins without a blank,
and has no double space, no space before a closing parenthesis and no final period. -/
theorem normalize_is_normal_iff (text : String) :
    (normalize text = text ↔ IsNormal text.toList) ∧
      (normalize (normalize text) = normalize text ↔ IsNormal (normalize text).toList) ∧
      (IsNormal (normalize text).toList ↔
        endsBlank (dropTrailing '.' (trimChars text.toList)) = false ∧
          ¬['\n', '\n', '\n'] <:+: trimChars text.toList) ∧
      (endsBlank (normalize text).toList = true ↔
        endsBlank (dropTrailing '.' (trimChars text.toList)) = true) ∧
      (['\n', '\n'] <:+: (normalize text).toList ↔
        ['\n', '\n', '\n'] <:+: trimChars text.toList) ∧
      beginsBlank (normalize text).toList = false ∧
      ¬[' ', ' '] <:+: (normalize text).toList ∧ ¬[' ', ')'] <:+: (normalize text).toList ∧
      (normalize text).toList.getLast? ≠ some '.' := by
  have fixed (text : String) : normalize text = text ↔ IsNormal text.toList := by
    rw [← normalizeChars_eq_self_iff, normalize, ← String.toList_inj, String.toList_ofList]
  have cleaned : (normalize text).toList = normalizeChars text.toList := String.toList_ofList
  have last := congrArg List.getLast? (normalizeChars_eq text.toList)
  rw [getLast?_tidied] at last
  have begins : beginsBlank (normalizeChars text.toList) = false := by
    rw [normalizeChars_eq]
    exact beginsBlank_tidied
      (beginsBlank_of_starting (List.rdropWhile_prefix _ _) (beginsBlank_trimChars text.toList))
  have ends : endsBlank (normalizeChars text.toList) =
      endsBlank (dropTrailing '.' (trimChars text.toList)) := congrArg (·.any isBlank) last
  have period : (normalizeChars text.toList).getLast? ≠ some '.' :=
    last ▸ getLast?_dropTrailing '.' (trimChars text.toList)
  obtain ⟨spaces, parentheses⟩ := normalizeChars_spaced text.toList
  have lines := empty_line_iff text.toList
  refine ⟨fixed text, fixed (normalize text), ?_, ?_, ?_, ?_⟩
  · rw [cleaned, ← ends, ← lines]
    exact ⟨fun normal => ⟨normal.ends, normal.lines⟩, fun ⟨blank, empty⟩ =>
      ⟨begins, blank, spaces, parentheses, empty, period⟩⟩
  · rw [cleaned, ends]
  · rw [cleaned, lines]
  · rw [cleaned]
    exact ⟨begins, spaces, parentheses, period⟩

/-- A blank is left where a period has gone, and an empty line where three lines have ended. -/
theorem normalize_leaves_blanks :
    normalize "Total ." = "Total " ∧ normalize (normalize "Total .") = "Total" ∧
      normalize "Net\n\n\nTotal" = "Net\n\nTotal" ∧
      ¬∀ text, normalize (normalize text) = normalize text ∧ IsNormal (normalize text).toList := by
  refine ⟨by decide, by decide, by decide, fun settles => ?_⟩
  exact absurd (settles "Total .").1 (by decide)

end EntityGraph.Text.Documentation
