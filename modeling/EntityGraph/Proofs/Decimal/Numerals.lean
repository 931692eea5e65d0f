import EntityGraph.Decimal.Reader
import EntityGraph.Proofs.Calendar

/-!
# Numerals

A text is read as a double if it is a decimal number, perhaps with an exponent behind it, or one of
three words. Such a text is a decimal number just where it has no letters.
-/
namespace EntityGraph.Decimal

open Text (isDigit)

/-- Nothing, or one sign. -/
def IsSign (sign : List Char) : Prop := sign = [] ∨ sign = ['-'] ∨ sign = ['+']

/-- Digits, one at least. -/
def IsDigits (digits : List Char) : Prop := digits ≠ [] ∧ AllDigits digits

/-- Digits with one point at most, and with one digit at least. -/
inductive IsMantissa : List Char → Prop
  | whole {digits : List Char} (isDigits : IsDigits digits) : IsMantissa digits
  | point {whole fraction : List Char} (nonempty : whole ≠ [] ∨ fraction ≠ [])
      (wholeDigits : AllDigits whole) (fractionDigits : AllDigits fraction) :
      IsMantissa (whole ++ '.' :: fraction)

/-- The letter of an exponent, and an integer. -/
inductive IsExponent : List Char → Prop
  | of {letter : Char} {sign digits : List Char} (mark : letter = 'e' ∨ letter = 'E')
      (isSign : IsSign sign) (isDigits : IsDigits digits) :
      IsExponent (letter :: (sign ++ digits))

/-- The text of a decimal number. -/
def IsDecimal (text : List Char) : Prop :=
  ∃ sign mantissa, IsSign sign ∧ IsMantissa mantissa ∧ text = sign ++ mantissa

/-- The text of a decimal number without sign, perhaps with an exponent. -/
def IsScientific (text : List Char) : Prop :=
  ∃ mantissa exponent, IsMantissa mantissa ∧ (exponent = [] ∨ IsExponent exponent) ∧
    text = mantissa ++ exponent

/-- One of the words for infinity and for what is no number, in any case. -/
def IsWord (text : List Char) : Prop :=
  text.map Text.lower ∈ ["inf".toList, "infinity".toList, "nan".toList]

/-- The text of a double. -/
def IsDouble (text : List Char) : Prop :=
  ∃ sign rest, IsSign sign ∧ (IsWord rest ∨ IsScientific rest) ∧ text = sign ++ rest

/-- Where there are digits, no other mark comes first. -/
theorem IsDigits.append_ne {digits : List Char} (isDigits : IsDigits digits) {mark : Char}
    (noDigit : mark.isDigit = false) (rest behind : List Char) :
    digits ++ rest ≠ mark :: behind := by
  obtain ⟨nonempty, allDigits⟩ := isDigits
  obtain ⟨first, others, rfl⟩ := List.exists_cons_of_ne_nil nonempty
  intro same
  rw [← (List.cons.inj same).1, allDigits first List.mem_cons_self] at noDigit
  cases noDigit

/-! ## Signs -/

/-- A text without its sign. -/
def dropSign : List Char → List Char
  | '-' :: rest => rest
  | '+' :: rest => rest
  | rest => rest

theorem exists_sign (text : List Char) : ∃ sign, IsSign sign ∧ text = sign ++ dropSign text := by
  unfold dropSign
  split
  · exact ⟨_, .inr (.inl rfl), rfl⟩
  · exact ⟨_, .inr (.inr rfl), rfl⟩
  · exact ⟨_, .inl rfl, rfl⟩

/-- A form of texts that have no sign may stand behind one. -/
theorem dropSign_iff {form : List Char → Prop} (unsigned : ∀ rest, form rest → dropSign rest = rest)
    {text : List Char} :
    form (dropSign text) ↔ ∃ sign rest, IsSign sign ∧ form rest ∧ text = sign ++ rest := by
  constructor
  · intro has
    obtain ⟨sign, isSign, parts⟩ := exists_sign text
    exact ⟨sign, _, isSign, has, parts⟩
  · rintro ⟨sign, rest, rfl | rfl | rfl, has, rfl⟩
    · rwa [unsigned _ has]
    · exact has
    · exact has

theorem dropSign_cons {c : Char} (minus : c ≠ '-') (plus : c ≠ '+') (rest : List Char) :
    dropSign (c :: rest) = c :: rest := by
  unfold dropSign
  split
  next same => exact absurd (List.cons.inj same).1 minus
  next same => exact absurd (List.cons.inj same).1 plus
  · rfl

theorem dropSign_of_isDigit {c : Char} (digit : c.isDigit = true) (rest : List Char) :
    dropSign (c :: rest) = c :: rest := by
  refine dropSign_cons ?_ ?_ rest
  · rintro rfl
    cases digit
  · rintro rfl
    cases digit

theorem IsDigits.dropSign {digits : List Char} (isDigits : IsDigits digits) (rest : List Char) :
    dropSign (digits ++ rest) = digits ++ rest := by
  obtain ⟨nonempty, allDigits⟩ := isDigits
  obtain ⟨first, others, rfl⟩ := List.exists_cons_of_ne_nil nonempty
  exact dropSign_of_isDigit (allDigits first List.mem_cons_self) _

theorem IsMantissa.dropSign {mantissa : List Char} (isMantissa : IsMantissa mantissa)
    (rest : List Char) : Decimal.dropSign (mantissa ++ rest) = mantissa ++ rest := by
  cases isMantissa with
  | whole isDigits => exact isDigits.dropSign rest
  | @point whole fraction nonempty wholeDigits fractionDigits =>
    rw [List.append_assoc]
    by_cases empty : whole = []
    · subst empty
      exact dropSign_cons (by decide) (by decide) _
    · exact IsDigits.dropSign ⟨empty, wholeDigits⟩ _

theorem IsScientific.dropSign {text : List Char} (scientific : IsScientific text) :
    Decimal.dropSign text = text := by
  obtain ⟨mantissa, exponent, isMantissa, -, rfl⟩ := scientific
  exact isMantissa.dropSign exponent

theorem IsWord.dropSign {text : List Char} (word : IsWord text) : Decimal.dropSign text = text := by
  cases text with
  | nil => rfl
  | cons c rest =>
    refine dropSign_cons ?_ ?_ rest
    · rintro rfl
      simp [IsWord, Text.lower, Text.isUpper] at word
    · rintro rfl
      simp [IsWord, Text.lower, Text.isUpper] at word

/-! ## Reading -/

theorem isDigits_iff {digits : List Char} :
    (digits.isEmpty || !digits.all isDigit) = false ↔ IsDigits digits := by
  rw [Bool.or_eq_false_iff, List.isEmpty_eq_false_iff, Bool.not_eq_false', List.all_eq_true]
  rfl

theorem natural?_of_isDigits {run : List Char} (isDigits : IsDigits run) :
    natural? run = some (digitsOf run) := by
  rw [natural?, isDigits_iff.mpr isDigits, digitsValue_eq]
  rfl

theorem exponent?_cons (letter : Char) (rest : List Char) :
    (exponent? (letter :: rest)).isSome = true ↔
      (letter = 'e' ∨ letter = 'E') ∧ IsDigits (dropSign rest) := by
  rw [← isDigits_iff]
  unfold exponent?
  by_cases mark : letter = 'e' ∨ letter = 'E'
  · simp only [if_pos mark, and_iff_right mark]
    unfold dropSign
    split
    all_goals
      simp only
      split
      next bad => simp [bad]
      next fine => simpa using fine
  · simp only [if_neg mark]
    simp [mark]

theorem exponent?_isSome {text : List Char} :
    (exponent? text).isSome = true ↔ text = [] ∨ IsExponent text := by
  cases text with
  | nil => exact ⟨fun _ => .inl rfl, fun _ => rfl⟩
  | cons letter rest =>
    have unsigned (digits : List Char) (isDigits : IsDigits digits) : dropSign digits = digits := by
      simpa using isDigits.dropSign []
    rw [exponent?_cons, dropSign_iff unsigned]
    constructor
    · rintro ⟨mark, sign, digits, isSign, isDigits, rfl⟩
      exact .inr (.of mark isSign isDigits)
    · rintro (empty | exponent)
      · cases empty
      · cases exponent with
        | of mark isSign isDigits => exact ⟨mark, _, _, isSign, isDigits, rfl⟩

theorem ofList_eq_iff {letters : List Char} {word : String} :
    String.ofList letters = word ↔ letters = word.toList := by
  constructor
  · rintro rfl
    exact (String.toList_ofList).symm
  · rintro rfl
    exact String.ofList_toList

/-- What may stand behind a mantissa does not continue its digits. -/
theorem endsDigits_of_exponent {exponent : List Char} (has : exponent = [] ∨ IsExponent exponent) :
    EndsDigits exponent := by
  rcases has with rfl | ⟨rfl | rfl, _, _⟩
  · exact endsDigits_nil
  · exact endsDigits_cons rfl _
  · exact endsDigits_cons rfl _

/-- The digits behind a point, if there is one, and the rest of a text. -/
def cutPoint : List Char → List Char × List Char
  | '.' :: rest => (rest.takeWhile isDigit, rest.dropWhile isDigit)
  | rest => ([], rest)

theorem cutPoint_cases (text : List Char) :
    (∃ rest, text = '.' :: rest) ∨ cutPoint text = ([], text) := by
  unfold cutPoint
  split
  next rest => exact .inl ⟨rest, rfl⟩
  · exact .inr rfl

theorem cutPoint_of_exponent {exponent : List Char} (has : exponent = [] ∨ IsExponent exponent) :
    cutPoint exponent = ([], exponent) := by
  rcases has with rfl | ⟨rfl | rfl, _, _⟩
  · rfl
  · rfl
  · rfl

/-- A number is known by the digits before a point and behind it, and by what follows. -/
theorem isScientific_iff {text : List Char} : IsScientific text ↔
    ¬(text.takeWhile isDigit = [] ∧ (cutPoint (text.dropWhile isDigit)).1 = []) ∧
      ((cutPoint (text.dropWhile isDigit)).2 = [] ∨
        IsExponent (cutPoint (text.dropWhile isDigit)).2) := by
  constructor
  · rintro ⟨_, exponent, isMantissa, has, rfl⟩
    cases isMantissa with
    | whole isDigits =>
      obtain ⟨taken, dropped⟩ := takeWhile_digits isDigits.2 (endsDigits_of_exponent has)
      rw [taken, dropped, cutPoint_of_exponent has]
      exact ⟨fun empty => isDigits.1 empty.1, has⟩
    | @point whole fraction nonempty wholeDigits fractionDigits =>
      obtain ⟨taken, dropped⟩ := takeWhile_digits wholeDigits
        (endsDigits_cons rfl (fraction ++ exponent) : EndsDigits ('.' :: (fraction ++ exponent)))
      obtain ⟨behind, rest⟩ := takeWhile_digits fractionDigits (endsDigits_of_exponent has)
      rw [List.append_assoc, List.cons_append, taken, dropped, cutPoint, behind, rest]
      exact ⟨fun empty => nonempty.elim (· empty.1) (· empty.2), has⟩
  · rintro ⟨nonempty, has⟩
    have parts := (List.takeWhile_append_dropWhile (p := isDigit) (l := text)).symm
    -- With a point there may be digits on one side of it only, without one there have to be some.
    obtain ⟨rest, cut⟩ | cut := cutPoint_cases (text.dropWhile isDigit)
    · rw [cut, cutPoint] at nonempty has
      refine ⟨_, _, .point (not_and_or.mp nonempty) (allDigits_takeWhile text)
        (allDigits_takeWhile rest), has, ?_⟩
      rw [List.append_assoc, List.cons_append, List.takeWhile_append_dropWhile, ← cut]
      exact parts
    · rw [cut] at nonempty has
      have isDigits : IsDigits (text.takeWhile isDigit) :=
        ⟨fun empty => nonempty ⟨empty, rfl⟩, allDigits_takeWhile text⟩
      exact ⟨_, _, .whole isDigits, has, parts⟩

theorem magnitude?_isSome {text : List Char} :
    (magnitude? text).isSome = true ↔ IsWord text ∨ IsScientific text := by
  unfold magnitude? IsWord
  simp only [ofList_eq_iff, List.mem_cons, List.not_mem_nil, or_false]
  split
  next infinity =>
    simp only [Option.isSome_some, true_iff]
    exact .inl (infinity.imp_right .inl)
  next finite =>
    split
    next nan => simp [nan]
    next number =>
      have noWord : ¬(text.map Text.lower = "inf".toList ∨
          text.map Text.lower = "infinity".toList ∨ text.map Text.lower = "nan".toList) := by
        tauto
      rw [or_iff_right noWord, isScientific_iff, ← exponent?_isSome]
      -- What is left are the two tests of the reader, the digits first.
      unfold cutPoint
      split_ifs with empty
      · rw [Bool.and_eq_true, List.isEmpty_iff, List.isEmpty_iff] at empty
        exact ⟨fun none => absurd none Bool.false_ne_true, fun read => absurd empty read.1⟩
      · rw [Bool.and_eq_true, List.isEmpty_iff, List.isEmpty_iff] at empty
        rw [Option.isSome_map]
        exact ⟨fun read => ⟨empty, read⟩, fun read => read.2⟩

theorem parse?_isSome {text : String} : (parse? text).isSome = true ↔ IsDouble text.toList := by
  have parsed : (parse? text).isSome = (magnitude? (dropSign text.toList)).isSome := by
    unfold parse?
    split
    next sign => rw [sign, dropSign, Option.isSome_map]
    next sign => rw [sign, dropSign]
    next minus plus =>
      have unsigned : dropSign text.toList = text.toList := by
        unfold dropSign
        split <;> first | rfl | simp_all
      rw [unsigned]
  rw [parsed, magnitude?_isSome]
  refine @dropSign_iff (fun rest => IsWord rest ∨ IsScientific rest) (fun rest has => ?_) _
  rcases has with word | scientific
  · exact word.dropSign
  · exact scientific.dropSign

/-! ## Letters -/

theorem isAlpha_eq (c : Char) : c.isAlpha = (Text.isUpper c || Text.isLower c) := by
  have isUpper : c.isUpper = Text.isUpper c := Bool.decide_and _ _
  exact congrArg (· || c.isLower) isUpper

theorem isAlpha_of_lower {c : Char} (letter : (Text.lower c).isAlpha = true) :
    c.isAlpha = true := by
  unfold Text.lower at letter
  split at letter
  next upper => rw [isAlpha_eq, upper, Bool.true_or]
  · exact letter

theorem IsWord.exists_isAlpha {text : List Char} (word : IsWord text) :
    ∃ c ∈ text, c.isAlpha = true := by
  have first : ∃ c ∈ text.map Text.lower, c.isAlpha = true := by
    simp only [IsWord, List.mem_cons, List.not_mem_nil, or_false] at word
    rcases word with same | same | same
    · exact ⟨'i', by simp [same], rfl⟩
    · exact ⟨'i', by simp [same], rfl⟩
    · exact ⟨'n', by simp [same], rfl⟩
  obtain ⟨c, member, letter⟩ := first
  obtain ⟨origin, inText, rfl⟩ := List.mem_map.mp member
  exact ⟨origin, inText, isAlpha_of_lower letter⟩

theorem AllDigits.not_isAlpha {digits : List Char} (allDigits : AllDigits digits) :
    ∀ c ∈ digits, c.isAlpha = false := by
  intro c member
  have bounds : 48 ≤ c.toNat ∧ c.toNat ≤ 57 := by
    simpa [Char.isDigit, UInt32.le_iff_toNat_le] using allDigits c member
  rw [isAlpha_eq]
  simp only [Text.isUpper, Text.isLower, Char.le_def, UInt32.le_iff_toNat_le, Bool.or_eq_false_iff,
    Bool.and_eq_false_iff, decide_eq_false_iff_not]
  simp
  omega

theorem IsMantissa.not_isAlpha {mantissa : List Char} (isMantissa : IsMantissa mantissa) :
    ∀ c ∈ mantissa, c.isAlpha = false := by
  cases isMantissa with
  | whole isDigits => exact isDigits.2.not_isAlpha
  | point _ wholeDigits fractionDigits =>
    intro c member
    rcases List.mem_append.mp member with inWhole | behind
    · exact wholeDigits.not_isAlpha c inWhole
    · rcases List.mem_cons.mp behind with rfl | inFraction
      · rfl
      · exact fractionDigits.not_isAlpha c inFraction

/-- A double without letters is a decimal number. -/
theorem isDecimal_iff {text : List Char} :
    IsDecimal text ↔ IsDouble text ∧ ∀ c ∈ text, c.isAlpha = false := by
  constructor
  · rintro ⟨sign, mantissa, isSign, isMantissa, rfl⟩
    refine ⟨⟨sign, mantissa, isSign, .inr ⟨mantissa, [], isMantissa, .inl rfl, by simp⟩, rfl⟩, ?_⟩
    intro c member
    rcases List.mem_append.mp member with inSign | inMantissa
    · rcases isSign with rfl | rfl | rfl
      · cases inSign
      · rw [List.mem_singleton.mp inSign]
        rfl
      · rw [List.mem_singleton.mp inSign]
        rfl
    · exact isMantissa.not_isAlpha c inMantissa
  · rintro ⟨⟨sign, rest, isSign, word | ⟨mantissa, exponent, isMantissa, has, rfl⟩, rfl⟩, noLetter⟩
    · obtain ⟨c, member, letter⟩ := word.exists_isAlpha
      rw [noLetter c (List.mem_append_right _ member)] at letter
      cases letter
    · rcases has with rfl | ⟨mark, _, _⟩
      · exact ⟨sign, mantissa, isSign, isMantissa, by simp⟩
      · have free := noLetter _ (List.mem_append_right _ (List.mem_append_right _
          List.mem_cons_self))
        rcases mark with rfl | rfl <;> cases free

end EntityGraph.Decimal
