import EntityGraph.Proofs.Pattern.Counted
import EntityGraph.Proofs.Result
import EntityGraph.Proofs.Text.Split

/-!
# Lengths from patterns

A restriction that states no length takes one from its first pattern: the number at the end of what
looks like a count of digits. Where all patterns count digits, and the first one has the highest
count, no text that they let through is too long. Otherwise the length says nothing about them.
-/
namespace EntityGraph.Scalar

open Decimal (IsDigits digitsOf)
open Pattern (CountsDigits)
open Schema (Facets readCount?)

/-! ## Patterns -/

/-- A text begins like a pattern for digits, and ends with a number and a closing brace. Between
the opening brace and the number anything may stand that ends with a comma. -/
def EndsInCount (pattern : String) (count : Nat) : Prop :=
  ∃ front last, pattern.toList = "\\d\x7b".toList ++ (front ++ last ++ ['\x7d']) ∧
    (front = [] ∨ ∃ before, front = before ++ [',']) ∧ ',' ∉ last ∧
    readCount? (Text.trim (String.ofList last)) = some count

theorem endsWith_brace {text : String} :
    text.endsWith "\x7d" = true ↔ ∃ front, text.toList = front ++ ['\x7d'] := by
  rw [String.endsWith_eq_endsWith_toSlice, String.Slice.endsWith_string_iff, String.copy_toSlice]
  exact ⟨fun ⟨front, parts⟩ => ⟨front, parts.symm⟩, fun ⟨front, parts⟩ => ⟨front, parts.symm⟩⟩

theorem digitPatternLength?_eq_some {pattern : String} {count : Nat} :
    digitPatternLength? pattern = some count ↔ EndsInCount pattern count := by
  simp only [digitPatternLength?, Option.bind_eq_bind, Option.bind_eq_some_iff,
    Text.dropStart?_eq_some, Option.ite_none_right_eq_some]
  constructor
  · rintro ⟨inner, begins, brace, read⟩
    obtain ⟨counts, parts⟩ := endsWith_brace.mp brace
    obtain ⟨front, last, rfl, ends, free⟩ := Text.exists_last ',' counts
    rw [parts, List.dropLast_concat, Text.getLastD_splitChars ends free] at read
    exact ⟨front, last, by rw [begins, parts], ends, free, read⟩
  · rintro ⟨front, last, parts, ends, free, read⟩
    refine ⟨String.ofList (front ++ last ++ ['\x7d']), ?_, ?_, ?_⟩
    · simpa using parts
    · exact endsWith_brace.mpr ⟨front ++ last, String.toList_ofList⟩
    · rw [String.toList_ofList, List.dropLast_concat, Text.getLastD_splitChars ends free, read]

theorem trim_digits {digits : List Char} (isDigits : IsDigits digits) :
    Text.trim (String.ofList digits) = String.ofList digits := by
  have left (run : List Char) (isDigits : IsDigits run) : run.dropWhile Text.isBlank = run := by
    simpa using Pattern.dropWhile_isBlank isDigits []
  have back : IsDigits digits.reverse :=
    ⟨by simpa using isDigits.1, fun c member => isDigits.2 c (List.mem_reverse.mp member)⟩
  rw [Text.trim, String.toList_ofList, Text.trimChars, Text.trimLeftChars, left digits isDigits,
    Text.trimRightChars, left _ back, List.reverse_reverse]

theorem readCount?_digits {digits : List Char} (isDigits : IsDigits digits)
    (small : digitsOf digits ≤ Decimal.maxCount) :
    readCount? (String.ofList digits) = some (digitsOf digits) := by
  have plain (rest : List Char) : digits ≠ '+' :: rest := by
    simpa using @IsDigits.append_ne _ isDigits '+' rfl [] rest
  have word : digitsOf digits ≤ Decimal.maxWord := small.trans (by decide)
  have read : Decimal.parseWord? digits = some (digitsOf digits) := by
    unfold Decimal.parseWord?
    split
    next rest => exact absurd rfl (plain rest)
    next => simp [Decimal.natural?_of_isDigits isDigits, word]
  rw [readCount?, String.toList_ofList, read]
  simp [small]

/-- A pattern that counts digits ends in its upper count. -/
theorem endsInCount_of_countsDigits {pattern : String} {least most : Nat}
    (counts : CountsDigits pattern.toList least most) (small : most ≤ Decimal.maxCount) :
    EndsInCount pattern most := by
  have noComma {digits : List Char} (isDigits : IsDigits digits) : ',' ∉ digits := by
    intro member
    exact absurd (isDigits.2 ',' member) (by decide)
  generalize text : pattern.toList = chars at counts
  cases counts with
  | @exactly digits isDigits =>
    refine ⟨[], digits, by rw [text]; simp, .inl rfl, noComma isDigits, ?_⟩
    rw [trim_digits isDigits, readCount?_digits isDigits small]
  | @between fewest greatest fewestDigits greatestDigits ordered =>
    refine ⟨fewest ++ [','], greatest, by rw [text]; simp, .inr ⟨fewest, rfl⟩,
      noComma greatestDigits, ?_⟩
    rw [trim_digits greatestDigits, readCount?_digits greatestDigits small]

/-! ## Steps -/

/-- The patterns of a step let a text through. -/
def PatternsAdmit (facets : Facets) (text : String) : Prop :=
  ∃ pattern, Pattern.whole (joinPatterns facets.patterns) = .ok pattern ∧
    pattern.isMatch text = true

/-- All patterns of a step count digits, and so few that a column of some width has room for
them. -/
def PatternsFit (facets : Facets) (factor width : Nat) : Prop :=
  ∀ pattern ∈ facets.patterns, ∃ least most, CountsDigits pattern.toList least most ∧
    most * factor ≤ width

variable {repr restricted : ScalarRepr} {facets : Facets} {factor : Nat} {label : String}

theorem applyFacets_eq_ok (step : applyFacets repr facets factor label = .ok restricted) :
    scaledLength repr facets factor label = .ok restricted.maxLength ∧ ∃ ranges,
      restricted.validators = repr.validators ++ ranges ++ textValidators repr.kind facets := by
  obtain ⟨ranges, _, step⟩ := Result.bind_eq_ok.mp step
  obtain ⟨maxLength, scaled, step⟩ := Result.bind_eq_ok.mp step
  obtain rfl := Result.pure_eq_ok.mp step
  exact ⟨scaled, ranges, rfl⟩

/-- The length after a step that states none. -/
theorem maxLength_eq (textual : repr.kind.isTextual = true) (noLength : facets.length = none)
    (noMaximum : facets.maxLength = none)
    (step : applyFacets repr facets factor label = .ok restricted) :
    restricted.maxLength =
      ((facets.patterns.head?.bind digitPatternLength?).map (· * factor) <|>
        longestValue? facets <|> repr.maxLength) := by
  have scaled := (applyFacets_eq_ok step).1
  have stated : statedLength? facets = facets.patterns.head?.bind digitPatternLength? := by
    simp [statedLength?, noLength, noMaximum]
  rw [scaledLength, textual, stated] at scaled
  simp only [Bool.not_true, Bool.false_eq_true, if_false] at scaled
  generalize facets.patterns.head?.bind digitPatternLength? = derived at scaled ⊢
  cases derived with
  | none => exact (Except.ok.inj scaled).symm
  | some count =>
    dsimp only at scaled
    split at scaled
    next => exact (Except.ok.inj scaled).symm
    next => cases scaled

/-- The patterns of a text are checked, joined to one. -/
theorem regex_mem_validators (textual : repr.kind.isTextual = true)
    (nonempty : facets.patterns ≠ [])
    (step : applyFacets repr facets factor label = .ok restricted) :
    .regex (joinPatterns facets.patterns) ∈ restricted.validators := by
  obtain ⟨-, ranges, validators⟩ := applyFacets_eq_ok step
  have noNumber : repr.kind.isNumeric = false := by
    cases kind : repr.kind <;> simp_all [ScalarKind.isTextual, ScalarKind.isNumeric,
      ScalarKind.isInteger]
  rw [validators]
  refine List.mem_append_right _ (List.mem_append_right _ ?_)
  simp [nonempty, noNumber]

theorem patternsFit_iff (positive : 1 ≤ factor) {count : Nat} :
    PatternsFit facets factor (count * factor) ↔
      ∀ pattern ∈ facets.patterns, ∃ least most, CountsDigits pattern.toList least most ∧
        most ≤ count := by
  simp only [PatternsFit, Nat.mul_le_mul_right_iff positive]

/-- The characters of a pattern that counts digits. -/
theorem letters_of_countsDigits {text : List Char} {least most : Nat}
    (counts : CountsDigits text least most) :
    ∀ c ∈ text, c.isDigit = true ∨ c ∈ "\\d\x7b,\x7d".toList := by
  cases counts with
  | exactly isDigits =>
    intro c member
    have inDigits := isDigits.2 c
    simp at member ⊢
    tauto
  | between fewestDigits greatestDigits =>
    intro c member
    have inFewest := fewestDigits.2 c
    have inGreatest := greatestDigits.2 c
    simp at member ⊢
    tauto

theorem not_patternsFit {pattern : String} {c : Char} (member : pattern ∈ facets.patterns)
    (letter : c ∈ pattern.toList) (noDigit : c.isDigit = false)
    (noMark : c ∉ "\\d\x7b,\x7d".toList) (width : Nat) : ¬PatternsFit facets factor width := by
  intro fit
  obtain ⟨least, most, counts, -⟩ := fit pattern member
  rcases letters_of_countsDigits counts c letter with digit | mark
  · rw [noDigit] at digit
    cases digit
  · exact noMark mark

/-! ## Columns -/

/-- A step with some patterns and nothing else. -/
def patternFacets (patterns : List String) : Facets := { Facets.none with patterns }

/-- What such a step makes of a text, if the first pattern ends in a count. -/
theorem applyFacets_patternFacets {pattern : String} {others : List String} {count : Nat}
    (ends : EndsInCount pattern count) (small : count * factor ≤ Decimal.maxCount) :
    applyFacets (.ofKind .char) (patternFacets (pattern :: others)) factor label =
      .ok { ScalarRepr.ofKind .char with
        maxLength := some (count * factor)
        validators := [.regex (joinPatterns (pattern :: others))] } := by
  have scaled : scaledLength (.ofKind .char) (patternFacets (pattern :: others)) factor label =
      .ok (some (count * factor)) := by
    have stated : statedLength? (patternFacets (pattern :: others)) = some count :=
      digitPatternLength?_eq_some.mpr ends
    rw [scaledLength, stated]
    exact if_pos small
  rw [applyFacets, scaled]
  rfl

theorem patternsAdmit_of_any {text ends : String}
    (written : "^(?:" ++ joinPatterns facets.patterns ++ ")$" = ends)
    (matched : (Pattern.ofText? ends).any (·.isMatch text) = true) : PatternsAdmit facets text := by
  obtain ⟨pattern, read, isMatch⟩ := (Option.any_eq_true _ _).mp matched
  exact ⟨pattern, by rw [Pattern.whole, written, read], isMatch⟩

/-- The column of a step that states no length. If its first pattern ends in a count, then the
column has room for so many characters. It has room for all that the patterns let through, where
they count digits and no upper count is higher than the one of the first; a first pattern that
counts digits gives its upper count. Where the first pattern does not end in a count, the length is
that of the longest enumerated value, or the inherited one. -/
theorem length_from_patterns (textual : repr.kind.isTextual = true)
    (noLength : facets.length = none) (noMaximum : facets.maxLength = none) (positive : 1 ≤ factor)
    (step : applyFacets repr facets factor label = .ok restricted) :
    (∀ pattern count, facets.patterns.head? = some pattern → EndsInCount pattern count →
      restricted.maxLength = some (count * factor) ∧
      .regex (joinPatterns facets.patterns) ∈ restricted.validators ∧
      (PatternsFit facets factor (count * factor) ↔
        ∀ pattern ∈ facets.patterns, ∃ least most, CountsDigits pattern.toList least most ∧
          most ≤ count) ∧
      (PatternsFit facets factor (count * factor) → ∀ text, PatternsAdmit facets text →
        text.length ≤ count * factor)) ∧
    (∀ pattern least most, facets.patterns.head? = some pattern →
      CountsDigits pattern.toList least most → most ≤ Decimal.maxCount →
      restricted.maxLength = some (most * factor)) ∧
    ((∀ pattern count, facets.patterns.head? = some pattern → ¬EndsInCount pattern count) →
      restricted.maxLength = (longestValue? facets <|> repr.maxLength)) := by
  have length := maxLength_eq textual noLength noMaximum step
  have derived {pattern : String} {count : Nat} (first : facets.patterns.head? = some pattern)
      (ends : EndsInCount pattern count) : restricted.maxLength = some (count * factor) := by
    rw [length, first, Option.bind_some, digitPatternLength?_eq_some.mpr ends]
    rfl
  refine ⟨?_, fun pattern least most first counts small =>
    derived first (endsInCount_of_countsDigits counts small), ?_⟩
  · intro pattern count first ends
    have nonempty : facets.patterns ≠ [] := by
      rintro none
      rw [none] at first
      cases first
    refine ⟨derived first ends, regex_mem_validators textual nonempty step,
      patternsFit_iff positive, ?_⟩
    rintro fit text ⟨joined, read, isMatch⟩
    have small : count ≤ Decimal.maxCount := by
      obtain ⟨_, _, _, _, _, number⟩ := ends
      exact of_decide_eq_true (Option.filter_eq_some_iff.mp number).2
    have within := Pattern.length_le_of_countsDigits nonempty small
      ((patternsFit_iff positive).mp fit) read isMatch
    exact within.trans (Nat.le_mul_of_pos_right count positive)
  · intro other
    have none : facets.patterns.head?.bind digitPatternLength? = none := by
      rw [Option.bind_eq_none_iff]
      intro pattern first
      rw [Option.eq_none_iff_forall_ne_some]
      exact fun count found => other pattern count first (digitPatternLength?_eq_some.mp found)
    rw [length, none]
    rfl

theorem length_from_patterns_of_codes :
    ScalarKind.char.isTextual = true ∧ 1 ≤ 3 ∧
      applyFacets (.ofKind .char) (patternFacets ["\\d\x7b2,8\x7d", "\\d\x7b4\x7d"]) 3 "Code" =
        .ok { ScalarRepr.ofKind .char with
          maxLength := some 24
          validators := [.regex "(?:\\d\x7b2,8\x7d)|(?:\\d\x7b4\x7d)"] } ∧
      ∀ text, PatternsAdmit (patternFacets ["\\d\x7b2,8\x7d", "\\d\x7b4\x7d"]) text →
        text.length ≤ 24 := by
  have first : CountsDigits "\\d\x7b2,8\x7d".toList 2 8 :=
    @CountsDigits.between ['2'] ['8'] (Decimal.isDigits_iff.mp rfl) (Decimal.isDigits_iff.mp rfl)
      (by decide)
  have second : CountsDigits "\\d\x7b4\x7d".toList 4 4 :=
    @CountsDigits.exactly ['4'] (Decimal.isDigits_iff.mp rfl)
  have ends := endsInCount_of_countsDigits first (by decide)
  have step := @applyFacets_patternFacets 3 "Code" _ ["\\d\x7b4\x7d"] 8 ends (by decide)
  obtain ⟨-, -, fit, admits⟩ := (length_from_patterns rfl rfl rfl (by decide) step).1 _ 8 rfl ends
  refine ⟨rfl, by decide, step, admits (fit.mpr ?_)⟩
  intro pattern member
  rcases List.mem_pair.mp member with rfl | rfl
  · exact ⟨2, 8, first, by decide⟩
  · exact ⟨4, 4, second, by decide⟩

/-- A column with room for nine characters lets thirteen of them through, as what stands between
the counts of its pattern is overlooked; and a column with room for four lets ten of them through,
as its second pattern is. -/
theorem length_without_digits :
    applyFacets (.ofKind .char) (patternFacets ["\\d\x7b4\x7da\x7b1,9\x7d"]) 1 "Code" =
        .ok { ScalarRepr.ofKind .char with
          maxLength := some 9
          validators := [.regex "\\d\x7b4\x7da\x7b1,9\x7d"] } ∧
      ¬PatternsFit (patternFacets ["\\d\x7b4\x7da\x7b1,9\x7d"]) 1 9 ∧
      PatternsAdmit (patternFacets ["\\d\x7b4\x7da\x7b1,9\x7d"]) "1234aaaaaaaaa" ∧
      applyFacets (.ofKind .char) (patternFacets ["\\d\x7b4\x7d", "[A-Z]\x7b10\x7d"]) 1 "Code" =
        .ok { ScalarRepr.ofKind .char with
          maxLength := some 4
          validators := [.regex "(?:\\d\x7b4\x7d)|(?:[A-Z]\x7b10\x7d)"] } ∧
      ¬PatternsFit (patternFacets ["\\d\x7b4\x7d", "[A-Z]\x7b10\x7d"]) 1 4 ∧
      PatternsAdmit (patternFacets ["\\d\x7b4\x7d", "[A-Z]\x7b10\x7d"]) "ABCDEFGHIJ" := by
  have nine : EndsInCount "\\d\x7b4\x7da\x7b1,9\x7d" 9 :=
    ⟨"4\x7da\x7b1,".toList, ['9'], rfl, .inr ⟨"4\x7da\x7b1".toList, rfl⟩, by decide, rfl⟩
  have four : EndsInCount "\\d\x7b4\x7d" 4 := ⟨[], ['4'], rfl, .inl rfl, by decide, rfl⟩
  refine ⟨applyFacets_patternFacets nine (by decide), ?_, ?_,
    applyFacets_patternFacets four (by decide), ?_, ?_⟩
  · exact @not_patternsFit _ 1 _ 'a' List.mem_cons_self (by decide) rfl (by decide) 9
  · exact @patternsAdmit_of_any _ _ "^(?:\\d\x7b4\x7da\x7b1,9\x7d)$" rfl (by decide +kernel)
  · exact @not_patternsFit _ 1 _ 'A' (List.mem_cons_of_mem _ List.mem_cons_self) (by decide) rfl
      (by decide) 4
  · exact @patternsAdmit_of_any _ _ "^(?:(?:\\d\x7b4\x7d)|(?:[A-Z]\x7b10\x7d))$" rfl
      (by decide +kernel)

end EntityGraph.Scalar
