import EntityGraph.Calendar.Reader
import EntityGraph.Proofs.Calendar

/-!
# Reading days and times back

Every day and every moment is read back from its text. Its numbers have the fewest digits that the
reader asks for, and end at a separator; no blank stands anywhere.
-/
namespace EntityGraph

open Decimal (AllDigits digitsOf)
open Text (trimLeftChars)

namespace DateForm

/-! ## Numbers -/

theorem isDigit_eq (c : Char) : Text.isDigit c = c.isDigit := rfl

theorem not_isBlank_of_isDigit {c : Char} (digit : c.isDigit = true) : Text.isBlank c = false := by
  have bounds : 48 ≤ c.toNat ∧ c.toNat ≤ 57 := by
    simpa [Char.isDigit, UInt32.le_iff_toNat_le] using digit
  simp only [Text.isBlank, Bool.or_eq_false_iff, Bool.and_eq_false_iff, decide_eq_false_iff_not]
  omega

theorem trimLeftChars_cons {c : Char} (mark : Text.isBlank c = false) (rest : List Char) :
    trimLeftChars (c :: rest) = c :: rest :=
  List.dropWhile_cons_of_neg (by simp [mark])

theorem trimLeftChars_digits {digits : List Char} (allDigits : AllDigits digits)
    (nonempty : digits ≠ []) (rest : List Char) :
    trimLeftChars (digits ++ rest) = digits ++ rest := by
  obtain ⟨first, others, rfl⟩ := List.exists_cons_of_ne_nil nonempty
  exact trimLeftChars_cons (not_isBlank_of_isDigit (allDigits first List.mem_cons_self)) _

/-- A run of digits that is not too long is read as one number. -/
theorem number?_digits {digits rest : List Char} {most : Nat} (allDigits : AllDigits digits)
    (nonempty : digits ≠ []) (fits : digits.length ≤ most) (ends : EndsDigits rest) :
    number? most (digits ++ rest) = some (digitsOf digits, rest) := by
  have letters : ∀ c ∈ digits, Text.isDigit c = true := allDigits
  have run : ((digits ++ rest).take most).takeWhile Text.isDigit = digits := by
    rw [List.take_append, List.take_of_length_le fits, List.takeWhile_append_of_pos letters]
    have stops : (rest.take (most - digits.length)).takeWhile Text.isDigit = [] := by
      cases rest with
      | nil => simp
      | cons c rest =>
        cases most - digits.length with
        | zero => rfl
        | succ count => simp [isDigit_eq, ends c rfl]
    rw [stops, List.append_nil]
  unfold number?
  rw [run]
  simp [nonempty, Decimal.digitsValue_eq]

theorem pair?_padNumber {value : Nat} (small : value < 100) {rest : List Char}
    (ends : EndsDigits rest) : pair? ((padNumber 2 value).toList ++ rest) = some (value, rest) := by
  rw [pair?, trimLeftChars_digits (allDigits_padNumber 2 value) (padNumber_ne_nil 2 value),
    number?_digits (allDigits_padNumber 2 value) (padNumber_ne_nil 2 value)
      (length_padNumber (by decide) small).le ends, digitsOf_padNumber]

theorem separator?_cons (form : DateForm) {c : Char} (mark : Text.isBlank c = false)
    (rest : List Char) : form.separator? c (c :: rest) = some rest := by
  cases form <;> simp [separator?, gap, trimLeftChars_cons mark]

/-! ## Days -/

theorem year?_yearText (year : Int) {rest : List Char} (ends : EndsDigits rest) :
    year? ((yearText year).toList ++ rest) = some (year, rest) := by
  have digits := allDigits_padNumber 4 year.natAbs
  have nonempty := padNumber_ne_nil 4 year.natAbs
  have signed : number? ((padNumber 4 year.natAbs).toList ++ rest).length
      ((padNumber 4 year.natAbs).toList ++ rest) = some (year.natAbs, rest) := by
    rw [number?_digits digits nonempty (by simp) ends, digitsOf_padNumber]
  rw [toList_yearText, List.append_assoc]
  -- Four digits without a sign, or any number of digits behind one.
  unfold yearSign
  split_ifs with plain negative
  · have unsigned : number? 4 ((padNumber 4 year.natAbs).toList ++ rest) =
        some (year.natAbs, rest) := by
      have small : year.natAbs < 10 ^ 4 := by omega
      rw [number?_digits digits nonempty (length_padNumber (by decide) small).le ends,
        digitsOf_padNumber]
    obtain ⟨first, others, text⟩ := List.exists_cons_of_ne_nil nonempty
    have digit := digits first (text ▸ List.mem_cons_self)
    rw [List.nil_append, year?, trimLeftChars_digits digits nonempty]
    rw [text, List.cons_append] at unsigned ⊢
    split
    next same =>
      cases same
      cases digit
    next same =>
      cases same
      cases digit
    · rw [unsigned, Option.map_some]
      simp only [Int.natAbs_of_nonneg plain.1]
  · rw [List.singleton_append, year?, trimLeftChars_cons rfl]
    simp only [signed, Option.map_some, Option.some.injEq, Prod.mk.injEq, and_true]
    omega
  · rw [List.singleton_append, year?, trimLeftChars_cons rfl]
    simp only [signed, Option.map_some, Option.some.injEq, Prod.mk.injEq, and_true]
    omega

theorem datePart?_text (form : DateForm) (date : Date) {rest : List Char} (ends : EndsDigits rest) :
    form.datePart? (date.text.toList ++ rest) = some (date, rest) := by
  have dash (tail : List Char) : EndsDigits ('-' :: tail) := endsDigits_cons rfl tail
  have month : date.month < 100 := by
    have valid := date.valid
    by_contra large
    have none : daysInMonth date.year date.month = 0 := by
      unfold daysInMonth
      split <;> omega
    simp only [isCalendarDay, none, Bool.and_eq_true, decide_eq_true_eq] at valid
    omega
  have day : date.day < 100 := by
    have valid := date.valid
    have most : daysInMonth date.year date.month ≤ 31 := by
      unfold daysInMonth
      split <;> first | decide | (split <;> decide)
    simp only [isCalendarDay, Bool.and_eq_true, decide_eq_true_eq] at valid
    omega
  have text : date.text.toList ++ rest = (yearText date.year).toList ++ ('-' ::
      ((padNumber 2 date.month).toList ++ ('-' :: ((padNumber 2 date.day).toList ++ rest)))) := by
    simp [Date.text]
  rw [text, datePart?, year?_yearText date.year (dash _)]
  simp only [Option.bind_eq_bind, Option.bind_some]
  rw [separator?_cons form rfl, Option.bind_some, pair?_padNumber month (dash _), Option.bind_some]
  simp only
  rw [separator?_cons form rfl, Option.bind_some, pair?_padNumber day ends, Option.bind_some]
  simp only
  rw [Date.ofParts?, dif_pos date.valid]
  rfl

/-! ## Times -/

/-- The fraction of a second is read at the end of a text. -/
theorem fraction?_fractionText {nanosecond : Nat} (bounded : nanosecond < 1000000000) :
    relaxed.fraction? (TimeOfDay.fractionText nanosecond).toList = some (nanosecond, []) := by
  have read {width value : Nat} (positive : 0 < width) (fits : width ≤ 9)
      (small : value < 10 ^ width) :
      relaxed.fraction? ("." ++ padNumber width value).toList =
        some (value * 10 ^ (9 - width), []) := by
    have digits := allDigits_padNumber width value
    have length := length_padNumber positive small
    have number := number?_digits digits (padNumber_ne_nil width value)
      (length.trans_le fits) endsDigits_nil
    rw [List.append_nil, digitsOf_padNumber] at number
    have point : ".".toList = ['.'] := rfl
    rw [String.toList_append, point, List.singleton_append, fraction?, number]
    simp [length]
  unfold TimeOfDay.fractionText
  split_ifs with zero milli micro
  · rw [zero]
    rfl
  · rw [read (by decide) (by decide) (by omega)]
    congr 2
    omega
  · rw [read (by decide) (by decide) (by omega)]
    congr 2
    omega
  · rw [read (by decide) (by decide) (by omega)]
    congr 2
    omega

theorem timePart?_text (time : TimeOfDay) :
    relaxed.timePart? time.text.toList = some (time, []) := by
  have colon (tail : List Char) : EndsDigits (':' :: tail) := endsDigits_cons rfl tail
  have valid := time.valid
  simp only [Bool.and_eq_true, decide_eq_true_eq] at valid
  have text : time.text.toList = (padNumber 2 time.hour).toList ++ (':' ::
      ((padNumber 2 time.minute).toList ++ (':' :: ((padNumber 2 time.second).toList ++
        (TimeOfDay.fractionText time.nanosecond).toList)))) := by
    simp [TimeOfDay.text]
  rw [text, timePart?, pair?_padNumber (by omega) (colon _)]
  simp only [Option.bind_eq_bind, Option.bind_some]
  rw [separator?_cons relaxed rfl, Option.bind_some, pair?_padNumber (by omega) (colon _),
    Option.bind_some]
  simp only
  rw [separator?_cons relaxed rfl, Option.bind_some,
    pair?_padNumber (by omega) (endsDigits_fractionText _), Option.bind_some]
  simp only
  rw [fraction?_fractionText valid.2, Option.bind_some]
  simp only
  rw [TimeOfDay.ofParts?, dif_pos time.valid]
  rfl

end DateForm

open DateForm

theorem Date.parse?_text (form : DateForm) (date : Date) : parse? form date.text = some date := by
  have read := datePart?_text form date endsDigits_nil
  rw [List.append_nil] at read
  rw [parse?, read]
  cases form <;> rfl

/-- A moment is read back in the form that allows fractions. -/
theorem DateTime.parse?_text (moment : DateTime) :
    parse? .relaxed moment.text = some moment := by
  have text : moment.text.toList = moment.date.text.toList ++ ('T' :: moment.time.text.toList) := by
    simp [DateTime.text]
  rw [parse?, text, datePart?_text .relaxed moment.date (endsDigits_cons rfl _)]
  simp only [Option.bind_eq_bind, Option.bind_some]
  rw [separator?_cons .relaxed rfl, Option.bind_some, timePart?_text]
  rfl

end EntityGraph
