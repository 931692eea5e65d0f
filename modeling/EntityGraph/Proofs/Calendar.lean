import EntityGraph.Calendar.Basic
import EntityGraph.Proofs.Decimal.Notation

/-!
# The text of days and times

Days and times of one text are equal. Their numbers are runs of digits that end at a separator, and
the zeros that fill them up do not matter.
-/
namespace EntityGraph

open Decimal (AllDigits digitsOf)

/-! ## Padded numbers -/

theorem toList_padNumber (width value : Nat) : (padNumber width value).toList =
    List.replicate (width - (toString value).length) '0' ++ (toString value).toList := by
  rw [padNumber, String.toList_append, Decimal.toList_pushn]
  rfl

theorem allDigits_padNumber (width value : Nat) : AllDigits (padNumber width value).toList := by
  rw [toList_padNumber]
  exact (Decimal.allDigits_zeros _).append (Decimal.allDigits_toString value)

@[simp] theorem digitsOf_padNumber (width value : Nat) :
    digitsOf (padNumber width value).toList = value := by
  rw [toList_padNumber, Decimal.digitsOf_zeros_append, Decimal.digitsOf_toString]

theorem length_padNumber {width value : Nat} (positive : 0 < width) (bounded : value < 10 ^ width) :
    (padNumber width value).toList.length = width := by
  have digits : (toString value).length ≤ width := by
    rw [← String.length_toList, Nat.toString_eq_repr, Nat.toList_repr]
    exact (Nat.length_toDigits_le_iff (by decide) positive).mpr bounded
  rw [toList_padNumber, List.length_append, List.length_replicate, String.length_toList]
  omega

theorem padNumber_ne_nil (width value : Nat) : (padNumber width value).toList ≠ [] := by
  rw [toList_padNumber]
  exact List.append_ne_nil_of_right_ne_nil _ (Decimal.toString_ne_nil value)

/-- What may follow digits. -/
def EndsDigits (rest : List Char) : Prop := ∀ c ∈ rest.head?, c.isDigit = false

theorem endsDigits_nil : EndsDigits [] := by
  intro c head
  cases head

theorem endsDigits_cons {c : Char} (mark : c.isDigit = false) (rest : List Char) :
    EndsDigits (c :: rest) := by
  intro d head
  cases head
  exact mark

theorem allDigits_takeWhile (text : List Char) : AllDigits (text.takeWhile Text.isDigit) := by
  intro c member
  exact List.all_eq_true.mp List.all_takeWhile c member

/-- The run of digits at the front of a text. -/
theorem takeWhile_digits {digits rest : List Char} (allDigits : AllDigits digits)
    (ends : EndsDigits rest) : (digits ++ rest).takeWhile Text.isDigit = digits ∧
      (digits ++ rest).dropWhile Text.isDigit = rest := by
  have letters : ∀ c ∈ digits, Text.isDigit c = true := allDigits
  have stops : rest.takeWhile Text.isDigit = [] ∧ rest.dropWhile Text.isDigit = rest := by
    cases rest with
    | nil => exact ⟨rfl, rfl⟩
    | cons c rest =>
      have stop : ¬Text.isDigit c = true := Bool.eq_false_iff.mp (ends c rfl)
      exact ⟨List.takeWhile_cons_of_neg stop, List.dropWhile_cons_of_neg stop⟩
  rw [List.takeWhile_append_of_pos letters, List.dropWhile_append_of_pos letters, stops.1,
    stops.2, List.append_nil]
  exact ⟨rfl, rfl⟩

theorem padNumber_append {width n m : Nat} {rest others : List Char} (restEnds : EndsDigits rest)
    (othersEnd : EndsDigits others)
    (same : (padNumber width n).toList ++ rest = (padNumber width m).toList ++ others) :
    n = m ∧ rest = others := by
  obtain ⟨digits, tails⟩ := Decimal.runs_append (allDigits_padNumber width n)
    (allDigits_padNumber width m) restEnds othersEnd same
  have numbers := congrArg digitsOf digits
  rw [digitsOf_padNumber, digitsOf_padNumber] at numbers
  exact ⟨numbers, tails⟩

/-! ## Days -/

/-- The sign of a year. -/
def yearSign (year : Int) : List Char :=
  if 0 ≤ year ∧ year ≤ 9999 then [] else if year < 0 then ['-'] else ['+']

theorem yearSign_noDigit (year : Int) : ∀ c ∈ yearSign year, (!c.isDigit) = true := by
  unfold yearSign
  split_ifs <;> simp

theorem toList_yearText (year : Int) :
    (yearText year).toList = yearSign year ++ (padNumber 4 year.natAbs).toList := by
  unfold yearText yearSign
  split
  next plain =>
    have same : year.toNat = year.natAbs := by omega
    rw [same, List.nil_append]
  · rw [String.toList_append]
    split
    · rfl
    · rfl

theorem yearText_append {year other : Int} {rest others : List Char} (restEnds : EndsDigits rest)
    (othersEnd : EndsDigits others)
    (same : (yearText year).toList ++ rest = (yearText other).toList ++ others) :
    year = other ∧ rest = others := by
  rw [toList_yearText, toList_yearText, List.append_assoc, List.append_assoc] at same
  -- A sign is no digit, so either both years have one or none.
  have digitFirst (n : Nat) (tail : List Char) :
      ∀ c ∈ ((padNumber 4 n).toList ++ tail).head?, (!c.isDigit) = false := by
    obtain ⟨first, digits, letters⟩ := List.exists_cons_of_ne_nil (padNumber_ne_nil 4 n)
    have digit := allDigits_padNumber 4 n first (by rw [letters]; exact List.mem_cons_self)
    intro c head
    rw [letters] at head
    cases head
    rw [digit]
    rfl
  have signs : yearSign year = yearSign other :=
    (Decimal.runs_append (yearSign_noDigit year) (yearSign_noDigit other) (digitFirst _ _)
      (digitFirst _ _) same).1
  rw [signs] at same
  obtain ⟨numbers, tails⟩ := padNumber_append restEnds othersEnd (List.append_cancel_left same)
  refine ⟨?_, tails⟩
  unfold yearSign at signs
  split_ifs at signs <;> simp at signs <;> omega

theorem Date.text_append {day other : Date} {rest others : List Char} (restEnds : EndsDigits rest)
    (othersEnd : EndsDigits others)
    (same : day.text.toList ++ rest = other.text.toList ++ others) :
    day = other ∧ rest = others := by
  unfold Date.text at same
  simp only [String.toList_append, List.append_assoc] at same
  have dash (tail : List Char) : EndsDigits ("-".toList ++ tail) := endsDigits_cons rfl tail
  obtain ⟨years, months⟩ := yearText_append (dash _) (dash _) same
  obtain ⟨sameMonth, days⟩ := padNumber_append (dash _) (dash _) (List.append_cancel_left months)
  obtain ⟨sameDay, tails⟩ := padNumber_append restEnds othersEnd (List.append_cancel_left days)
  cases day
  cases other
  simp_all

theorem Date.text_injective {day other : Date} (same : day.text = other.text) : day = other :=
  (Date.text_append endsDigits_nil endsDigits_nil (congrArg (·.toList ++ []) same)).1

/-! ## Times -/

/-- The nanoseconds of a fraction. -/
def nanosecondOf : List Char → Nat
  | '.' :: digits => digitsOf digits * 10 ^ (9 - digits.length)
  | _ => 0

theorem nanosecondOf_fractionText {nanosecond : Nat} (bounded : nanosecond < 1000000000) :
    nanosecondOf (TimeOfDay.fractionText nanosecond).toList = nanosecond := by
  have read {width value : Nat} (positive : 0 < width) (small : value < 10 ^ width) :
      nanosecondOf ("." ++ padNumber width value).toList = value * 10 ^ (9 - width) := by
    rw [String.toList_append]
    show digitsOf (padNumber width value).toList *
      10 ^ (9 - (padNumber width value).toList.length) = _
    rw [digitsOf_padNumber, length_padNumber positive small]
  unfold TimeOfDay.fractionText
  split_ifs with zero milli micro
  · rw [zero]
    rfl
  · rw [read (by decide) (by omega)]
    omega
  · rw [read (by decide) (by omega)]
    omega
  · rw [read (by decide) (by omega)]
    omega

theorem endsDigits_fractionText (nanosecond : Nat) :
    EndsDigits (TimeOfDay.fractionText nanosecond).toList := by
  unfold TimeOfDay.fractionText
  split_ifs
  · exact endsDigits_nil
  all_goals
    rw [String.toList_append]
    exact endsDigits_cons rfl _

theorem TimeOfDay.text_injective {time other : TimeOfDay} (same : time.text = other.text) :
    time = other := by
  have lists := congrArg String.toList same
  unfold TimeOfDay.text at lists
  simp only [String.toList_append, List.append_assoc] at lists
  have colon (tail : List Char) : EndsDigits (":".toList ++ tail) := endsDigits_cons rfl tail
  obtain ⟨hours, afterHour⟩ := padNumber_append (colon _) (colon _) lists
  obtain ⟨minutes, afterMinute⟩ :=
    padNumber_append (colon _) (colon _) (List.append_cancel_left afterHour)
  obtain ⟨seconds, fractions⟩ := padNumber_append (endsDigits_fractionText _)
    (endsDigits_fractionText _) (List.append_cancel_left afterMinute)
  have timeValid := time.valid
  have otherValid := other.valid
  simp only [Bool.and_eq_true, decide_eq_true_eq] at timeValid otherValid
  have nanoseconds := congrArg nanosecondOf fractions
  rw [nanosecondOf_fractionText timeValid.2, nanosecondOf_fractionText otherValid.2] at nanoseconds
  cases time
  cases other
  simp_all

theorem DateTime.text_injective {moment other : DateTime} (same : moment.text = other.text) :
    moment = other := by
  have lists := congrArg String.toList same
  unfold DateTime.text at lists
  simp only [String.toList_append, List.append_assoc] at lists
  have letter (tail : List Char) : EndsDigits ("T".toList ++ tail) := endsDigits_cons rfl tail
  obtain ⟨days, times⟩ := Date.text_append (letter _) (letter _) lists
  have time := TimeOfDay.text_injective (String.toList_inj.mp (List.append_cancel_left times))
  cases moment
  cases other
  simp_all

end EntityGraph
