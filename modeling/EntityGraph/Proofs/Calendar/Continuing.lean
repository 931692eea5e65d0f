import EntityGraph.Proofs.Calendar.Order
import EntityGraph.Proofs.Calendar.Reading

/-!
# Days and longer texts

A number that is read from the front of a text is read from every longer text too, unless it ends
where the text does. So if a text names a day, and a longer text does as well, then the longer text
has one digit more, and names another day of the same month.
-/
namespace EntityGraph

open Decimal (AllDigits digitsOf)
open Text (trimLeftChars)

/-! ## Numbers -/

theorem EndsDigits.append {rest : List Char} (ends : EndsDigits rest) (nonempty : rest ≠ [])
    (more : List Char) : EndsDigits (rest ++ more) := by
  obtain ⟨first, others, rfl⟩ := List.exists_cons_of_ne_nil nonempty
  exact ends

theorem endsDigits_dropWhile (text : List Char) : EndsDigits (text.dropWhile Text.isDigit) := by
  intro c head
  have stop := List.head?_dropWhile_not Text.isDigit text
  rw [Option.mem_def.mp head] at stop
  exact stop

namespace DateForm

/-- A number is a run of digits that ends at another character, or is as long as it may be. -/
theorem number?_eq_some {most value : Nat} {text rest : List Char} :
    number? most text = some (value, rest) ↔
      ∃ digits, text = digits ++ rest ∧ digits ≠ [] ∧ AllDigits digits ∧ digits.length ≤ most ∧
        (digits.length = most ∨ EndsDigits rest) ∧ value = digitsOf digits := by
  constructor
  · intro read
    unfold number? at read
    simp only [← List.take_takeWhile] at read
    have parts := (@List.takeWhile_append_dropWhile _ Text.isDigit text).symm
    have run := allDigits_takeWhile text
    have ends := endsDigits_dropWhile text
    generalize text.takeWhile Text.isDigit = digits at parts read run
    generalize text.dropWhile Text.isDigit = after at parts ends
    split at read
    next => cases read
    next nonempty =>
      rw [Option.some.injEq, Prod.mk.injEq] at read
      obtain ⟨rfl, rfl⟩ := read
      -- The run of digits may go on where the number has to end.
      refine ⟨digits.take most, ?_, by simpa using nonempty, fun c member =>
        run c (List.mem_of_mem_take member), List.length_take_le _ _, ?_, Decimal.digitsValue_eq _⟩
      · have front : digits.take most ++ (digits.drop most ++ after) = text := by
          rw [← List.append_assoc, List.take_append_drop, parts]
        rw [← front, List.drop_left]
      · subst parts
        by_cases long : most ≤ digits.length
        · exact .inl (List.length_take_of_le long)
        · rw [List.take_of_length_le (by omega), List.drop_left]
          exact .inr ends
  · rintro ⟨digits, rfl, nonempty, allDigits, fits, full | ends, rfl⟩
    · have run : ((digits ++ rest).take most).takeWhile Text.isDigit = digits := by
        simpa [List.take_left' full] using (takeWhile_digits allDigits endsDigits_nil).1
      unfold number?
      rw [run]
      simp [nonempty, Decimal.digitsValue_eq]
    · exact number?_digits allDigits nonempty fits ends

/-- What is read from a text is read from a longer one, if something follows it. -/
theorem number?_append {most value : Nat} {text rest : List Char}
    (read : number? most text = some (value, rest)) (follows : rest ≠ []) (more : List Char) :
    number? most (text ++ more) = some (value, rest ++ more) := by
  obtain ⟨digits, rfl, nonempty, allDigits, fits, ended, rfl⟩ := number?_eq_some.mp read
  exact number?_eq_some.mpr ⟨digits, List.append_assoc _ _ _, nonempty, allDigits, fits,
    ended.imp_right (·.append follows more), rfl⟩

/-- The same for a number that may be as long as the text. -/
theorem number?_length_append {value : Nat} {text rest : List Char}
    (read : number? text.length text = some (value, rest)) (follows : rest ≠ [])
    (more : List Char) :
    number? (text ++ more).length (text ++ more) = some (value, rest ++ more) := by
  obtain ⟨digits, rfl, nonempty, allDigits, fits, full | ends, rfl⟩ := number?_eq_some.mp read
  · rw [List.length_append, left_eq_add, List.length_eq_zero_iff] at full
    exact absurd full follows
  · refine number?_eq_some.mpr ⟨digits, List.append_assoc _ _ _, nonempty, allDigits, ?_,
      .inr (ends.append follows more), rfl⟩
    simp

theorem trimLeftChars_append {text : List Char} (nonempty : trimLeftChars text ≠ [])
    (more : List Char) : trimLeftChars (text ++ more) = trimLeftChars text ++ more := by
  have some : ¬(text.dropWhile Text.isBlank).isEmpty = true := by
    rwa [List.isEmpty_iff]
  rw [trimLeftChars, trimLeftChars, List.dropWhile_append, if_neg some]

theorem number?_nil (most : Nat) : number? most [] = none := by
  simp [number?]

theorem pair?_append {value : Nat} {text rest : List Char}
    (read : pair? text = some (value, rest)) (follows : rest ≠ []) (more : List Char) :
    pair? (text ++ more) = some (value, rest ++ more) := by
  have nonempty : trimLeftChars text ≠ [] := by
    intro empty
    rw [pair?, empty, number?_nil] at read
    cases read
  rw [pair?, trimLeftChars_append nonempty]
  exact number?_append read follows more

/-- The same for a year behind its sign. -/
theorem signed_append (sign : Nat → Int) {value : Int} {text rest : List Char}
    (read : (number? text.length text).map (fun (value, rest) => (sign value, rest)) =
      some (value, rest))
    (follows : rest ≠ []) (more : List Char) :
    (number? (text ++ more).length (text ++ more)).map (fun (value, rest) => (sign value, rest)) =
      some (value, rest ++ more) := by
  obtain ⟨⟨number, after⟩, found, same⟩ := Option.map_eq_some_iff.mp read
  cases same
  rw [number?_length_append found follows more]
  rfl

theorem year?_append {value : Int} {text rest : List Char}
    (read : year? text = some (value, rest)) (follows : rest ≠ []) (more : List Char) :
    year? (text ++ more) = some (value, rest ++ more) := by
  have nonempty : trimLeftChars text ≠ [] := by
    intro empty
    rw [year?, empty] at read
    simp [number?_nil] at read
  unfold year? at read ⊢
  rw [trimLeftChars_append nonempty]
  generalize trimLeftChars text = start at *
  split at read
  next => exact signed_append (fun number => -number) read follows more
  next => exact signed_append (fun number => number) read follows more
  next minus plus =>
    obtain ⟨⟨number, after⟩, found, same⟩ := Option.map_eq_some_iff.mp read
    cases same
    -- The longer text begins with the same character, so it has no sign either.
    obtain ⟨first, others, rfl⟩ := List.exists_cons_of_ne_nil nonempty
    rw [List.cons_append]
    split
    next same =>
      cases same
      exact (minus _ rfl).elim
    next same =>
      cases same
      exact (plus _ rfl).elim
    · rw [← List.cons_append, number?_append found follows more]
      rfl

theorem separator?_eq_some {c : Char} {text rest : List Char} :
    strict.separator? c text = some rest ↔ text = c :: rest := by
  cases text with
  | nil => simp [separator?, gap]
  | cons d others => simp [separator?, gap]

/-- Of two numbers that are read to the end, one from a longer text, the longer one has one digit
more. They are not equal, unless they are zero. -/
theorem pair?_longer {value other : Nat} {text more : List Char}
    (read : pair? text = some (value, [])) (longer : pair? (text ++ more) = some (other, []))
    (nonempty : more ≠ []) :
    ∃ c, c.isDigit = true ∧ more = [c] ∧ (other = value → value = 0) := by
  unfold pair? at read longer
  obtain ⟨digits, front, some, -, -, -, rfl⟩ := number?_eq_some.mp read
  rw [List.append_nil] at front
  rw [trimLeftChars_append (front ▸ some), front] at longer
  obtain ⟨all, same, -, allDigits, fits, -, rfl⟩ := number?_eq_some.mp longer
  rw [List.append_nil] at same
  subst same
  -- Two digits at most, so there is one on either side.
  obtain ⟨first, others, rfl⟩ := List.exists_cons_of_ne_nil some
  obtain ⟨c, behind, rfl⟩ := List.exists_cons_of_ne_nil nonempty
  obtain rfl : others = [] := by
    rw [← List.length_eq_zero_iff]
    simp only [List.length_append, List.length_cons] at fits
    omega
  obtain rfl : behind = [] := by
    rw [← List.length_eq_zero_iff]
    simp only [List.length_append, List.length_cons] at fits
    omega
  refine ⟨c, allDigits c (by simp), rfl, ?_⟩
  simp only [digitsOf, List.cons_append, List.nil_append, Nat.ofDigitChars_cons,
    Nat.ofDigitChars_nil]
  omega

/-- The parts of a day, and what stands between them. -/
theorem datePart?_eq_some {text rest : List Char} {day : Date} :
    strict.datePart? text = some (day, rest) ↔ ∃ monthText dayText,
      year? text = some (day.year, '-' :: monthText) ∧
        pair? monthText = some (day.month, '-' :: dayText) ∧
        pair? dayText = some (day.day, rest) := by
  unfold datePart?
  simp only [Option.bind_eq_bind, Option.bind_eq_some_iff, Prod.exists, separator?_eq_some,
    Date.ofParts?_eq_some]
  constructor
  · rintro ⟨_, _, year, monthText, rfl, _, _, month, dayText, rfl, _, _, number, _, parts, same⟩
    cases same
    obtain ⟨rfl, rfl, rfl⟩ := parts
    exact ⟨monthText, dayText, year, month, number⟩
  · rintro ⟨monthText, dayText, year, month, number⟩
    exact ⟨_, _, year, _, rfl, _, _, month, _, rfl, _, _, number, _, ⟨rfl, rfl, rfl⟩, rfl⟩

end DateForm

namespace Date

open DateForm

theorem parse?_eq_some {text : String} {day : Date} :
    parse? .strict text = some day ↔ strict.datePart? text.toList = some (day, []) := by
  unfold parse?
  simp only [Option.bind_eq_bind, Option.bind_eq_some_iff, Prod.exists]
  constructor
  · rintro ⟨found, rest, read, ended⟩
    obtain ⟨empty, same⟩ := Option.ite_none_right_eq_some.mp ended
    cases same
    have nothing : rest = [] := List.isEmpty_iff.mp empty
    rw [read, nothing]
  · intro read
    exact ⟨day, [], read, rfl⟩

/-- A text that names a day, and a longer one that does as well. -/
theorem parse?_longer {text longer : String} {more : List Char} {day other : Date}
    (read : parse? .strict text = some day) (again : parse? .strict longer = some other)
    (continues : longer.toList = text.toList ++ more) (nonempty : more ≠ []) :
    ∃ c, c.isDigit = true ∧ more = [c] ∧ other ≠ day := by
  obtain ⟨monthText, dayText, year, month, number⟩ :=
    datePart?_eq_some.mp (parse?_eq_some.mp read)
  rw [parse?_eq_some, continues] at again
  obtain ⟨otherMonthText, otherDayText, otherYear, otherMonth, otherNumber⟩ :=
    datePart?_eq_some.mp again
  -- Up to the number of the day, the longer text says the same.
  rw [year?_append year (List.cons_ne_nil _ _), List.cons_append, Option.some.injEq,
    Prod.mk.injEq, List.cons.injEq] at otherYear
  obtain ⟨-, -, rfl⟩ := otherYear
  rw [pair?_append month (List.cons_ne_nil _ _), List.cons_append, Option.some.injEq,
    Prod.mk.injEq, List.cons.injEq] at otherMonth
  obtain ⟨-, -, rfl⟩ := otherMonth
  obtain ⟨c, digit, one, zero⟩ := pair?_longer number otherNumber nonempty
  refine ⟨c, digit, one, ?_⟩
  rintro rfl
  have first := (isCalendarDay_iff.mp other.valid).2.2.1
  have none := zero rfl
  omega

end Date

end EntityGraph
