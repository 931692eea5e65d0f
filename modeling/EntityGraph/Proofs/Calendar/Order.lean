import EntityGraph.Calendar.Basic
import Mathlib.Data.Prod.Lex
import Mathlib.Order.Cover
import Mathlib.Tactic.IntervalCases

/-!
# The order of days

Days are ordered by their year, then by the month, then by the day of the month. The next day is the
one right behind a day in this order, and only the last day has none; the same holds of the day
before.
-/
namespace EntityGraph

/-- There are twelve months. -/
theorem daysInMonth_pos_iff {year : Int} {month : Nat} :
    0 < daysInMonth year month ↔ 1 ≤ month ∧ month ≤ 12 := by
  constructor
  · intro positive
    unfold daysInMonth at positive
    split at positive
    case h_13 => cases positive
    all_goals decide
  · rintro ⟨first, last⟩
    by_cases leap : isLeapYear year = true
    all_goals interval_cases month <;> simp [daysInMonth, leap]

theorem daysInMonth_le (year : Int) (month : Nat) : daysInMonth year month ≤ 31 := by
  unfold daysInMonth
  split
  · split <;> decide
  all_goals decide

namespace Date

variable {day other : Date}

/-- The numbers of a day, the year first. -/
def key (day : Date) : ℤ ×ₗ ℕ ×ₗ ℕ := toLex (day.year, toLex (day.month, day.day))

theorem key_injective : Function.Injective key := by
  intro day other same
  simp only [key, EmbeddingLike.apply_eq_iff_eq, Prod.mk.injEq] at same
  cases day
  cases other
  simp_all

instance : LinearOrder Date := LinearOrder.lift' key key_injective

theorem lt_iff : day < other ↔ day.year < other.year ∨ day.year = other.year ∧
    (day.month < other.month ∨ day.month = other.month ∧ day.day < other.day) := by
  have byKey : day < other ↔ day.key < other.key := Iff.rfl
  simp only [byKey, key, Prod.Lex.toLex_lt_toLex]

/-- What the numbers of a day keep to. -/
theorem isCalendarDay_iff {year : Int} {month day : Nat} : isCalendarDay year month day = true ↔
    minYear ≤ year ∧ year ≤ maxYear ∧ 1 ≤ day ∧ day ≤ daysInMonth year month := by
  simp only [isCalendarDay, Bool.and_eq_true, decide_eq_true_eq, and_assoc]

/-- The days of a year are in one of its twelve months. -/
theorem month_bounds (day : Date) : 1 ≤ day.month ∧ day.month ≤ 12 := by
  obtain ⟨-, -, one, last⟩ := isCalendarDay_iff.mp day.valid
  exact daysInMonth_pos_iff.mp (Nat.lt_of_lt_of_le one last)

theorem ofParts?_eq_some {year : Int} {month number : Nat} :
    ofParts? year month number = some day ↔
      day.year = year ∧ day.month = month ∧ day.day = number := by
  unfold ofParts?
  split
  next valid =>
    rw [Option.some.injEq]
    constructor
    · rintro rfl
      exact ⟨rfl, rfl, rfl⟩
    · rintro ⟨rfl, rfl, rfl⟩
      rfl
  next invalid =>
    simp only [reduceCtorEq, false_iff]
    rintro ⟨rfl, rfl, rfl⟩
    exact invalid day.valid

theorem not_calendarDay_of_ofParts? {year : Int} {month number : Nat}
    (none : ofParts? year month number = none) : ¬isCalendarDay year month number = true := by
  intro valid
  rw [ofParts?, dif_pos valid] at none
  cases none

/-! ## Neighbours -/

/-- One day is right behind another one: in the same month, or the first one of the next month or
of the next year. -/
inductive Succeeds (day next : Date) : Prop
  | sameMonth (year : next.year = day.year) (month : next.month = day.month)
      (number : next.day = day.day + 1) : Succeeds day next
  | nextMonth (last : day.day = daysInMonth day.year day.month) (year : next.year = day.year)
      (month : next.month = day.month + 1) (first : next.day = 1) : Succeeds day next
  | nextYear (last : day.day = 31) (december : day.month = 12) (year : next.year = day.year + 1)
      (january : next.month = 1) (first : next.day = 1) : Succeeds day next

/-- No day is between two neighbours. -/
theorem Succeeds.covBy (succeeds : Succeeds day other) : day ⋖ other := by
  refine ⟨?_, fun between after before => ?_⟩
  · rw [lt_iff]
    cases succeeds with
    | sameMonth => omega
    | nextMonth => omega
    | nextYear => omega
  · obtain ⟨-, -, one, last⟩ := isCalendarDay_iff.mp between.valid
    have month := between.month_bounds
    rw [lt_iff] at after before
    cases succeeds with
    | sameMonth => omega
    | nextMonth end_ =>
      have inMonth : between.year = day.year → between.month = day.month →
          between.day ≤ day.day := by
        intro sameYear sameMonth
        rwa [end_, ← sameYear, ← sameMonth]
      omega
    | nextYear =>
      have short := daysInMonth_le between.year between.month
      omega

/-- The day is the last one of its month. -/
theorem eq_daysInMonth (past : ¬isCalendarDay day.year day.month (day.day + 1) = true) :
    day.day = daysInMonth day.year day.month := by
  have valid := isCalendarDay_iff.mp day.valid
  rw [isCalendarDay_iff] at past
  omega

/-- The month is the last one of its year. -/
theorem month_eq_twelve (past : ¬isCalendarDay day.year (day.month + 1) 1 = true) :
    day.month = 12 := by
  have valid := isCalendarDay_iff.mp day.valid
  have month := day.month_bounds
  have further := @daysInMonth_pos_iff day.year (day.month + 1)
  rw [isCalendarDay_iff] at past
  omega

theorem daysInMonth_twelve (year : Int) : daysInMonth year 12 = 31 := rfl

theorem succeeds_of_next? {next : Date} (found : day.next? = some next) : Succeeds day next := by
  obtain sameMonth | ⟨full, later⟩ := (Option.orElse_eq_some _ _ _).mp found
  · obtain ⟨year, month, number⟩ := ofParts?_eq_some.mp sameMonth
    exact .sameMonth year month number
  have last := eq_daysInMonth (not_calendarDay_of_ofParts? full)
  obtain nextMonth | ⟨past, nextYear⟩ := (Option.orElse_eq_some _ _ _).mp later
  · obtain ⟨year, month, first⟩ := ofParts?_eq_some.mp nextMonth
    exact .nextMonth last year month first
  · have december := month_eq_twelve (not_calendarDay_of_ofParts? past)
    rw [december, daysInMonth_twelve] at last
    obtain ⟨year, january, first⟩ := ofParts?_eq_some.mp nextYear
    exact .nextYear last december year january first

/-- Only the last day has no next one. -/
theorem isMax_of_next? (found : day.next? = none) : IsMax day := by
  obtain ⟨full, found⟩ := (Option.orElse_eq_none _ _).mp found
  obtain ⟨past, ended⟩ := (Option.orElse_eq_none _ _).mp found
  have last := eq_daysInMonth (not_calendarDay_of_ofParts? full)
  have december := month_eq_twelve (not_calendarDay_of_ofParts? past)
  rw [december, daysInMonth_twelve] at last
  have noYear := not_calendarDay_of_ofParts? ended
  have january : daysInMonth (day.year + 1) 1 = 31 := rfl
  rw [isCalendarDay_iff, january] at noYear
  rw [isMax_iff_forall_not_lt]
  intro later after
  have valid := isCalendarDay_iff.mp later.valid
  have short := daysInMonth_le later.year later.month
  have month := later.month_bounds
  have own := isCalendarDay_iff.mp day.valid
  rw [lt_iff] at after
  omega

theorem succeeds_of_previous? {previous : Date} (found : day.previous? = some previous) :
    Succeeds previous day := by
  obtain ⟨-, -, one, -⟩ := isCalendarDay_iff.mp day.valid
  obtain ⟨month, -⟩ := day.month_bounds
  unfold previous? at found
  split_ifs at found with inside later
  · obtain ⟨sameYear, sameMonth, number⟩ := ofParts?_eq_some.mp found
    exact .sameMonth sameYear.symm sameMonth.symm (by omega)
  · obtain ⟨sameYear, lastMonth, last⟩ := ofParts?_eq_some.mp found
    exact .nextMonth (by rw [last, sameYear, lastMonth]) sameYear.symm (by omega) (by omega)
  · obtain ⟨lastYear, december, last⟩ := ofParts?_eq_some.mp found
    exact .nextYear last december (by omega) (by omega) (by omega)

/-- Only the first day has none before it. -/
theorem isMin_of_previous? (found : day.previous? = none) : IsMin day := by
  have valid := isCalendarDay_iff.mp day.valid
  have month := day.month_bounds
  rw [isMin_iff_forall_not_lt]
  intro earlier before
  have other := isCalendarDay_iff.mp earlier.valid
  have otherMonth := earlier.month_bounds
  rw [lt_iff] at before
  unfold previous? at found
  split_ifs at found with inside later
  all_goals
    have none := not_calendarDay_of_ofParts? found
    rw [isCalendarDay_iff] at none
  · omega
  · have further := @daysInMonth_pos_iff day.year (day.month - 1)
    omega
  · rw [daysInMonth_twelve] at none
    omega

end Date

end EntityGraph
