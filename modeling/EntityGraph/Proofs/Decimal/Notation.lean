import EntityGraph.Decimal.Integer
import EntityGraph.Decimal.Shortest
import Mathlib.Algebra.Order.Field.Power
import Mathlib.Data.Rat.Defs
import Mathlib.Tactic.FieldSimp
import Mathlib.Tactic.Ring

/-!
# Written decimals

A decimal number is written with a point or an exponent, and what is written can be read again:
`reading` takes the digits, the places behind the point and the exponent of a text, and gives the
number for every layout. So a number is known by its text.
-/
namespace EntityGraph.Decimal

/-- The number that digits and an exponent stand for. -/
def Scientific.value (number : Scientific) : ℚ := number.digits * 10 ^ number.exponent

/-! ## Reading -/

/-- The number of decimal digits. -/
def digitsOf (digits : List Char) : Nat := Nat.ofDigitChars 10 digits 0

/-- What an exponent says, with its letter. -/
def exponentOf : List Char → Int
  | 'e' :: '+' :: digits => digitsOf digits
  | 'e' :: '-' :: digits => -(digitsOf digits : Int)
  | _ => 0

/-- The number of a text without sign: digits, perhaps with a point, perhaps with an exponent. -/
def reading (text : List Char) : ℚ :=
  let mantissa := text.takeWhile (· != 'e')
  let places := (mantissa.dropWhile (· != '.')).length - 1
  digitsOf (mantissa.filter (· != '.')) *
    10 ^ (exponentOf (text.dropWhile (· != 'e')) - (places : Int))

/-- A run of characters ends at the first other character. -/
theorem runs_append {inRun : Char → Bool} {left right rest others : List Char}
    (leftRun : ∀ c ∈ left, inRun c = true) (rightRun : ∀ c ∈ right, inRun c = true)
    (restStops : ∀ c ∈ rest.head?, inRun c = false)
    (othersStop : ∀ c ∈ others.head?, inRun c = false)
    (same : left ++ rest = right ++ others) : left = right ∧ rest = others := by
  have stopped {tail : List Char} (stops : ∀ c ∈ tail.head?, inRun c = false) :
      tail.takeWhile inRun = [] := by
    cases tail with
    | nil => rfl
    | cons c tail => exact List.takeWhile_cons_of_neg (by simp [stops c rfl])
  have taken := congrArg (List.takeWhile inRun) same
  rw [List.takeWhile_append_of_pos leftRun, List.takeWhile_append_of_pos rightRun,
    stopped restStops, stopped othersStop, List.append_nil, List.append_nil] at taken
  subst taken
  exact ⟨rfl, List.append_cancel_left same⟩

/-- A text that consists of digits. -/
def AllDigits (text : List Char) : Prop := ∀ c ∈ text, c.isDigit = true

theorem AllDigits.append {left right : List Char} (first : AllDigits left)
    (second : AllDigits right) : AllDigits (left ++ right) := by
  intro c member
  rcases List.mem_append.mp member with inLeft | inRight
  · exact first c inLeft
  · exact second c inRight

theorem AllDigits.ne {text : List Char} (digits : AllDigits text) (mark : Char)
    (noDigit : mark.isDigit = false) : ∀ c ∈ text, (c != mark) = true := by
  intro c member
  rw [bne_iff_ne]
  rintro rfl
  rw [digits c member] at noDigit
  cases noDigit

theorem allDigits_toString (n : Nat) : AllDigits (toString n).toList := by
  intro c member
  rw [Nat.toString_eq_repr, Nat.toList_repr] at member
  exact Nat.isDigit_of_mem_toDigits (by decide) (by decide) member

theorem allDigits_zero : AllDigits ['0'] := by
  intro c member
  rw [List.mem_singleton.mp member]
  rfl

theorem allDigits_zeros (count : Nat) : AllDigits (List.replicate count '0') := by
  intro c member
  rw [List.eq_of_mem_replicate member]
  rfl

theorem toString_ne_nil (n : Nat) : (toString n).toList ≠ [] := by
  rw [Nat.toString_eq_repr, Nat.toList_repr]
  exact Nat.toDigits_ne_nil

@[simp] theorem digitsOf_toString (n : Nat) : digitsOf (toString n).toList = n := by
  rw [digitsOf, Nat.toString_eq_repr, Nat.toList_repr]
  exact Nat.ofDigitChars_toDigits (by decide) (by decide)

theorem digitsValue_eq (digits : List Char) : digitsValue digits = digitsOf digits := by
  unfold digitsValue digitsOf Nat.ofDigitChars
  refine congrArg (fun step => digits.foldl step 0) ?_
  funext value c
  exact congrArg (· + _) (Nat.mul_comm _ _)

/-- Only zero is written with a zero in front. -/
theorem head?_toString {n : Nat} (positive : 0 < n) : (toString n).toList.head? ≠ some '0' := by
  rw [Nat.toString_eq_repr, Nat.toList_repr]
  induction n using Nat.base_induction 10 (by decide) with
  | single n small =>
    rw [Nat.toDigits_of_lt_base small, List.head?_singleton]
    simpa using positive.ne'
  | digit front last small frontPositive ih =>
    rw [← Nat.toDigits_append_toDigits (by decide) frontPositive small,
      List.head?_append_of_ne_nil _ Nat.toDigits_ne_nil]
    exact ih frontPositive

/-- Zeros behind digits multiply, zeros before them do not matter. -/
theorem digitsOf_append_zeros (digits : List Char) (count : Nat) :
    digitsOf (digits ++ List.replicate count '0') = digitsOf digits * 10 ^ count := by
  rw [digitsOf, Nat.ofDigitChars_append, Nat.ofDigitChars_replicate_zero, Nat.mul_comm, digitsOf]

theorem digitsOf_zeros_append (digits : List Char) (count : Nat) :
    digitsOf (List.replicate count '0' ++ digits) = digitsOf digits := by
  rw [digitsOf, Nat.ofDigitChars_append, Nat.ofDigitChars_replicate_zero, Nat.mul_zero, digitsOf]

/-- Nothing, or an exponent. -/
def IsTail (tail : List Char) : Prop := tail = [] ∨ ∃ rest, tail = 'e' :: rest

theorem takeWhile_of_isTail {mantissa tail : List Char} (isTail : IsTail tail)
    (free : ∀ c ∈ mantissa, (c != 'e') = true) :
    (mantissa ++ tail).takeWhile (· != 'e') = mantissa ∧
      (mantissa ++ tail).dropWhile (· != 'e') = tail := by
  rw [List.takeWhile_append_of_pos free, List.dropWhile_append_of_pos free]
  rcases isTail with rfl | ⟨rest, rfl⟩
  · simp
  · simp

/-- Digits without a point. -/
theorem reading_whole {digits tail : List Char} (allDigits : AllDigits digits)
    (isTail : IsTail tail) :
    reading (digits ++ tail) = digitsOf digits * 10 ^ exponentOf tail := by
  obtain ⟨taken, dropped⟩ := takeWhile_of_isTail isTail (allDigits.ne 'e' (by decide))
  have noPoint := allDigits.ne '.' (by decide)
  have places : digits.dropWhile (· != '.') = [] := by
    rw [← List.append_nil digits, List.dropWhile_append_of_pos noPoint, List.dropWhile_nil]
  have kept : digits.filter (· != '.') = digits := List.filter_eq_self.mpr noPoint
  unfold reading
  simp only [taken, dropped, places, kept]
  simp

/-- Digits with a point between them. -/
theorem reading_point {whole fraction tail : List Char} (wholeDigits : AllDigits whole)
    (fractionDigits : AllDigits fraction) (isTail : IsTail tail) :
    reading (whole ++ '.' :: fraction ++ tail) =
      digitsOf (whole ++ fraction) * 10 ^ (exponentOf tail - (fraction.length : Int)) := by
  have noLetter : ∀ c ∈ whole ++ '.' :: fraction, (c != 'e') = true := by
    intro c member
    rcases List.mem_append.mp member with inWhole | behind
    · exact wholeDigits.ne 'e' (by decide) c inWhole
    · rcases List.mem_cons.mp behind with rfl | inFraction
      · decide
      · exact fractionDigits.ne 'e' (by decide) c inFraction
  obtain ⟨taken, dropped⟩ := takeWhile_of_isTail isTail noLetter
  have wholePoint := wholeDigits.ne '.' (by decide)
  have fractionPoint := fractionDigits.ne '.' (by decide)
  have places : (whole ++ '.' :: fraction).dropWhile (· != '.') = '.' :: fraction := by
    rw [List.dropWhile_append_of_pos wholePoint]
    simp
  have kept : (whole ++ '.' :: fraction).filter (· != '.') = whole ++ fraction := by
    rw [List.filter_append, List.filter_eq_self.mpr wholePoint]
    simp [List.filter_eq_self.mpr fractionPoint]
  unfold reading
  simp only [taken, dropped, places, kept]
  simp

/-! ## The letters of a number -/

/-- The characters of which numbers are written. -/
def isNumeral (c : Char) : Bool := c.isDigit || c == '.' || c == 'e' || c == '+' || c == '-'

/-- A text that no integer has: it begins with a digit and has a point or an exponent. -/
structure IsFractional (text : List Char) : Prop where
  letters : ∀ c ∈ text, isNumeral c = true
  marked : '.' ∈ text ∨ 'e' ∈ text
  digit : ∃ first rest, text = first :: rest ∧ first.isDigit = true

theorem AllDigits.isNumeral {text : List Char} (digits : AllDigits text) :
    ∀ c ∈ text, isNumeral c = true := by
  intro c member
  rw [Decimal.isNumeral, digits c member]
  rfl

theorem toList_negSucc (n : Nat) :
    (toString (Int.negSucc n)).toList = '-' :: (toString (n + 1)).toList := by
  have text : toString (Int.negSucc n) = "-" ++ toString (n + 1) := rfl
  rw [text, String.toList_append]
  rfl

theorem toString_int_ne_nil (value : Int) : (toString value).toList ≠ [] := by
  cases value with
  | ofNat n => exact toString_ne_nil n
  | negSucc n =>
    rw [toList_negSucc]
    exact List.cons_ne_nil _ _

/-- An integer is written with digits, perhaps after a sign. -/
theorem letters_int (value : Int) :
    ∀ c ∈ (toString value).toList, c.isDigit = true ∨ c = '-' := by
  intro c member
  cases value with
  | ofNat n => exact .inl (allDigits_toString n c member)
  | negSucc n =>
    rw [toList_negSucc] at member
    rcases List.mem_cons.mp member with rfl | behind
    · exact .inr rfl
    · exact .inl (allDigits_toString (n + 1) c behind)

theorem toString_injective {n m : Nat} (same : toString n = toString m) : n = m := by
  rw [← digitsOf_toString n, same, digitsOf_toString]

theorem toString_ne_negSucc (n m : Nat) : toString n ≠ toString (Int.negSucc m) := by
  intro same
  have sign := allDigits_toString n '-' (by rw [same, toList_negSucc]; exact List.mem_cons_self)
  cases sign

theorem toString_int_injective {n m : Int} (same : toString n = toString m) : n = m := by
  cases n with
  | ofNat n =>
    cases m with
    | ofNat m => exact congrArg Int.ofNat (toString_injective same)
    | negSucc m => exact absurd same (toString_ne_negSucc n m)
  | negSucc n =>
    cases m with
    | ofNat m => exact absurd same.symm (toString_ne_negSucc m n)
    | negSucc m =>
      have texts := congrArg String.toList same
      rw [toList_negSucc, toList_negSucc] at texts
      have digits := toString_injective (String.toList_inj.mp (List.cons.inj texts).2)
      rw [Nat.succ.inj digits]

theorem isNumeral_int (value : Int) : ∀ c ∈ (toString value).toList, isNumeral c = true := by
  intro c member
  rcases letters_int value c member with digit | rfl
  · rw [isNumeral, digit]
    rfl
  · rfl

/-! ## Writing -/

theorem toList_pushn (text : String) (c : Char) (count : Nat) :
    (text.pushn c count).toList = text.toList ++ List.replicate count c := by
  induction count with
  | zero => simp [String.pushn, Nat.repeat]
  | succ count ih =>
    have step : text.pushn c (count + 1) = (text.pushn c count).push c := rfl
    rw [step, String.toList_push, ih, List.replicate_succ']
    simp

/-- The exponent of a layout with one. -/
def exponentText (point : Int) : String :=
  (if point > 0 then "e+" else "e") ++ toString (point - 1)

theorem exponentOf_exponentText (point : Int) :
    exponentOf (exponentText point).toList = point - 1 ∧
      ∃ rest, (exponentText point).toList = 'e' :: rest := by
  unfold exponentText
  split
  next positive =>
    obtain ⟨n, natural⟩ : ∃ n : Nat, point - 1 = n := ⟨(point - 1).toNat, by omega⟩
    have text : toString (point - 1) = toString n := by
      rw [natural]
      rfl
    rw [text, String.toList_append]
    refine ⟨?_, _, rfl⟩
    have reads : exponentOf ("e+".toList ++ (toString n).toList) = digitsOf (toString n).toList :=
      rfl
    rw [reads, digitsOf_toString, natural]
  next negative =>
    obtain ⟨n, natural⟩ : ∃ n : Nat, point - 1 = Int.negSucc n :=
      ⟨(-point).toNat, by omega⟩
    have text : toString (point - 1) = "-" ++ toString (n + 1) := by
      rw [natural]
      rfl
    rw [text, String.toList_append, String.toList_append]
    refine ⟨?_, _, rfl⟩
    have reads : exponentOf ("e".toList ++ ("-".toList ++ (toString (n + 1)).toList)) =
        -(digitsOf (toString (n + 1)).toList : Int) := rfl
    rw [reads, digitsOf_toString, natural]
    rfl

theorem isNumeral_exponentText (point : Int) :
    ∀ c ∈ (exponentText point).toList, isNumeral c = true := by
  have mark : ∀ c ∈ (if point > 0 then "e+" else "e").toList, isNumeral c = true := by
    split
    · simp [isNumeral]
    · simp [isNumeral]
  intro c member
  rw [exponentText, String.toList_append] at member
  rcases List.mem_append.mp member with letter | behind
  · exact mark c letter
  · exact isNumeral_int _ c behind

/-- The four layouts of a number that is not zero. -/
inductive Layout (number : Scientific) (text : String) : Prop
  | padded (whole : 0 ≤ number.exponent)
      (same : text.toList = (toString number.digits).toList ++
        List.replicate number.exponent.toNat '0' ++ '.' :: ['0'])
  | split {front back : List Char} (nonempty : front ≠ [])
      (parts : front ++ back = (toString number.digits).toList)
      (places : (back.length : Int) = -number.exponent)
      (same : text.toList = front ++ '.' :: back)
  | small {zeros : Nat}
      (places : ((zeros + (toString number.digits).length : Nat) : Int) = -number.exponent)
      (same : text.toList = '0' :: '.' ::
        (List.replicate zeros '0' ++ (toString number.digits).toList))
  | scientific {mantissa tail : List Char} (letter : ∃ rest, tail = 'e' :: rest)
      (letters : ∀ c ∈ tail, isNumeral c = true)
      (exponent : number.exponent + (toString number.digits).length - 1 = exponentOf tail)
      (parts : mantissa = (toString number.digits).toList ∧ mantissa.length = 1 ∨
        ∃ first rest, (toString number.digits).toList = first :: rest ∧
          mantissa = first :: '.' :: rest)
      (same : text.toList = mantissa ++ tail)

theorem layout_spec (number : Scientific) (nonzero : number.digits ≠ 0) :
    Layout number number.layout := by
  unfold Scientific.layout
  rw [if_neg nonzero]
  extract_lets text count point mantissa
  have counted : text.toList.length = count := String.length_toList
  split
  next whole =>
    refine .padded whole.1 ?_
    simp [toList_pushn, text]
  next notWhole =>
    split
    next inside =>
      -- The point stands between two digits, so the exponent is negative.
      have negative : number.exponent < 0 := by
        by_contra nonnegative
        exact notWhole ⟨by omega, inside.2⟩
      refine @Layout.split _ _ (text.toList.take point.toNat) (text.toList.drop point.toNat)
        ?_ (List.take_append_drop _ _) ?_ ?_
      · have length : 0 < (text.toList.take point.toNat).length := by
          rw [List.length_take, counted]
          omega
        exact List.ne_nil_of_length_pos length
      · rw [List.length_drop, counted]
        omega
      · simp
    next =>
      split
      next small =>
        refine @Layout.small _ _ (-point).toNat ?_ ?_
        · have length : (toString number.digits).length = count := rfl
          omega
        · simp [toList_pushn, text]
      next =>
        obtain ⟨exponent, letter⟩ := exponentOf_exponentText point
        have same : mantissa ++ (if point > 0 then "e+" else "e") ++ toString (point - 1) =
            mantissa ++ exponentText point := String.append_assoc
        rw [same]
        refine @Layout.scientific _ _ mantissa.toList _ letter (isNumeral_exponentText point) ?_ ?_
          (by simp)
        · rw [exponent]
          simp only [point, count, text]
          omega
        · by_cases one : count = 1
          · refine .inl ⟨by simp [mantissa, one, text], ?_⟩
            simp [mantissa, one, counted]
          · right
            obtain ⟨first, rest, letters⟩ : ∃ first rest, text.toList = first :: rest :=
              List.exists_cons_of_ne_nil (toString_ne_nil number.digits)
            refine ⟨first, rest, letters, ?_⟩
            simp only [mantissa, if_neg one]
            simp [letters]

/-- The number is read from its layout. -/
theorem reading_layout (number : Scientific) :
    reading number.layout.toList = number.value := by
  have digits := allDigits_toString number.digits
  by_cases zero : number.digits = 0
  · have text : number.layout.toList = ['0'] ++ '.' :: ['0'] ++ [] := by
      rw [Scientific.layout, if_pos zero]
      rfl
    rw [text, reading_point allDigits_zero allDigits_zero (.inl rfl)]
    have value : digitsOf (['0'] ++ ['0']) = 0 := by decide
    rw [value, Scientific.value, zero, Nat.cast_zero, zero_mul, zero_mul]
  · -- The digits are the same in all layouts; point, zeros and tail make up for the exponent.
    cases layout_spec number zero with
    | padded whole same =>
      rw [same, ← List.append_nil (_ ++ '.' :: ['0']), reading_point
        (digits.append (allDigits_zeros number.exponent.toNat)) allDigits_zero (.inl rfl)]
      have zeros := digitsOf_append_zeros
        ((toString number.digits).toList ++ List.replicate number.exponent.toNat '0') 1
      rw [List.replicate_one, digitsOf_append_zeros, digitsOf_toString] at zeros
      obtain ⟨n, natural⟩ := Int.eq_ofNat_of_zero_le whole
      rw [zeros, Scientific.value, natural, Int.toNat_natCast]
      simp [exponentOf]
    | @split front back nonempty parts places same =>
      have fraction : AllDigits front ∧ AllDigits back := by
        rw [← parts] at digits
        exact ⟨fun c member => digits c (List.mem_append_left _ member),
          fun c member => digits c (List.mem_append_right _ member)⟩
      rw [same, ← List.append_nil (_ ++ '.' :: back),
        reading_point fraction.1 fraction.2 (.inl rfl), parts, digitsOf_toString, places,
        Scientific.value]
      simp [exponentOf]
    | @small zeros places same =>
      have text : number.layout.toList = ['0'] ++ '.' ::
          (List.replicate zeros '0' ++ (toString number.digits).toList) ++ [] := by
        rw [same, List.append_nil, List.singleton_append]
      rw [text, reading_point allDigits_zero ((allDigits_zeros zeros).append digits) (.inl rfl)]
      have value := digitsOf_zeros_append (toString number.digits).toList (zeros + 1)
      rw [List.replicate_succ, List.cons_append, digitsOf_toString] at value
      rw [List.singleton_append, value, List.length_append, List.length_replicate,
        String.length_toList, places, Scientific.value]
      simp [exponentOf]
    | @scientific mantissa tail letter letters exponent parts same =>
      have tailed : IsTail tail := .inr letter
      rw [same]
      rcases parts with ⟨rfl, single⟩ | ⟨first, rest, letters, rfl⟩
      · rw [reading_whole digits tailed, digitsOf_toString, ← exponent, Scientific.value]
        rw [← String.length_toList, single, Nat.cast_one, add_sub_cancel_right]
      · rw [letters] at digits
        have text : first :: '.' :: rest ++ tail = [first] ++ '.' :: rest ++ tail := rfl
        rw [text, reading_point (fun c member => digits c (by simp_all))
            (fun c member => digits c (List.mem_cons_of_mem _ member)) tailed,
          List.singleton_append, ← letters, digitsOf_toString, ← exponent, Scientific.value,
          ← String.length_toList, letters, List.length_cons]
        congr 2
        push_cast
        ring

/-- Numbers of one layout are equal. -/
theorem value_eq_of_layout_eq {left right : Scientific} (same : left.layout = right.layout) :
    left.value = right.value := by
  rw [← reading_layout, ← reading_layout, same]

/-! ## The letters of a layout -/

theorem isFractional_point {whole fraction : List Char} (wholeDigits : AllDigits whole)
    (fractionDigits : AllDigits fraction) (nonempty : whole ≠ []) :
    IsFractional (whole ++ '.' :: fraction) := by
  refine ⟨?_, .inl (by simp), ?_⟩
  · intro c member
    rcases List.mem_append.mp member with inWhole | behind
    · exact wholeDigits.isNumeral c inWhole
    · rcases List.mem_cons.mp behind with rfl | inFraction
      · rfl
      · exact fractionDigits.isNumeral c inFraction
  · obtain ⟨first, rest, rfl⟩ := List.exists_cons_of_ne_nil nonempty
    exact ⟨first, _, rfl, wholeDigits first (by simp)⟩

theorem layout_isFractional (number : Scientific) : IsFractional number.layout.toList := by
  have digits := allDigits_toString number.digits
  by_cases zero : number.digits = 0
  · have text : number.layout.toList = ['0'] ++ '.' :: ['0'] := by
      rw [Scientific.layout, if_pos zero]
      rfl
    rw [text]
    exact isFractional_point allDigits_zero allDigits_zero (by simp)
  · cases layout_spec number zero with
    | padded whole same =>
      rw [same]
      refine isFractional_point (digits.append (allDigits_zeros _)) allDigits_zero ?_
      simp
    | @split front back nonempty parts places same =>
      rw [← parts] at digits
      rw [same]
      exact isFractional_point (fun c member => digits c (List.mem_append_left _ member))
        (fun c member => digits c (List.mem_append_right _ member)) nonempty
    | @small zeros places same =>
      rw [same]
      exact isFractional_point allDigits_zero ((allDigits_zeros zeros).append digits) (by simp)
    | @scientific mantissa tail letter letters exponent parts same =>
      obtain ⟨rest, rfl⟩ := letter
      -- The mantissa alone has the letters and the first digit, the tail has the exponent.
      have front : (∀ c ∈ mantissa, isNumeral c = true) ∧
          ∃ first rest, mantissa = first :: rest ∧ first.isDigit = true := by
        rcases parts with ⟨rfl, -⟩ | ⟨first, rest, written, rfl⟩
        · obtain ⟨first, rest, written⟩ :=
            List.exists_cons_of_ne_nil (toString_ne_nil number.digits)
          exact ⟨digits.isNumeral, first, rest, written,
            digits first (written ▸ List.mem_cons_self)⟩
        · rw [written] at digits
          have pointed : IsFractional ([first] ++ '.' :: rest) := isFractional_point
            (fun c member => digits c (by simp_all))
            (fun c member => digits c (List.mem_cons_of_mem _ member)) (by simp)
          exact ⟨pointed.letters, pointed.digit⟩
      obtain ⟨written, first, others, rfl, digit⟩ := front
      rw [same]
      refine ⟨?_, .inr (by simp), first, _, rfl, digit⟩
      intro c member
      rcases List.mem_append.mp member with inFront | inTail
      · exact written c inFront
      · exact letters c inTail

end EntityGraph.Decimal
