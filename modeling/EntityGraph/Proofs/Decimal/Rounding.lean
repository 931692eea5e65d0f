import EntityGraph.Proofs.Decimal.Notation
import Mathlib

/-!
# Reading doubles back

The numbers that round to a double form an interval, to whose end points the double itself belongs
only if its significand is even. The intervals of two doubles are disjoint, and the shortest decimal
of a double lies in its interval because seventeen digits always do. So the text of a finite double
determines the double.
-/
namespace EntityGraph.Decimal

/-! ## Intervals -/

/-- The distance of two neighbours above a double. -/
def Binary.unit (binary : Binary) : ℚ := 2 ^ binary.exponent

def Binary.value (binary : Binary) : ℚ := binary.significand * binary.unit

/-- Half of the distance to the neighbour below, in units. -/
def Binary.lower (binary : Binary) : ℚ := if binary.narrowBelow then 1 / 4 else 1 / 2

theorem Binary.unit_pos (binary : Binary) : 0 < binary.unit := zpow_pos (by norm_num) _

/-- Whether a position, in units, rounds to a double. The end points do if it is even. -/
@[mk_iff]
structure Binary.Holds (binary : Binary) (position : ℚ) : Prop where
  above : binary.significand - binary.lower ≤ position
  below : position ≤ binary.significand + 1 / 2
  inside : binary.significand % 2 = 0 ∨
    binary.significand - binary.lower < position ∧ position < binary.significand + 1 / 2

/-- Whether a number rounds to a double. -/
def Binary.Reads (binary : Binary) (number : ℚ) : Prop := binary.Holds (number / binary.unit)

/-- Significand and exponent of a double: fifty-three bits, fewer only at the least exponent. -/
structure Binary.IsDouble (binary : Binary) : Prop where
  bounded : binary.significand < 2 ^ 53
  least : -1074 ≤ binary.exponent
  normal : -1074 < binary.exponent → 2 ^ 52 ≤ binary.significand
  narrow : binary.narrowBelow = true ↔ binary.significand = 2 ^ 52 ∧ -1074 < binary.exponent

variable {a b : Binary} {number : ℚ}

theorem Binary.lower_le (binary : Binary) : binary.lower ≤ 1 / 2 := by
  unfold lower
  split
  · norm_num
  · exact le_refl _

/-- The interval above the least exponent begins where the one of a smaller exponent ends. -/
theorem Binary.IsDouble.bound (double : b.IsDouble) (normal : -1074 < b.exponent) :
    (2 : ℚ) ^ 52 - 1 / 4 ≤ b.significand - b.lower := by
  have least := double.normal normal
  unfold lower
  split
  next narrow =>
    have exact := (double.narrow.mp narrow).1
    rw [exact]
    push_cast
    exact le_refl _
  next wide =>
    have more : 2 ^ 52 + 1 ≤ b.significand := by
      have differ : b.significand ≠ 2 ^ 52 := fun same => wide (double.narrow.mpr ⟨same, normal⟩)
      omega
    have cast : ((2 ^ 52 + 1 : Nat) : ℚ) ≤ b.significand := by exact_mod_cast more
    push_cast at cast
    linarith

/-- No number rounds to doubles of different exponents. -/
theorem Binary.Reads.exponent_le (first : a.Reads number) (second : b.Reads number)
    (firstDouble : a.IsDouble) (secondDouble : b.IsDouble) : b.exponent ≤ a.exponent := by
  by_contra lower
  obtain ⟨gap, exponent⟩ : ∃ gap : Nat, b.exponent = a.exponent + (gap + 1 : Nat) :=
    ⟨(b.exponent - a.exponent - 1).toNat, by omega⟩
  have unit : b.unit = a.unit * 2 ^ (gap + 1) := by
    rw [unit, unit, exponent, zpow_add₀ (by norm_num), zpow_natCast]
  have position : number / a.unit = number / b.unit * 2 ^ (gap + 1) := by
    have positive := a.unit_pos
    rw [unit]
    field_simp
  have factor : (2 : ℚ) ≤ 2 ^ (gap + 1) := by
    have one : (1 : ℚ) ≤ 2 ^ gap := one_le_pow₀ (by norm_num)
    rw [pow_succ]
    linarith
  have far : (2 : ℚ) ^ 52 - 1 / 4 ≤ number / b.unit :=
    (secondDouble.bound (by have := firstDouble.least; omega)).trans second.above
  have beyond : (2 : ℚ) ^ 53 - 1 / 2 ≤ number / a.unit := by
    rw [position]
    calc (2 : ℚ) ^ 53 - 1 / 2 = (2 ^ 52 - 1 / 4) * 2 := by norm_num
      _ ≤ (number / b.unit) * 2 ^ (gap + 1) := by
        apply mul_le_mul far factor (by norm_num)
        exact le_trans (by norm_num) far
  have bounded := firstDouble.bounded
  -- The greatest significand is odd, so its interval does not contain its end.
  rcases first.inside with even | strict
  · have less : a.significand + 2 ≤ 2 ^ 53 := by omega
    have cast : ((a.significand + 2 : Nat) : ℚ) ≤ (2 ^ 53 : Nat) := by exact_mod_cast less
    have end_le := first.below
    push_cast at cast
    linarith
  · have less : a.significand + 1 ≤ 2 ^ 53 := by omega
    have cast : ((a.significand + 1 : Nat) : ℚ) ≤ (2 ^ 53 : Nat) := by exact_mod_cast less
    have end_lt := strict.2
    push_cast at cast
    linarith

/-- No number rounds to doubles of different significands. -/
theorem Binary.Reads.significand_le (first : a.Reads number) (second : b.Reads number)
    (same : a.exponent = b.exponent) : b.significand ≤ a.significand := by
  by_contra lower
  have unit : a.unit = b.unit := by rw [unit, unit, same]
  have begins := second.above
  have ends := first.below
  have half := b.lower_le
  rw [unit] at ends
  -- Intervals side by side share at most one point, which belongs to the even significand.
  by_cases next : b.significand = a.significand + 1
  · have cast : (b.significand : ℚ) = a.significand + 1 := by exact_mod_cast next
    rcases first.inside with even | strict
    · rcases second.inside with even' | strict'
      · omega
      · linarith [strict'.1]
    · have below := strict.2
      rw [unit] at below
      linarith
  · have cast : ((a.significand + 2 : Nat) : ℚ) ≤ b.significand := by
      exact_mod_cast (by omega : a.significand + 2 ≤ b.significand)
    push_cast at cast
    linarith

/-- A number rounds to one double only. -/
theorem Binary.Reads.unique (first : a.Reads number) (second : b.Reads number)
    (firstDouble : a.IsDouble) (secondDouble : b.IsDouble) : a = b := by
  have exponent : a.exponent = b.exponent :=
    le_antisymm (second.exponent_le first secondDouble firstDouble)
      (first.exponent_le second firstDouble secondDouble)
  have significand : a.significand = b.significand :=
    le_antisymm (second.significand_le first exponent.symm) (first.significand_le second exponent)
  have narrow : a.narrowBelow = b.narrowBelow := by
    rw [Bool.eq_iff_iff, firstDouble.narrow, secondDouble.narrow, exponent, significand]
  cases a
  cases b
  simp_all

/-! ## Bits -/

theorem fraction_eq (bits : UInt64) :
    (bits &&& 0xFFFFFFFFFFFFF).toNat = bits.toNat % 2 ^ 52 := by
  rw [UInt64.toNat_and]
  exact Nat.and_two_pow_sub_one_eq_mod _ 52

theorem biased_eq (bits : UInt64) :
    ((bits >>> 52) &&& 0x7FF).toNat = bits.toNat / 2 ^ 52 % 2 ^ 11 := by
  rw [UInt64.toNat_and, UInt64.toNat_shiftRight]
  refine (Nat.and_two_pow_sub_one_eq_mod _ 11).trans ?_
  rw [Nat.shiftRight_eq_div_pow]
  rfl

theorem sign_eq (bits : UInt64) : (bits >>> 63).toNat = bits.toNat / 2 ^ 63 := by
  rw [UInt64.toNat_shiftRight, Nat.shiftRight_eq_div_pow]
  rfl

theorem Binary.ofBits_isDouble (bits : UInt64) : (Binary.ofBits bits).IsDouble := by
  unfold ofBits
  rw [fraction_eq, biased_eq]
  extract_lets fraction biased
  have small : fraction < 2 ^ 52 := Nat.mod_lt _ (by decide)
  split
  next zero =>
    refine ⟨?_, le_refl _, fun normal => absurd normal (lt_irrefl _), by simp⟩
    exact small.trans (by decide)
  next nonzero =>
    refine ⟨?_, ?_, fun _ => ?_, ?_⟩ <;> simp <;> omega

/-- Sign, significand and exponent determine the bits. -/
theorem Binary.ofBits_injective {left right : UInt64} (sign : left >>> 63 = right >>> 63)
    (same : Binary.ofBits left = Binary.ofBits right) : left = right := by
  have signs : left.toNat / 2 ^ 63 = right.toNat / 2 ^ 63 := by
    rw [← sign_eq, ← sign_eq, sign]
  have fields : left.toNat % 2 ^ 52 = right.toNat % 2 ^ 52 ∧
      left.toNat / 2 ^ 52 % 2 ^ 11 = right.toNat / 2 ^ 52 % 2 ^ 11 := by
    unfold ofBits at same
    rw [fraction_eq, fraction_eq, biased_eq, biased_eq] at same
    have smallLeft := Nat.mod_lt left.toNat (by decide : 2 ^ 52 > 0)
    have smallRight := Nat.mod_lt right.toNat (by decide : 2 ^ 52 > 0)
    dsimp only at same
    split at same <;> split at same <;> simp only [Binary.mk.injEq] at same <;> omega
  apply UInt64.toNat_inj.mp
  omega

/-! ## Candidates -/

theorem power_split (base : Nat) (positive : 0 < base) (exponent : Int) {parts : Nat × Nat}
    (split : parts = if exponent ≥ 0 then (base ^ exponent.toNat, 1)
      else (1, base ^ (-exponent).toNat)) :
    0 < parts.1 ∧ 0 < parts.2 ∧ (parts.1 : ℚ) = base ^ exponent * parts.2 := by
  subst split
  split
  next nonnegative =>
    obtain ⟨n, rfl⟩ := Int.eq_ofNat_of_zero_le nonnegative
    simp [positive]
  next negative =>
    obtain ⟨n, rfl⟩ : ∃ n : Nat, exponent = -(n : Int) := ⟨(-exponent).toNat, by omega⟩
    have nonzero : (base : ℚ) ^ n ≠ 0 := pow_ne_zero _ (by exact_mod_cast positive.ne')
    simp only [neg_neg, Int.toNat_natCast, zpow_neg, zpow_natCast, Nat.cast_one, Nat.cast_pow]
    exact ⟨Nat.one_pos, pow_pos positive n, (inv_mul_cancel₀ nonzero).symm⟩

theorem twoPower_spec (exponent : Int) :
    0 < (twoPower exponent).1 ∧ 0 < (twoPower exponent).2 ∧
      ((twoPower exponent).1 : ℚ) = 2 ^ exponent * (twoPower exponent).2 :=
  power_split 2 (by decide) exponent rfl

theorem tenPower_spec (exponent : Int) :
    0 < (tenPower exponent).1 ∧ 0 < (tenPower exponent).2 ∧
      ((tenPower exponent).1 : ℚ) = 10 ^ exponent * (tenPower exponent).2 :=
  power_split 10 (by decide) exponent rfl

section Scaled

variable {length : ℚ} (positive : 0 < length) {first second third : Nat} {x y z : ℚ}
  (isFirst : (first : ℚ) = length * x) (isSecond : (second : ℚ) = length * y)
  (isThird : (third : ℚ) = length * z)

include positive isFirst isSecond isThird

/-- Whole numbers compare as the lengths do that they are on one scale. -/
theorem le_add_iff_of_scaled : first ≤ second + third ↔ x ≤ y + z := by
  rw [← Nat.cast_le (α := ℚ), Nat.cast_add, isFirst, isSecond, isThird, ← mul_add,
    mul_le_mul_iff_of_pos_left positive]

theorem lt_add_iff_of_scaled : first < second + third ↔ x < y + z := by
  rw [← Nat.cast_lt (α := ℚ), Nat.cast_add, isFirst, isSecond, isThird, ← mul_add,
    mul_lt_mul_iff_of_pos_left positive]

end Scaled

/-- Whether a point lies between two ends, told from its distance to the centre. -/
theorem inside_iff (point centre : Nat) {above below : Nat} (even : Bool) (hasAbove : 0 < above)
    (hasBelow : 0 < below) :
    (if point ≥ centre then decide (point - centre < above) || (even && point - centre == above)
      else decide (centre - point < below) || (even && centre - point == below)) = true ↔
    centre ≤ point + below ∧ point ≤ centre + above ∧
      (even = true ∨ centre < point + below ∧ point < centre + above) := by
  split <;> simp <;> cases even <;> simp <;> omega

/-- A candidate is tested in whole numbers. -/
theorem roundsTo_isSome (value : Binary) (candidate : Scientific) :
    (roundsTo value candidate).isSome = true ↔ value.Reads candidate.value := by
  obtain ⟨twoNum_pos, twoDen_pos, two⟩ := twoPower_spec value.exponent
  obtain ⟨-, tenDen_pos, ten⟩ := tenPower_spec candidate.exponent
  have unit := value.unit_pos
  unfold roundsTo
  generalize twoPower value.exponent = twos at *
  generalize tenPower candidate.exponent = tens at *
  obtain ⟨twoNum, twoDen⟩ := twos
  obtain ⟨tenNum, tenDen⟩ := tens
  dsimp only at *
  -- All lengths are multiples of one positive number, the length of a unit.
  obtain ⟨length, length_pos, length_eq⟩ :
      ∃ length : ℚ, 0 < length ∧ length = 4 * twoNum * tenDen := ⟨_, by positivity, rfl⟩
  have point : ((4 * candidate.digits * tenNum * twoDen : Nat) : ℚ) =
      length * (candidate.value / value.unit) := by
    rw [length_eq, Scientific.value, Binary.unit, two]
    push_cast
    rw [ten]
    have nonzero : (2 : ℚ) ^ value.exponent ≠ 0 := unit.ne'
    field_simp
  have centre : ((4 * value.significand * twoNum * tenDen : Nat) : ℚ) =
      length * value.significand := by
    rw [length_eq]
    push_cast
    ring
  have above : ((2 * twoNum * tenDen : Nat) : ℚ) = length * (1 / 2) := by
    rw [length_eq]
    push_cast
    ring
  have below : (((if value.narrowBelow then twoNum * tenDen else 2 * twoNum * tenDen) : Nat) : ℚ) =
      length * value.lower := by
    rw [length_eq, Binary.lower]
    split
    · push_cast
      ring
    · push_cast
      ring
  have above_pos : 0 < 2 * twoNum * tenDen := by positivity
  have below_pos : 0 < if value.narrowBelow then twoNum * tenDen else 2 * twoNum * tenDen := by
    split <;> positivity
  have inside := inside_iff (4 * candidate.digits * tenNum * twoDen)
    (4 * value.significand * twoNum * tenDen) (decide (value.significand % 2 = 0)) above_pos
    below_pos
  generalize 4 * candidate.digits * tenNum * twoDen = point' at *
  generalize 4 * value.significand * twoNum * tenDen = centre' at *
  generalize 2 * twoNum * tenDen = above' at *
  generalize (if value.narrowBelow then twoNum * tenDen else above') = below' at *
  rw [le_add_iff_of_scaled length_pos centre point below,
    le_add_iff_of_scaled length_pos point centre above,
    lt_add_iff_of_scaled length_pos centre point below,
    lt_add_iff_of_scaled length_pos point centre above,
    ← sub_le_iff_le_add, ← sub_lt_iff_lt_add, decide_eq_true_iff] at inside
  rw [apply_ite Option.isSome, Option.isSome_some, Option.isSome_none]
  have reads : value.Reads candidate.value ↔ _ := (Binary.holds_iff _ _).trans inside.symm
  rw [reads]
  simp

/-- The neighbours on a decimal grid lie around the double. -/
theorem neighbours_spec (value : Binary) (exponent : Int) :
    ∃ below : Nat, neighbours value exponent = (⟨below, exponent⟩, ⟨below + 1, exponent⟩) ∧
      below * 10 ^ exponent ≤ value.value ∧ value.value < (below + 1) * (10 : ℚ) ^ exponent := by
  obtain ⟨-, twoDen_pos, two⟩ := twoPower_spec value.exponent
  obtain ⟨tenNum_pos, tenDen_pos, ten⟩ := tenPower_spec exponent
  unfold neighbours
  generalize twoPower value.exponent = twos at *
  generalize tenPower exponent = tens at *
  obtain ⟨twoNum, twoDen⟩ := twos
  obtain ⟨tenNum, tenDen⟩ := tens
  dsimp only at *
  have grid : (0 : ℚ) < 10 ^ exponent := zpow_pos (by norm_num) _
  have divisor_pos : 0 < twoDen * tenNum := Nat.mul_pos twoDen_pos tenNum_pos
  have below := Nat.div_mul_le_self (value.significand * twoNum * tenDen) (twoDen * tenNum)
  have above := Nat.lt_div_mul_add (a := value.significand * twoNum * tenDen) divisor_pos
  generalize value.significand * twoNum * tenDen / (twoDen * tenNum) = quotient at *
  -- Dividend and divisor are the double and the grid, scaled by the same two denominators.
  have number : ((value.significand * twoNum * tenDen : Nat) : ℚ) =
      value.value * (twoDen * tenDen) := by
    rw [Binary.value, Binary.unit]
    push_cast
    rw [two]
    ring
  have divisor : ((twoDen * tenNum : Nat) : ℚ) = 10 ^ exponent * (twoDen * tenDen) := by
    push_cast
    rw [ten]
    ring
  have scale : (0 : ℚ) < twoDen * tenDen := by positivity
  refine ⟨quotient, rfl, ?_, ?_⟩
  · have cast : ((quotient * (twoDen * tenNum) : Nat) : ℚ) ≤
        ((value.significand * twoNum * tenDen : Nat) : ℚ) := by exact_mod_cast below
    rw [Nat.cast_mul, number, divisor, ← mul_assoc] at cast
    exact le_of_mul_le_mul_right cast scale
  · have cast : ((value.significand * twoNum * tenDen : Nat) : ℚ) <
        ((quotient * (twoDen * tenNum) + twoDen * tenNum : Nat) : ℚ) := by exact_mod_cast above
    rw [Nat.cast_add, Nat.cast_mul quotient, number, divisor] at cast
    refine lt_of_mul_lt_mul_right (cast.trans_eq ?_) scale.le
    ring

/-- One of the neighbours reads back where the grid is fine enough for seventeen digits. -/
theorem neighbour_reads {value : Binary} (double : value.IsDouble) {exponent : Int}
    (fine : 10 ^ 16 * (10 : ℚ) ^ exponent ≤ value.value) :
    value.Reads (neighbours value exponent).1.value ∨
      value.Reads (neighbours value exponent).2.value := by
  obtain ⟨below, points, lower, upper⟩ := neighbours_spec value exponent
  rw [points]
  have unit := value.unit_pos
  have bounded : (value.significand : ℚ) < 2 ^ 53 := by exact_mod_cast double.bounded
  -- In units: the width of the grid and the place of the lower point.
  obtain ⟨width, width_eq⟩ : ∃ width, width = (10 : ℚ) ^ exponent / value.unit := ⟨_, rfl⟩
  have fine' : 10 ^ 16 * width ≤ value.significand := by
    rw [width_eq, ← mul_div_assoc, div_le_iff₀ unit]
    exact fine
  have lower' : below * width ≤ value.significand := by
    rw [width_eq, ← mul_div_assoc, div_le_iff₀ unit]
    exact lower
  have upper' : value.significand < (below + 1) * width := by
    rw [width_eq, ← mul_div_assoc, lt_div_iff₀ unit]
    exact upper
  have first : (Scientific.mk below exponent).value / value.unit = below * width := by
    rw [width_eq, ← mul_div_assoc, Scientific.value]
  have second : (Scientific.mk (below + 1) exponent).value / value.unit = (below + 1) * width := by
    rw [width_eq, ← mul_div_assoc, Scientific.value]
    push_cast
    rfl
  have lower_pos : 0 < value.lower := by
    unfold Binary.lower
    split <;> norm_num
  have inSecond (near : (below + 1) * width < value.significand + 1 / 2) :
      value.Reads (Scientific.mk (below + 1) exponent).value := by
    unfold Binary.Reads
    rw [second]
    exact ⟨by linarith, near.le, .inr ⟨by linarith, near⟩⟩
  have inFirst (near : value.significand - value.lower < below * width) :
      value.Reads (Scientific.mk below exponent).value := by
    unfold Binary.Reads
    rw [first]
    exact ⟨near.le, by linarith, .inr ⟨near, by linarith⟩⟩
  -- The grid is finer than a unit, and at a power of two finer than half a unit.
  by_cases narrow : value.narrowBelow = true
  · have exact : (value.significand : ℚ) = 2 ^ 52 := by exact_mod_cast (double.narrow.mp narrow).1
    exact .inr (inSecond (by linarith))
  · have half : value.lower = 1 / 2 := by rw [Binary.lower, if_neg narrow]
    by_cases near : value.significand - value.lower < below * width
    · exact .inl (inFirst near)
    · exact .inr (inSecond (by linarith))

/-! ## The search -/

theorem bestNeighbour_reads {value : Binary} {exponent : Int} {number : Scientific}
    (found : bestNeighbour value exponent = some number) : value.Reads number.value := by
  have first := roundsTo_isSome value (neighbours value exponent).1
  have second := roundsTo_isSome value (neighbours value exponent).2
  unfold bestNeighbour at found
  generalize neighbours value exponent = points at *
  obtain ⟨below, above⟩ := points
  dsimp only at *
  split at found
  next _ _ near far =>
    rw [near] at first
    rw [far] at second
    split_ifs at found <;> cases found <;> simp_all
  next _ _ near far =>
    cases found
    exact first.mp (by rw [near]; rfl)
  next _ _ near far =>
    cases found
    exact second.mp (by rw [far]; rfl)
  next => cases found

theorem bestNeighbour_isSome {value : Binary} {exponent : Int}
    (reads : value.Reads (neighbours value exponent).1.value ∨
      value.Reads (neighbours value exponent).2.value) :
    (bestNeighbour value exponent).isSome = true := by
  rw [← roundsTo_isSome, ← roundsTo_isSome] at reads
  unfold bestNeighbour
  generalize neighbours value exponent = points at *
  obtain ⟨below, above⟩ := points
  dsimp only at *
  split
  · split_ifs <;> rfl
  · rfl
  · rfl
  next near far => simp [near, far] at reads

theorem shortestFrom_reads {value : Binary} {leading : Int}
    (enough : (bestNeighbour value (leading - 16)).isSome = true) (fuel : Nat) :
    ∀ count, count + fuel = 17 →
      value.Reads (shortestFrom value leading (fuel + 1) count).value := by
  induction fuel with
  | zero =>
    intro count last
    unfold shortestFrom
    have exponent : leading - (count : Int) + 1 = leading - 16 := by omega
    rw [exponent]
    obtain ⟨number, found⟩ := Option.isSome_iff_exists.mp enough
    rw [found]
    exact bestNeighbour_reads found
  | succ fuel ih =>
    intro count early
    unfold shortestFrom
    split
    next number found => exact bestNeighbour_reads found
    next => exact ih (count + 1) (by omega)

theorem Scientific.stripZeros_value (fuel : Nat) (number : Scientific) :
    (stripZeros fuel number).value = number.value := by
  induction fuel generalizing number with
  | zero => rfl
  | succ fuel ih =>
    unfold stripZeros
    split
    next zeros =>
      have multiple : number.digits % 10 = 0 := by simp_all
      have digits : (number.digits : ℚ) = (number.digits / 10 : Nat) * 10 := by
        exact_mod_cast (Nat.div_mul_cancel (Nat.dvd_of_mod_eq_zero multiple)).symm
      rw [ih, value, value, digits, zpow_add₀ (by norm_num), zpow_one]
      ring
    next => rfl

theorem pow_digitCount {n : Nat} (positive : 0 < n) :
    ∃ fewer, digitCount n = fewer + 1 ∧ 10 ^ fewer ≤ n ∧ n < 10 ^ (fewer + 1) := by
  obtain ⟨fewer, count⟩ : ∃ fewer, digitCount n = fewer + 1 :=
    Nat.exists_eq_succ_of_ne_zero Nat.length_toDigits_pos.ne'
  refine ⟨fewer, count, ?_, (Nat.length_toDigits_le_iff (by decide) (by omega)).mp count.le⟩
  cases fewer with
  | zero => exact positive
  | succ fewest =>
    by_contra less
    have shorter := (Nat.length_toDigits_le_iff (by decide) (by omega)).mpr (not_le.mp less)
    unfold digitCount at count
    omega

/-- A power of ten that makes the numerator reach the denominator is small enough. -/
theorem zpow_neg_le_div {num den power : Nat} (positive : 0 < den)
    (reached : den ≤ num * 10 ^ power) : (10 : ℚ) ^ (-(power : Int)) ≤ num / den := by
  have den_pos : (0 : ℚ) < den := by exact_mod_cast positive
  have cast : ((den : Nat) : ℚ) ≤ (num * 10 ^ power : Nat) := by exact_mod_cast reached
  push_cast at cast
  rw [zpow_neg, zpow_natCast, inv_eq_one_div, div_le_div_iff₀ (by positivity) den_pos, one_mul]
  exact cast

theorem leadingExponent_le {value : Binary} (positive : 0 < value.significand) :
    (10 : ℚ) ^ leadingExponent value ≤ value.value := by
  obtain ⟨twoNum_pos, twoDen_pos, two⟩ := twoPower_spec value.exponent
  unfold leadingExponent Binary.value
  generalize twoPower value.exponent = twos at *
  obtain ⟨twoNum, twoDen⟩ := twos
  dsimp only at *
  have den_pos : (0 : ℚ) < twoDen := by exact_mod_cast twoDen_pos
  have value_eq : value.significand * value.unit =
      ((value.significand * twoNum : Nat) : ℚ) / twoDen := by
    rw [eq_div_iff den_pos.ne', Binary.unit]
    push_cast
    rw [two]
    ring
  have num_pos : 0 < value.significand * twoNum := Nat.mul_pos positive twoNum_pos
  rw [value_eq]
  generalize value.significand * twoNum = num at *
  split
  next large =>
    obtain ⟨fewer, count, least, -⟩ := pow_digitCount (Nat.div_pos large twoDen_pos)
    rw [count, Nat.cast_add, Nat.cast_one, add_sub_cancel_right, zpow_natCast]
    have cast : ((10 ^ fewer * twoDen : Nat) : ℚ) ≤ num := by
      exact_mod_cast (Nat.le_div_iff_mul_le twoDen_pos).mp least
    push_cast at cast
    exact (le_div_iff₀ den_pos).mpr cast
  next small =>
    obtain ⟨fewer, count, -, most⟩ := pow_digitCount (Nat.div_pos (by omega : num ≤ twoDen) num_pos)
    rw [count]
    split
    next one =>
      have power : -(((fewer + 1 : Nat) : Int) - 1) = -(fewer : Int) := by omega
      rw [power]
      exact zpow_neg_le_div twoDen_pos one
    next =>
      refine zpow_neg_le_div twoDen_pos (Nat.le_of_lt ?_)
      rw [Nat.mul_comm]
      exact (Nat.div_lt_iff_lt_mul num_pos).mp most

/-- The shortest decimal of a double reads back as the double. -/
theorem shortest_reads (value : Float) :
    (Binary.ofBits value.toBits).Reads (shortest value).value := by
  have double := Binary.ofBits_isDouble value.toBits
  unfold shortest
  generalize Binary.ofBits value.toBits = binary at *
  dsimp only
  split
  next zero =>
    -- Zero is no power of two, so its interval is as wide below as above.
    have wide : binary.lower = 1 / 2 := by
      rw [Binary.lower, if_neg]
      intro narrow
      have exact := (double.narrow.mp narrow).1
      omega
    have number : (Scientific.mk 0 0).value / binary.unit = 0 := by simp [Scientific.value]
    unfold Binary.Reads
    rw [number]
    refine ⟨?_, ?_, .inl (by rw [zero])⟩
    · rw [zero, wide]
      norm_num
    · rw [zero]
      norm_num
  next nonzero =>
    -- The search ends at seventeen digits at the latest.
    rw [Scientific.stripZeros_value]
    refine shortestFrom_reads (bestNeighbour_isSome (neighbour_reads double ?_)) 16 1 rfl
    have grid : (10 : ℚ) ^ 16 * 10 ^ (leadingExponent binary - 16) =
        10 ^ leadingExponent binary := by
      rw [← zpow_natCast, ← zpow_add₀ (by norm_num)]
      congr 1
      push_cast
      ring
    rw [grid]
    exact leadingExponent_le (by omega)

/-! ## Texts of doubles -/

/-- The sign of a double before its magnitude. -/
def signText (value : Float) : String := if value.toBits >>> 63 = 1 then "-" else ""

theorem render?_of_isFinite {value : Float} (finite : value.isFinite = true) :
    render? value = some (signText value ++ (shortest value).layout) := if_pos finite

theorem ne_minus_layout {text : String} {number : Scientific} :
    number.layout ≠ "-" ++ text := by
  intro same
  obtain ⟨first, rest, letters, digit⟩ := (layout_isFractional number).digit
  rw [same, String.toList_append] at letters
  obtain ⟨rfl, -⟩ := List.cons.inj letters
  cases digit

/-- A magnitude begins with a digit, so the sign is read from the first character. -/
theorem signText_injective {left right : Float} {first second : Scientific}
    (same : signText left ++ first.layout = signText right ++ second.layout) :
    left.toBits >>> 63 = right.toBits >>> 63 ∧ first.layout = second.layout := by
  have bit (value : Float) : value.toBits >>> 63 = 1 ∨ value.toBits >>> 63 = 0 := by
    have small := sign_eq value.toBits
    have bound := value.toBits.toNat_lt
    rw [← UInt64.toNat_inj, ← UInt64.toNat_inj, small]
    simp
    omega
  unfold signText at same
  rcases bit left with leftBit | leftBit <;> rcases bit right with rightBit | rightBit <;>
    rw [leftBit, rightBit] at same ⊢
  · exact ⟨rfl, (String.append_right_inj _).mp same⟩
  · exact absurd same.symm (by simpa using ne_minus_layout)
  · exact absurd same (by simpa using ne_minus_layout)
  · exact ⟨rfl, by simpa using same⟩

/-- Finite doubles of one text are equal. -/
theorem render?_injective {left right : Float} (leftFinite : left.isFinite = true)
    (rightFinite : right.isFinite = true) (same : render? left = render? right) :
    left = right := by
  rw [render?_of_isFinite leftFinite, render?_of_isFinite rightFinite, Option.some.injEq] at same
  obtain ⟨sign, layout⟩ := signText_injective same
  have number := value_eq_of_layout_eq layout
  have reads := shortest_reads left
  rw [number] at reads
  exact Float.toBits_inj.mp (Binary.ofBits_injective sign (reads.unique (shortest_reads right)
    (Binary.ofBits_isDouble _) (Binary.ofBits_isDouble _)))

end EntityGraph.Decimal
