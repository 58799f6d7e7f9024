import Mathlib.Algebra.Order.Field.Power
import Mathlib.Algebra.Order.Floor.Ring
import Mathlib.Data.Int.Log
import Mathlib.Data.Rat.Floor
import Mathlib.Tactic.FieldSimp
import Mathlib.Tactic.Linarith
import Mathlib.Tactic.NormNum
import Mathlib.Tactic.Positivity
import Mathlib.Tactic.Ring

/-! Arithmetic that rounds: numbers with so many digits after the point, whose quotients get their number of digits from the
operands, and binary floating point numbers. What holds however quotients are rounded is stated about any arithmetic. -/
namespace Relational

section Rounding

/-- Rounding to the nearest integer, halves to the even neighbour. -/
def roundHalfEven (q : ℚ) : ℤ :=
  let low := ⌊q⌋
  let part := q - low
  if part < 1 / 2 then low
  else if 1 / 2 < part then low + 1
  else if low % 2 = 0 then low else low + 1

theorem roundHalfEven_nonneg {q : ℚ} (nonneg : 0 ≤ q) : 0 ≤ roundHalfEven q := by
  have low : 0 ≤ ⌊q⌋ := Int.floor_nonneg.mpr nonneg
  unfold roundHalfEven
  dsimp only
  split_ifs <;> omega

theorem roundHalfEven_near (q : ℚ) : |roundHalfEven q - q| ≤ 1 / 2 := by
  have floor := Int.floor_le q
  have next := Int.lt_floor_add_one q
  rw [abs_le]
  unfold roundHalfEven
  dsimp only
  split_ifs <;> push_cast <;> constructor <;> linarith

theorem roundHalfEven_le (q : ℚ) : roundHalfEven q ≤ q + 1 / 2 := by
  have near := (abs_le.mp (roundHalfEven_near q)).2
  linarith

/-- Rounding to the nearest integer, halves away from zero. -/
def roundAway (q : ℚ) : ℤ := if 0 ≤ q then ⌊q + 1 / 2⌋ else ⌈q - 1 / 2⌉

theorem roundAway_mono {a b : ℚ} (le : a ≤ b) : roundAway a ≤ roundAway b := by
  unfold roundAway
  split_ifs with a0 b0 b0
  · exact Int.floor_le_floor (by linarith)
  · exact absurd (a0.trans le) b0
  · have down : ⌈a - 1 / 2⌉ ≤ 0 := Int.ceil_le.mpr (by push_cast; linarith)
    have up : 0 ≤ ⌊b + 1 / 2⌋ := Int.floor_nonneg.mpr (by linarith)
    exact down.trans up
  · exact Int.ceil_le_ceil (by linarith)

theorem roundAway_int (n : ℤ) : roundAway n = n := by
  unfold roundAway
  split_ifs
  · rw [Int.floor_intCast_add]
    norm_num
  · rw [sub_eq_add_neg, Int.ceil_intCast_add]
    norm_num

theorem roundAway_le (q : ℚ) : (roundAway q : ℚ) ≤ q + 1 / 2 := by
  unfold roundAway
  split_ifs
  · exact Int.floor_le _
  · have := Int.ceil_lt_add_one (q - 1 / 2)
    linarith

/-- The nearest number with so many digits after the point. -/
def toDecimal (scale : ℕ) (q : ℚ) : ℚ := roundAway (q * 10 ^ scale) / 10 ^ scale

/-- The number has no more than so many digits after the point. -/
def HasDigits (scale : ℕ) (q : ℚ) : Prop := ∃ n : ℤ, q = n / 10 ^ scale

namespace HasDigits

variable {scale finer : ℕ} {x y : ℚ}

theorem toDecimal (scale : ℕ) (q : ℚ) : HasDigits scale (toDecimal scale q) := ⟨_, rfl⟩

theorem mono (le : scale ≤ finer) (digits : HasDigits scale x) : HasDigits finer x := by
  obtain ⟨n, rfl⟩ := digits
  refine ⟨n * 10 ^ (finer - scale), ?_⟩
  rw [← Nat.add_sub_cancel' le, pow_add, Nat.add_sub_cancel_left]
  push_cast
  field_simp

theorem add (hx : HasDigits scale x) (hy : HasDigits scale y) : HasDigits scale (x + y) := by
  obtain ⟨n, rfl⟩ := hx
  obtain ⟨m, rfl⟩ := hy
  refine ⟨n + m, ?_⟩
  push_cast
  ring

theorem mul_int (digits : HasDigits scale x) (k : ℤ) : HasDigits scale (x * k) := by
  obtain ⟨n, rfl⟩ := digits
  refine ⟨n * k, ?_⟩
  push_cast
  ring

end HasDigits

theorem toDecimal_le (scale : ℕ) (q : ℚ) : toDecimal scale q ≤ q + 1 / 2 / 10 ^ scale := by
  have unit : (0 : ℚ) < 10 ^ scale := by positivity
  have near := roundAway_le (q * 10 ^ scale)
  rw [toDecimal, div_le_iff₀ unit, add_mul, div_mul_cancel₀ _ unit.ne']
  exact near

/-- The nearest floating point number of 53 binary digits, halves to the even neighbour. -/
def toDouble (q : ℚ) : ℚ :=
  let unit : ℚ := 2 ^ (Int.log 2 |q| - 52)
  roundHalfEven (q / unit) * unit

/-- A floating point number is off by no more than one part in 2 ^ 53. -/
theorem toDouble_near (q : ℚ) : |toDouble q - q| ≤ |q| / 2 ^ 53 := by
  rcases eq_or_ne q 0 with rfl | nonzero
  · simp [toDouble, roundHalfEven]
  · have unit : (0 : ℚ) < 2 ^ (Int.log 2 |q| - 52) := by positivity
    have low : (2 : ℚ) ^ Int.log 2 |q| ≤ |q| := by
      exact_mod_cast Int.zpow_log_le_self (b := 2) (by norm_num) (abs_pos.mpr nonzero)
    have near := roundHalfEven_near (q / 2 ^ (Int.log 2 |q| - 52))
    have off : toDouble q - q =
        (roundHalfEven (q / 2 ^ (Int.log 2 |q| - 52)) - q / 2 ^ (Int.log 2 |q| - 52)) * 2 ^ (Int.log 2 |q| - 52) := by
      rw [toDouble, sub_mul, div_mul_cancel₀ _ unit.ne']
    have half : (2 : ℚ) ^ (Int.log 2 |q| - 52) = 2 ^ Int.log 2 |q| / 2 ^ 52 := by
      rw [zpow_sub₀ (by norm_num)]
      rfl
    rw [off, abs_mul, abs_of_pos unit]
    calc |roundHalfEven (q / 2 ^ (Int.log 2 |q| - 52)) - q / 2 ^ (Int.log 2 |q| - 52)| * 2 ^ (Int.log 2 |q| - 52)
        ≤ 1 / 2 * 2 ^ (Int.log 2 |q| - 52) := mul_le_mul_of_nonneg_right near unit.le
      _ = 2 ^ Int.log 2 |q| / 2 ^ 53 := by rw [half]; ring
      _ ≤ |q| / 2 ^ 53 := div_le_div_of_nonneg_right low (by positivity)

theorem toDouble_nonneg {q : ℚ} (nonneg : 0 ≤ q) : 0 ≤ toDouble q := by
  have whole : (0 : ℚ) ≤ roundHalfEven (q / 2 ^ (Int.log 2 |q| - 52)) := by
    exact_mod_cast roundHalfEven_nonneg (by positivity)
  exact mul_nonneg whole (by positivity)

end Rounding

section Quotients

/-- The number of a digit in base 10000, counted from the point: that of the first digit of a number. -/
def weight (q : ℚ) : ℤ := Int.log 10000 |q|

/-- The first digit in base 10000. -/
def firstDigit (q : ℚ) : ℤ := ⌊|q| / 10000 ^ weight q⌋

/-- A lower estimate of the weight of a quotient. -/
def quotientWeight (x y : ℚ) : ℤ := weight x - weight y - if firstDigit x ≤ firstDigit y then 1 else 0

/-- The digits after the point that a quotient gets: sixteen that say something, and no fewer than the operands have. -/
def quotientScale (scale : ℕ) (x y : ℚ) : ℕ := max (16 - 4 * quotientWeight x y).toNat scale

section Digits

variable {scale : ℕ} {x y : ℚ}

/-- A number below 10000 has one digit before the point. -/
theorem weight_one (one : 1 ≤ x) (small : x < 10000) : weight x = 0 := by
  have positive : 0 < x := one_pos.trans_le one
  rw [weight, abs_of_pos positive]
  refine le_antisymm (Int.lt_add_one_iff.mp ((Int.lt_zpow_iff_log_lt (by norm_num) positive).mp ?_)) ?_
  · simpa using small
  · exact (Int.zpow_le_iff_le_log (by norm_num) positive).mp (by simpa using one)

/-- A quotient of a number below 10000 and a number from one on has sixteen digits after the point. -/
theorem sixteen_le_quotientScale (one : 1 ≤ x) (small : x < 10000) (from' : 1 ≤ y) : 16 ≤ quotientScale scale x y := by
  have whole : 0 ≤ weight y := by
    have positive : 0 < y := one_pos.trans_le from'
    rw [weight, abs_of_pos positive]
    exact (Int.zpow_le_iff_le_log (by norm_num) positive).mp (by simpa using from')
  have digits : quotientWeight x y ≤ 0 := by
    rw [quotientWeight, weight_one one small]
    split_ifs <;> omega
  exact (show 16 ≤ (16 - 4 * quotientWeight x y).toNat by omega).trans (le_max_left _ _)

/-- A quotient of two numbers below 10000 has sixteen digits after the point when the greater one is divided. -/
theorem quotientScale_sixteen (from' : 1 ≤ y) (less : ⌊y⌋ < ⌊x⌋) (small : x < 10000) (coarse : scale ≤ 16) :
    quotientScale scale x y = 16 := by
  have apart : (⌊y⌋ : ℚ) + 1 ≤ ⌊x⌋ := by exact_mod_cast less
  have below : y < x := (Int.lt_floor_add_one y).trans_le (apart.trans (Int.floor_le x))
  have hx := weight_one (from'.trans below.le) small
  have hy := weight_one from' (below.trans small)
  have first : ¬firstDigit x ≤ firstDigit y := by
    rw [firstDigit, firstDigit, hx, hy, abs_of_pos (by linarith), abs_of_pos (by linarith)]
    simpa using less
  rw [quotientScale, quotientWeight, hx, hy, if_neg first]
  simpa using coarse

end Digits

/-- How quotients are rounded to a number of digits, and seconds to an interval in microseconds. -/
structure Arithmetic where
  round : ℕ → ℚ → ℚ
  interval : ℚ → ℚ
  round_mono : ∀ scale, Monotone (round scale)
  round_decimal : ∀ scale (n : ℤ), round scale (n / 10 ^ scale) = n / 10 ^ scale
  interval_nonneg : ∀ {x}, 0 ≤ x → 0 ≤ interval x
  interval_zero : interval 0 = 0

namespace Arithmetic

variable {a : Arithmetic} {scale : ℕ} {x y : ℚ}

/-- The quotient of two numbers, neither of which has more digits after the point. -/
def divide (a : Arithmetic) (scale : ℕ) (x y : ℚ) : ℚ := a.round (quotientScale scale x y) (x / y)

/-- A number with fewer digits stays as it is. -/
theorem round_coarse (a : Arithmetic) {digits : ℕ} (fine : digits ≤ scale) (n : ℤ) :
    a.round scale (n / 10 ^ digits) = n / 10 ^ digits := by
  obtain ⟨m, padded⟩ := HasDigits.mono fine ⟨n, rfl⟩
  rw [padded]
  exact a.round_decimal scale m

theorem round_int (a : Arithmetic) (scale : ℕ) (n : ℤ) : a.round scale n = n := by
  simpa using a.round_coarse scale.zero_le n

theorem divide_le (positive : 0 < y) {n : ℤ} (few : x ≤ n * y) : a.divide scale x y ≤ n := by
  rw [← a.round_int (quotientScale scale x y) n]
  exact a.round_mono _ ((div_le_iff₀ positive).mpr few)

theorem le_divide (positive : 0 < y) {n : ℤ} (many : n * y ≤ x) : n ≤ a.divide scale x y := by
  rw [← a.round_int (quotientScale scale x y) n]
  exact a.round_mono _ ((le_div_iff₀ positive).mpr many)

/-- A bound with no more digits than the quotient survives the rounding. -/
theorem decimal_le_divide (positive : 0 < y) {digits : ℕ} (fine : digits ≤ quotientScale scale x y) {n : ℤ}
    (many : n / 10 ^ digits * y ≤ x) : n / 10 ^ digits ≤ a.divide scale x y := by
  rw [← a.round_coarse fine n]
  exact a.round_mono _ ((le_div_iff₀ positive).mpr many)

/-- A quotient has enough digits not to vanish. -/
theorem divide_pos (hx : 0 < x) (hy : 0 < y) : 0 < a.divide scale x y := by
  have low : (10000 : ℚ) ^ weight x ≤ x := by
    have := Int.zpow_log_le_self (b := 10000) (by norm_num) (abs_pos.mpr hx.ne')
    rw [abs_of_pos hx] at this
    rw [weight, abs_of_pos hx]
    exact_mod_cast this
  have high : y < (10000 : ℚ) ^ (weight y + 1) := by
    have := Int.lt_zpow_succ_log_self (b := 10000) (by norm_num) y
    rw [weight, abs_of_pos hy]
    exact_mod_cast this
  have digits : (10000 : ℚ) ^ (weight x - weight y - 1) ≤ x / y := by
    rw [le_div_iff₀ hy]
    refine le_trans ?_ low
    calc (10000 : ℚ) ^ (weight x - weight y - 1) * y
        ≤ 10000 ^ (weight x - weight y - 1) * 10000 ^ (weight y + 1) :=
          mul_le_mul_of_nonneg_left high.le (by positivity)
      _ = 10000 ^ weight x := by
          rw [← zpow_add₀ (by norm_num)]
          congr 1
          ring
  have small : (1 : ℚ) / 10 ^ quotientScale scale x y ≤ x / y := by
    refine le_trans ?_ digits
    have base : (10000 : ℚ) ^ (weight x - weight y - 1) = 10 ^ (4 * (weight x - weight y - 1)) := by
      rw [zpow_mul]
      norm_num
    have unit : (1 : ℚ) / 10 ^ quotientScale scale x y = 10 ^ (-(quotientScale scale x y : ℤ)) := by
      rw [zpow_neg, zpow_natCast, one_div]
    rw [base, unit]
    refine zpow_le_zpow_right₀ (by norm_num) ?_
    have enough : (16 - 4 * quotientWeight x y).toNat ≤ quotientScale scale x y := le_max_left _ _
    unfold quotientWeight at enough
    split_ifs at enough <;> omega
  have unit : (0 : ℚ) < 1 / 10 ^ quotientScale scale x y := by positivity
  refine lt_of_lt_of_le unit ?_
  have many : ((1 : ℤ) : ℚ) / 10 ^ quotientScale scale x y * y ≤ x := by
    rw [Int.cast_one]
    exact (le_div_iff₀ hy).mp small
  simpa using a.decimal_le_divide hy le_rfl many

/-- Nothing is rounded. -/
def exact : Arithmetic where
  round _ q := q
  interval x := x * 1000000
  round_mono _ := monotone_id
  round_decimal _ _ := rfl
  interval_nonneg nonneg := mul_nonneg nonneg (by norm_num)
  interval_zero := zero_mul _

@[simp] theorem exact_divide (scale : ℕ) (x y : ℚ) : exact.divide scale x y = x / y := rfl

@[simp] theorem exact_interval (x : ℚ) : exact.interval x = x * 1000000 := rfl

/-- Quotients are decimal numbers; an interval is made of the seconds as a floating point number, and whole microseconds. -/
def numeric : Arithmetic where
  round := toDecimal
  interval x := roundHalfEven (toDouble (toDouble x * 1000000))
  round_mono scale := by
    intro p q le
    have unit : (0 : ℚ) < 10 ^ scale := by positivity
    unfold toDecimal
    rw [div_le_div_iff_of_pos_right unit]
    exact_mod_cast roundAway_mono (mul_le_mul_of_nonneg_right le unit.le)
  round_decimal scale n := by
    have unit : (10 : ℚ) ^ scale ≠ 0 := by positivity
    rw [toDecimal, div_mul_cancel₀ _ unit, roundAway_int]
  interval_nonneg nonneg := by
    have double := toDouble_nonneg (mul_nonneg (toDouble_nonneg nonneg) (by norm_num : (0 : ℚ) ≤ 1000000))
    exact_mod_cast roundHalfEven_nonneg double
  interval_zero := by decide +kernel

/-- An interval is a whole number of microseconds. -/
theorem numeric_interval_whole (x : ℚ) : ∃ n : ℤ, numeric.interval x = n := ⟨_, rfl⟩

/-- For up to a million seconds an interval is off by less than a microsecond. -/
theorem numeric_interval_near (nonneg : 0 ≤ x) (small : x ≤ 1000000) :
    |numeric.interval x - x * 1000000| ≤ 3 / 4 := by
  have first := toDouble_near x
  have second := toDouble_near (toDouble x * 1000000)
  have third := roundHalfEven_near (toDouble (toDouble x * 1000000))
  have double := toDouble_nonneg nonneg
  have far : toDouble x ≤ 1000001 := by
    rw [abs_of_nonneg nonneg, abs_le] at first
    linarith [first.2]
  rw [abs_of_nonneg nonneg, abs_le] at first
  rw [abs_of_nonneg (by positivity : 0 ≤ toDouble x * 1000000), abs_le] at second
  rw [abs_le] at third
  change |(roundHalfEven (toDouble (toDouble x * 1000000)) : ℚ) - x * 1000000| ≤ 3 / 4
  rw [abs_le]
  constructor <;> linarith [first.1, first.2, second.1, second.2, third.1, third.2]

/-- A quotient that is short of a whole number by more than it is rounded by stays short of it. -/
theorem numeric_divide_lt (positive : 0 < y) {digits : ℕ} (fine : digits ≤ quotientScale scale x y) {n : ℤ}
    (short : x + y / 2 / 10 ^ digits < n * y) : numeric.divide scale x y < n := by
  have near := toDecimal_le (quotientScale scale x y) (x / y)
  refine lt_of_le_of_lt near ?_
  have finer : (1 : ℚ) / 2 / 10 ^ quotientScale scale x y ≤ 1 / 2 / 10 ^ digits :=
    div_le_div_of_nonneg_left (by norm_num) (by positivity) (pow_le_pow_right₀ (by norm_num) fine)
  have bound : x / y + 1 / 2 / 10 ^ digits < n := by
    have same : x / y + 1 / 2 / 10 ^ digits = (x + y / 2 / 10 ^ digits) / y := by
      field_simp
    rw [same, div_lt_iff₀ positive]
    exact short
  linarith

/-- A quotient below one has at least twenty digits after the point. -/
theorem quotientScale_small (positive : 0 < x) (less : x < y) : 20 ≤ quotientScale scale x y := by
  have size : weight x ≤ weight y := by
    rw [weight, weight, abs_of_pos positive, abs_of_pos (positive.trans less)]
    exact Int.log_mono_right positive less.le
  have digits : quotientWeight x y ≤ -1 := by
    unfold quotientWeight
    rcases size.lt_or_eq with below | same
    · split_ifs <;> omega
    · have first : firstDigit x ≤ firstDigit y := by
        rw [firstDigit, firstDigit, same, abs_of_pos positive, abs_of_pos (positive.trans less)]
        exact Int.floor_le_floor (div_le_div_of_nonneg_right less.le (by positivity))
      rw [if_pos first]
      omega
  exact (show 20 ≤ (16 - 4 * quotientWeight x y).toNat by omega).trans (le_max_left _ _)

/-- Of two numbers with as many digits after the point, the quotient is rounded up to one only when it is one. -/
theorem one_le_numeric_divide (positive : 0 < y) (small : y < 2 * 10 ^ (20 - scale)) (hx : HasDigits scale x)
    (hy : HasDigits scale y) : 1 ≤ numeric.divide scale x y ↔ y ≤ x := by
  obtain ⟨n, hx⟩ := hx
  obtain ⟨m, hy⟩ := hy
  constructor
  · intro one
    by_contra less
    rw [not_le] at less
    rcases le_or_gt x 0 with none' | some'
    · have zero : numeric.divide scale x y ≤ ((0 : ℤ) : ℚ) := divide_le positive (by simpa using none')
      push_cast at zero
      linarith
    · have enough : 20 ≤ quotientScale scale x y := quotientScale_small some' less
      have fine : scale + (20 - scale) ≤ quotientScale scale x y := by
        have : scale ≤ quotientScale scale x y := le_max_right _ _
        omega
      have unit : (0 : ℚ) < 10 ^ scale := by positivity
      have apart : x + 1 / 10 ^ scale ≤ y := by
        rw [hx, hy, div_lt_div_iff_of_pos_right unit, Int.cast_lt] at less
        rw [hx, hy, ← add_div, div_le_div_iff_of_pos_right unit]
        exact_mod_cast less
      have tiny : y / 2 / 10 ^ (scale + (20 - scale)) < 1 / 10 ^ scale := by
        rw [pow_add, div_div, div_lt_div_iff₀ (by positivity) unit]
        nlinarith
      have short : numeric.divide scale x y < ((1 : ℤ) : ℚ) :=
        numeric_divide_lt positive fine (by push_cast; linarith)
      push_cast at short
      linarith
  · intro le
    have many : ((1 : ℤ) : ℚ) ≤ numeric.divide scale x y := le_divide positive (by simpa using le)
    exact_mod_cast many

end Arithmetic

end Quotients

end Relational
