import Mathlib.Data.Int.Log
import Mathlib.Data.Rat.Floor
import Mathlib.Tactic.FieldSimp
import Mathlib.Tactic.Linarith
import Mathlib.Tactic.Ring

/-!
# Rounding

The nearest number with `p` significant bits, at a tie the one whose last bit is zero: what a binary
floating-point format makes of a number whose exponent is in its range. It is off by at most one part
in `2 ^ p` (`within_roundBits`), and a quotient of a number that was rounded before by at most three
(`within_roundBits_div`). Errors with such a bound add up to one with the sum of the bounds
(`Within.add`).
-/

namespace OipComms.Rounding

universe u

variable {R : Type u} [Field R] [LinearOrder R] [IsStrictOrderedRing R]

section
variable [FloorRing R]

/-- The nearest integer, of two the even one. -/
def roundEven (x : R) : Int :=
  if x - ⌊x⌋ < 1 / 2 then ⌊x⌋
  else if 1 / 2 < x - ⌊x⌋ then ⌊x⌋ + 1
  else if ⌊x⌋ % 2 = 0 then ⌊x⌋
  else ⌊x⌋ + 1

/-- How far apart the numbers with `p` significant bits are, next to a number. -/
def ulp (p : Nat) (x : R) : R := 2 ^ (Int.log 2 |x| + 1 - (p : Int))

/-- The nearest number with `p` significant bits. -/
def roundBits (p : Nat) (x : R) : R := roundEven (x / ulp p x) * ulp p x

/-- One tenth with 53 significant bits. -/
example : roundBits 53 (1 / 10 : Rat) = 3602879701896397 / 36028797018963968 := by decide +kernel

/-- The nearest integer is at most one half away. -/
theorem abs_roundEven_sub_le (x : R) : |(roundEven x : R) - x| ≤ 1 / 2 := by
  have hfloor := Int.floor_le x
  have hnext := Int.lt_floor_add_one x
  rw [abs_le, roundEven]
  split
  · constructor <;> linarith
  split
  · push_cast
    constructor <;> linarith
  split
  · constructor <;> linarith
  · push_cast
    constructor <;> linarith

/-- The distance is positive. -/
theorem ulp_pos (p : Nat) (x : R) : 0 < ulp p x := zpow_pos two_pos _

/-- The distance is at most two parts in `2 ^ p`. -/
theorem ulp_le (p : Nat) {x : R} (hx : x ≠ 0) : ulp p x ≤ 2 * (|x| / 2 ^ p) := by
  have hlog : (2 : R) ^ Int.log 2 |x| ≤ |x| := by
    have hle := Int.zpow_log_le_self (R := R) one_lt_two (abs_pos.mpr hx)
    simpa only [Nat.cast_ofNat] using hle
  calc ulp p x = 2 * (2 ^ Int.log 2 |x| / 2 ^ p) := by
        rw [ulp, zpow_sub₀ two_ne_zero, zpow_add_one₀ two_ne_zero, zpow_natCast]
        ring
    _ ≤ 2 * (|x| / 2 ^ p) := by
        refine mul_le_mul_of_nonneg_left ?_ two_pos.le
        exact div_le_div_of_nonneg_right hlog (pow_pos two_pos p).le

/-- Rounding is off by at most one part in `2 ^ p`. -/
theorem abs_roundBits_sub_le (p : Nat) (x : R) : |roundBits p x - x| ≤ |x| / 2 ^ p := by
  by_cases hx : x = 0
  · rw [hx, roundBits, zero_div, roundEven, Int.floor_zero]
    simp
  have hpos := ulp_pos p x
  calc |roundBits p x - x| = |(roundEven (x / ulp p x) - x / ulp p x) * ulp p x| := by
        rw [sub_mul, div_mul_cancel₀ x hpos.ne', roundBits]
    _ = |(roundEven (x / ulp p x) : R) - x / ulp p x| * ulp p x := by
        rw [abs_mul, abs_of_pos hpos]
    _ ≤ 1 / 2 * ulp p x := mul_le_mul_of_nonneg_right (abs_roundEven_sub_le _) hpos.le
    _ ≤ 1 / 2 * (2 * (|x| / 2 ^ p)) := mul_le_mul_of_nonneg_left (ulp_le p hx) (by norm_num)
    _ = |x| / 2 ^ p := by ring

end

/-! ## Errors -/

/-- `x` is off from `y` by at most `ε` of `bound`. -/
def Within (ε bound x y : R) : Prop := |x - y| ≤ ε * bound

variable {ε bound bound' x y x' y' : R}

/-- The errors of two numbers add up. -/
theorem Within.add (h : Within ε bound x y) (h' : Within ε bound' x' y') :
    Within ε (bound + bound') (x + x') (y + y') := by
  calc |x + x' - (y + y')| = |(x - y) + (x' - y')| := by congr 1; ring
    _ ≤ |x - y| + |x' - y'| := abs_add_le _ _
    _ ≤ ε * bound + ε * bound' := add_le_add h h'
    _ = ε * (bound + bound') := by ring

/-- What is nearer is within. -/
theorem Within.mono {ε' : R} (h : Within ε bound x y) (hε : ε ≤ ε') (hbound : 0 ≤ bound) :
    Within ε' bound x y :=
  le_trans h (mul_le_mul_of_nonneg_right hε hbound)

variable [FloorRing R]

/-- What is rounded is within one part in `2 ^ p`. -/
theorem within_roundBits (p : Nat) (x : R) : Within (1 / 2 ^ p) |x| (roundBits p x) x := by
  rw [Within, one_div_mul_eq_div]
  exact abs_roundBits_sub_le p x

/-- A quotient whose dividend is rounded before is within three parts in `2 ^ p`. -/
theorem within_roundBits_div (p : Nat) (x : R) {y : R} (hy : 0 < y) :
    Within (3 / 2 ^ p) (|x| / y) (roundBits p (roundBits p x / y)) (x / y) := by
  have hpow : (0 : R) < 2 ^ p := pow_pos two_pos p
  have hone : (1 : R) ≤ 2 ^ p := one_le_pow₀ one_le_two
  set q := |x| / y with hq
  have hq0 : 0 ≤ q := div_nonneg (abs_nonneg x) hy.le
  -- the dividend is off by one part, and the quotient with it
  have hfirst : |roundBits p x / y - x / y| ≤ q / 2 ^ p := by
    rw [← sub_div, abs_div, abs_of_pos hy, hq, div_right_comm]
    exact div_le_div_of_nonneg_right (abs_roundBits_sub_le p x) hy.le
  have hquotient : |roundBits p x / y| ≤ q + q / 2 ^ p := by
    have habs : |x / y| = q := by rw [abs_div, abs_of_pos hy]
    have hle := abs_sub_abs_le_abs_sub (roundBits p x / y) (x / y)
    linarith
  have hparts : q / 2 ^ p / 2 ^ p ≤ q / 2 ^ p := div_le_self (div_nonneg hq0 hpow.le) hone
  calc |roundBits p (roundBits p x / y) - x / y|
      ≤ |roundBits p (roundBits p x / y) - roundBits p x / y| + |roundBits p x / y - x / y| :=
        abs_sub_le _ _ _
    _ ≤ |roundBits p x / y| / 2 ^ p + q / 2 ^ p := add_le_add (abs_roundBits_sub_le p _) hfirst
    _ ≤ (q + q / 2 ^ p) / 2 ^ p + q / 2 ^ p := by
        have hle := div_le_div_of_nonneg_right hquotient hpow.le
        linarith
    _ ≤ 3 / 2 ^ p * q := by
        rw [add_div, div_mul_eq_mul_div, mul_div_assoc]
        linarith

end OipComms.Rounding
