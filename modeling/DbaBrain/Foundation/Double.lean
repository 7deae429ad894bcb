import Mathlib

/-!
# Doubles

The nearest double of a rational, with an even last place where two are as near,
within the range where nothing overflows.  Rounding keeps order and whole
numbers, and its error is half a place of the power of two above.
-/

namespace DbaBrain.Foundation.Double

/-- The nearest whole number, the even one of two. -/
def nearest (x : ℚ) : ℤ :=
  if x - ⌊x⌋ < 1 / 2 ∨ x - ⌊x⌋ = 1 / 2 ∧ ⌊x⌋ % 2 = 0 then ⌊x⌋ else ⌊x⌋ + 1

/-- The last place of the doubles about a number. -/
def place (x : ℚ) : ℤ := max (Int.log 2 |x| - 52) (-1074)

def double (x : ℚ) : ℚ := nearest (x / 2 ^ place x) * 2 ^ place x

/-! ## Whole numbers -/

@[simp] theorem nearest_intCast (n : ℤ) : nearest n = n := by
  simp [nearest]

theorem nearest_error (x : ℚ) : |nearest x - x| ≤ 1 / 2 := by
  have below := Int.floor_le x
  have above := Int.lt_floor_add_one x
  rw [nearest]
  split
  · rename_i down
    have half : x - ⌊x⌋ ≤ 1 / 2 := down.elim le_of_lt fun tie => tie.1.le
    rw [abs_le]
    constructor <;> linarith
  · rename_i up
    have half : 1 / 2 ≤ x - ⌊x⌋ := not_lt.mp (not_or.mp up).1
    push_cast
    rw [abs_le]
    constructor <;> linarith

variable {x y : ℚ} {n k : ℤ}

theorem nearest_mono (ordered : x ≤ y) : nearest x ≤ nearest y := by
  have floors := Int.floor_mono ordered
  rcases floors.lt_or_eq with apart | same
  · have here : nearest x ≤ ⌊x⌋ + 1 := by
      rw [nearest]
      split <;> omega
    have there : ⌊y⌋ ≤ nearest y := by
      rw [nearest]
      split <;> omega
    omega
  · rw [nearest, nearest, ← same]
    by_cases down : y - ⌊x⌋ < 1 / 2 ∨ y - ⌊x⌋ = 1 / 2 ∧ ⌊x⌋ % 2 = 0
    · have also : x - ⌊x⌋ < 1 / 2 ∨ x - ⌊x⌋ = 1 / 2 ∧ ⌊x⌋ % 2 = 0 := by
        rcases down with below | ⟨tie, even⟩
        · exact Or.inl (lt_of_le_of_lt (sub_le_sub_right ordered _) below)
        · rcases (tie ▸ sub_le_sub_right ordered (⌊x⌋ : ℚ)).lt_or_eq with below | tied
          · exact Or.inl below
          · exact Or.inr ⟨tied, even⟩
      rw [if_pos down, if_pos also]
    · rw [if_neg down]
      split <;> omega

theorem nearest_le (below : x ≤ n) : nearest x ≤ n :=
  (nearest_mono below).trans (nearest_intCast n).le

theorem le_nearest (above : n ≤ x) : n ≤ nearest x :=
  (nearest_intCast n).ge.trans (nearest_mono above)

/-! ## Places -/

theorem place_pos (x : ℚ) : (0 : ℚ) < 2 ^ place x := by positivity

theorem lt_zpow_of_place (x : ℚ) : |x| < 2 ^ (place x + 53) := by
  have above := Int.lt_zpow_succ_log_self (b := 2) one_lt_two |x|
  refine above.trans_le (zpow_le_zpow_right₀ one_le_two ?_)
  have larger := le_max_left (Int.log 2 |x| - 52) (-1074)
  rw [place]
  omega

theorem place_mono (start : 0 < x) (ordered : x ≤ y) : place x ≤ place y := by
  rw [place, place, abs_of_pos start, abs_of_pos (start.trans_le ordered)]
  exact max_le_max_right _ (sub_le_sub_right (Int.log_mono_right start ordered) 52)

/-- A multiple of a coarser place is a multiple of a finer one. -/
theorem zpow_eq_intCast_mul {fine coarse : ℤ} (ordered : fine ≤ coarse) :
    (2 : ℚ) ^ coarse = ((2 ^ (coarse - fine).toNat : ℤ) : ℚ) * 2 ^ fine := by
  obtain ⟨steps, rfl⟩ := Int.le.dest ordered
  rw [add_sub_cancel_left, Int.toNat_natCast, zpow_add₀ two_ne_zero, zpow_natCast, mul_comm]
  push_cast
  rfl

/-! ## Rounding -/

theorem double_error_place (x : ℚ) : |double x - x| ≤ 2 ^ place x / 2 := by
  have positive := place_pos x
  have error := nearest_error (x / 2 ^ place x)
  have scaled : double x - x = (nearest (x / 2 ^ place x) - x / 2 ^ place x) * 2 ^ place x := by
    rw [double, sub_mul, div_mul_cancel₀ x positive.ne']
  rw [scaled, abs_mul, abs_of_pos positive]
  calc _ ≤ 1 / 2 * (2 : ℚ) ^ place x := mul_le_mul_of_nonneg_right error positive.le
    _ = _ := by ring

theorem double_le_mul (below : x ≤ n * 2 ^ place x) : double x ≤ n * 2 ^ place x := by
  have positive := place_pos x
  have scaled := nearest_le ((div_le_iff₀ positive).mpr below)
  exact mul_le_mul_of_nonneg_right (by exact_mod_cast scaled) positive.le

theorem mul_le_double (above : n * 2 ^ place x ≤ x) : n * 2 ^ place x ≤ double x := by
  have positive := place_pos x
  have scaled := le_nearest ((le_div_iff₀ positive).mpr above)
  exact mul_le_mul_of_nonneg_right (by exact_mod_cast scaled) positive.le

theorem double_of_mul (whole : x = n * 2 ^ place x) : double x = x :=
  le_antisymm ((double_le_mul whole.le).trans whole.ge) (whole.le.trans (mul_le_double whole.ge))

@[simp] theorem double_zero : double 0 = 0 := double_of_mul (n := 0) (by simp)

/-- A power of two, at or above the place, is a multiple of it. -/
theorem double_le_zpow (high : place x ≤ k) (below : x ≤ 2 ^ k) : double x ≤ 2 ^ k := by
  rw [zpow_eq_intCast_mul high] at below ⊢
  exact double_le_mul below

theorem zpow_le_double (high : place x ≤ k) (above : 2 ^ k ≤ x) : 2 ^ k ≤ double x := by
  rw [zpow_eq_intCast_mul high] at above ⊢
  exact mul_le_double above

theorem double_nonneg (positive : 0 ≤ x) : 0 ≤ double x := by
  have none : ((0 : ℤ) : ℚ) * 2 ^ place x ≤ x := by simpa using positive
  simpa using mul_le_double none

/-- Rounding keeps the order of numbers that are not negative. -/
theorem double_mono (start : 0 ≤ x) (ordered : x ≤ y) : double x ≤ double y := by
  rcases start.eq_or_lt with rfl | positive
  · rw [double_zero]
    exact double_nonneg ordered
  · rcases (place_mono positive ordered).lt_or_eq with apart | same
    · -- a power of two lies between the two, and is a double at both places
      have least : -1074 ≤ place x := le_max_right _ _
      have later : place y = Int.log 2 y - 52 := by
        have magnitude : place y = max (Int.log 2 y - 52) (-1074) := by
          rw [place, abs_of_pos (positive.trans_le ordered)]
        rcases max_choice (Int.log 2 y - 52) (-1074) with large | small
        · rw [magnitude, large]
        · omega
      have bound : x ≤ 2 ^ Int.log 2 y := by
        have below := (le_abs_self x).trans_lt (lt_zpow_of_place x)
        exact below.le.trans (zpow_le_zpow_right₀ one_le_two (by omega))
      calc double x ≤ 2 ^ Int.log 2 y := double_le_zpow (by omega) bound
        _ ≤ double y := zpow_le_double (by omega) (Int.zpow_log_le_self one_lt_two (positive.trans_le ordered))
    · rw [double, double, ← same]
      have scaled := nearest_mono (div_le_div_of_nonneg_right ordered (place_pos x).le)
      exact mul_le_mul_of_nonneg_right (by exact_mod_cast scaled) (place_pos x).le

/-- A number below a power of two has its last place 53 below. -/
theorem place_le (start : 0 < x) (below : x < 2 ^ k) (normal : -1021 ≤ k) : place x ≤ k - 53 := by
  have log := (Int.lt_zpow_iff_log_lt (b := 2) one_lt_two start).mp below
  rw [place, abs_of_pos start]
  omega

theorem double_zpow (normal : -1022 ≤ k) : double (2 ^ k) = 2 ^ k := by
  have log : Int.log 2 |(2 : ℚ) ^ k| = k := by
    rw [abs_of_pos (by positivity)]
    exact Int.log_zpow one_lt_two k
  have low : place (2 ^ k) ≤ k := by
    rw [place, log]
    omega
  exact le_antisymm (double_le_zpow low le_rfl) (zpow_le_double low le_rfl)

/-- The double of a number up to a power of two is off by half its last place at most. -/
theorem double_error (start : 0 ≤ x) (below : x ≤ 2 ^ k) (normal : -1021 ≤ k) : |double x - x| ≤ 2 ^ (k - 54) := by
  have positive : (0 : ℚ) < 2 ^ (k - 54) := by positivity
  rcases start.eq_or_lt with rfl | some
  · simpa using positive.le
  · rcases below.eq_or_lt with rfl | less
    · rw [double_zpow (by omega), sub_self, abs_zero]
      exact positive.le
    · have low := zpow_le_zpow_right₀ (one_le_two (α := ℚ)) (place_le some less normal)
      have half : (2 : ℚ) ^ (k - 53) / 2 = 2 ^ (k - 54) := by
        rw [show k - 53 = k - 54 + 1 by ring, zpow_add_one₀ two_ne_zero]
        ring
      calc _ ≤ (2 : ℚ) ^ place x / 2 := double_error_place x
        _ ≤ (2 : ℚ) ^ (k - 53) / 2 := by linarith
        _ = _ := half

/-- Relative to the number, the double is off by half of its last binary place. -/
theorem double_relative (normal : 2 ^ (-1022 : ℤ) ≤ x) : |double x - x| ≤ x * 2 ^ (-53 : ℤ) := by
  have start : 0 < x := (by positivity : (0 : ℚ) < 2 ^ (-1022 : ℤ)).trans_le normal
  have log := (Int.zpow_le_iff_le_log (b := 2) one_lt_two start).mp normal
  have here : place x = Int.log 2 x + -52 := by
    rw [place, abs_of_pos start]
    omega
  have below : (2 : ℚ) ^ Int.log 2 x ≤ x := Int.zpow_log_le_self one_lt_two start
  calc _ ≤ (2 : ℚ) ^ place x / 2 := double_error_place x
    _ = 2 ^ Int.log 2 x * 2 ^ (-53 : ℤ) := by
      rw [here, zpow_add₀ two_ne_zero, mul_div_assoc]
      norm_num
    _ ≤ x * 2 ^ (-53 : ℤ) := mul_le_mul_of_nonneg_right below (by positivity)

/-- Whole numbers below `2 ^ 53` are doubles. -/
theorem double_natCast {n : ℕ} (small : n < 2 ^ 53) : double n = n := by
  rcases Nat.eq_zero_or_pos n with rfl | positive
  · exact double_zero
  · have start : (0 : ℚ) < n := by exact_mod_cast positive
    have below : (n : ℚ) < 2 ^ (53 : ℤ) := by exact_mod_cast small
    have low : place n ≤ 0 := place_le start below (by norm_num)
    have unit := zpow_eq_intCast_mul low
    rw [zpow_zero] at unit
    refine double_of_mul (n := n * 2 ^ (0 - place n).toNat) ?_
    push_cast at unit ⊢
    rw [mul_assoc, ← unit, mul_one]

/-- Doubles from `2 ^ 53` on are whole numbers. -/
theorem double_whole_of_large (large : 2 ^ 53 ≤ x) : ((⌊double x⌋ : ℤ) : ℚ) = double x := by
  have start : 0 < x := (by positivity : (0 : ℚ) < 2 ^ 53).trans_le large
  have log := (Int.zpow_le_iff_le_log (b := 2) (x := 53) one_lt_two start).mp (by exact_mod_cast large)
  have high : 0 ≤ place x := by
    rw [place, abs_of_pos start]
    omega
  have unit := zpow_eq_intCast_mul high
  rw [zpow_zero, mul_one] at unit
  rw [double, unit, ← Int.cast_mul, Int.floor_intCast]

/-- A double that is no whole number is rounded within its unit. -/
theorem le_floor_double (positive : 0 ≤ x) (broken : ((⌊double x⌋ : ℤ) : ℚ) ≠ double x) : x ≤ ⌊double x⌋ + 1 := by
  by_contra beyond
  have above := not_le.mp beyond
  have small : x < 2 ^ 53 := lt_of_not_ge fun large => broken (double_whole_of_large large)
  obtain ⟨unit, same⟩ := Int.eq_ofNat_of_zero_le (Int.floor_nonneg.mpr (double_nonneg positive))
  rw [same] at above
  have next : ((unit + 1 : ℕ) : ℚ) < x := by
    push_cast
    exact_mod_cast above
  have double_next : double ((unit + 1 : ℕ) : ℚ) = ((unit + 1 : ℕ) : ℚ) := by
    refine double_natCast ?_
    have within : ((unit + 1 : ℕ) : ℚ) < 2 ^ 53 := next.trans small
    exact_mod_cast within
  have reached := double_mono (by positivity) next.le
  rw [double_next] at reached
  have floor := Int.lt_floor_add_one (double x)
  rw [same] at floor
  push_cast at floor reached
  linarith

end DbaBrain.Foundation.Double
