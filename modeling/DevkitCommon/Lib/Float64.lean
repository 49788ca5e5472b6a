import DevkitCommon.Lib.Rounding
import Mathlib.Algebra.Order.Field.Power
import Mathlib.Data.Int.Log

/-! The numbers of a double: so many units of a power of two, 53 binary digits at most. A
rational is read as the nearest of them, with halves to the even one. -/
namespace DevkitCommon.Float64
open Rounding

/- The exponent of the last binary digit of a double of this size. -/
def unit (x : ℚ) : ℤ := max (Int.log 2 |x| - 52) (-1074)

def rounded (x : ℚ) : ℚ := halfEven (x/2^unit x)*2^unit x

/- None where it is beyond the largest double. -/
def nearest (x : ℚ) : Option ℚ := if |rounded x| < 2^1024 then some (rounded x) else none

theorem halfEvenInt (k : ℤ) : halfEven k = k := by
  unfold halfEven
  simp

theorem unitLe {m e : ℤ} (small : |m| < 2^53) (fine : -1074 ≤ e) (some' : m ≠ 0) : unit (m*2^e) ≤ e := by
  have pos : (0 : ℚ) < |(m : ℚ)*2^e| := abs_pos.mpr (mul_ne_zero (by exact_mod_cast some') (zpow_ne_zero _ two_ne_zero))
  have below : |(m : ℚ)*2^e| < ((2 : ℕ) : ℚ)^(e+53) := by
    have size : |(m : ℚ)| < 2^53 := by exact_mod_cast small
    have digit : |(2 : ℚ)^e| = 2^e := abs_of_pos (zpow_pos two_pos e)
    rw [abs_mul,digit,zpow_add₀ (by norm_num),mul_comm]
    push_cast
    exact mul_lt_mul_of_pos_left (by exact_mod_cast size) (zpow_pos two_pos e)
  have log := (Int.lt_zpow_iff_log_lt (by norm_num : 1 < 2) pos).mp below
  unfold unit
  omega

theorem roundedExact {m e : ℤ} (small : |m| < 2^53) (fine : -1074 ≤ e) : rounded (m*2^e) = m*2^e := by
  by_cases zero : m = 0
  · subst zero
    have none' : halfEven 0 = 0 := by exact_mod_cast halfEvenInt 0
    simp [rounded,none']
  · have low := unitLe small fine zero
    obtain ⟨n,same⟩ := Int.le.dest low
    have units : (m : ℚ)*2^e/2^unit (m*2^e) = ((m*2^n : ℤ) : ℚ) := by
      rw [mul_div_assoc,← zpow_sub₀ (by norm_num),show e - unit (m*2^e) = (n : ℤ) by omega,zpow_natCast]
      push_cast
      rfl
    rw [rounded,units,halfEvenInt,← units,div_mul_cancel₀ _ (zpow_ne_zero _ two_ne_zero)]

theorem nearestExact {m e : ℤ} (small : |m| < 2^53) (fine : -1074 ≤ e) (bound : |(m : ℚ)*2^e| < 2^1024) :
    nearest (m*2^e) = some ((m : ℚ)*2^e) := by
  rw [nearest,roundedExact small fine,if_pos bound]

theorem nearestInt {n : ℤ} (small : |n| < 2^53) : nearest n = some (n : ℚ) := by
  have bound : |(n : ℚ)*2^(0 : ℤ)| < 2^1024 := by
    have size : |(n : ℚ)| < 2^53 := by exact_mod_cast small
    rw [zpow_zero,mul_one]
    exact size.trans (pow_lt_pow_right₀ (by norm_num) (by norm_num))
  simpa using nearestExact small (by norm_num) bound

end DevkitCommon.Float64
