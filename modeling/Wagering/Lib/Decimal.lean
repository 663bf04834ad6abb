import Mathlib.Algebra.Order.Field.Power
import Mathlib.Data.Int.Log
import Mathlib.Data.Rat.Floor
import Mathlib.Tactic.FieldSimp
import Mathlib.Tactic.Linarith
import Mathlib.Tactic.NormNum
import Mathlib.Tactic.Ring

/-!
# Rounding to significant digits

Decimal arithmetic of a fixed precision returns the exact result rounded to so
many significant digits, half away from zero.  A result that has few enough
digits is returned as it is: `roundHalfUp_of_places`.
-/

namespace Decimal

/-- The value of the last of `precision` significant decimal digits. -/
def lastPlace (precision : Nat) (x : ℚ) : ℚ := 10 ^ (Int.log 10 |x| + 1 - precision)

/-- The exact value, rounded half up to `precision` significant digits. -/
def roundHalfUp (precision : Nat) (x : ℚ) : ℚ :=
  if x < 0 then -(⌊-x / lastPlace precision x + 1 / 2⌋ * lastPlace precision x)
  else ⌊x / lastPlace precision x + 1 / 2⌋ * lastPlace precision x

variable {precision : Nat} {x : ℚ}

theorem lastPlace_pos : 0 < lastPlace precision x := zpow_pos (by norm_num) _

/-- The half that rounding adds does not reach the next whole number. -/
theorem floor_half (n : ℤ) : ⌊(n : ℚ) + 1 / 2⌋ = n := by
  rw [Int.floor_intCast_add, Int.floor_eq_zero_iff.mpr ⟨by norm_num, by norm_num⟩, add_zero]

/-- A whole number of last places is not rounded. -/
theorem roundHalfUp_of_multiple {n : ℤ} (h : x = n * lastPlace precision x) :
    roundHalfUp precision x = x := by
  have hne : lastPlace precision x ≠ 0 := lastPlace_pos.ne'
  have hquotient : x / lastPlace precision x = n := (div_eq_iff hne).mpr h
  unfold roundHalfUp
  split
  · rw [neg_div, hquotient, ← Int.cast_neg, floor_half, Int.cast_neg, neg_mul, neg_neg, ← h]
  · rw [hquotient, floor_half, ← h]

/-- A value of `places` decimal places and at most `precision` digits is not rounded. -/
theorem roundHalfUp_of_places {n : ℤ} (places : Nat) (h : x = n / 10 ^ places)
    (hdigits : n.natAbs < 10 ^ precision) : roundHalfUp precision x = x := by
  rcases eq_or_ne x 0 with rfl | hx
  · exact roundHalfUp_of_multiple (n := 0) (by rw [Int.cast_zero, zero_mul])
  · have hpow : (0 : ℚ) < 10 ^ places := pow_pos (by norm_num) _
    -- the magnitude has at most `precision - places` digits before the point
    have hlt : |x| < (10 : ℚ) ^ ((precision : ℤ) - places) := by
      have hn : |(n : ℚ)| < 10 ^ precision := by
        rw [← Int.cast_abs, Int.abs_eq_natAbs]
        exact_mod_cast hdigits
      rw [h, abs_div, abs_of_pos hpow, zpow_sub₀ (by norm_num), zpow_natCast, zpow_natCast]
      exact div_lt_div_of_pos_right hn hpow
    have hlog : Int.log 10 |x| < (precision : ℤ) - places :=
      (Int.lt_zpow_iff_log_lt (by norm_num) (abs_pos.mpr hx)).mp (by exact_mod_cast hlt)
    -- so the last decimal place is a whole number of last digits
    obtain ⟨k, hk⟩ := Int.eq_ofNat_of_zero_le
      (show 0 ≤ (precision : ℤ) - places - (Int.log 10 |x| + 1) by omega)
    refine roundHalfUp_of_multiple (n := n * 10 ^ k) ?_
    have hexp : Int.log 10 |x| + 1 - precision = -(places : ℤ) - k := by omega
    rw [lastPlace, hexp, zpow_sub₀ (by norm_num), zpow_neg, zpow_natCast, zpow_natCast]
    push_cast
    field_simp
    rw [h]
    field_simp

end Decimal
