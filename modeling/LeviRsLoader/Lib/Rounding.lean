import Mathlib.Algebra.Order.Round
import Mathlib.Tactic.Linarith
import Mathlib.Tactic.Ring

/-!
# Clamping and rounding to a grid

Over an ordered field with a floor: the value of a closed range nearest to a
given one, the nearest integer with halves away from zero, and the nearest
point of the grid `lo + k * step`.
-/
namespace Rounding

variable {K : Type*} [LinearOrder K]

/-! ## Clamping -/

def clamp (x lo hi : K) : K := if x < lo then lo else if hi < x then hi else x

section
variable {x y lo hi : K}

theorem clamp_of_mem (hlo : lo ≤ x) (hhi : x ≤ hi) : clamp x lo hi = x := by
  rw [clamp, if_neg (not_lt.mpr hlo), if_neg (not_lt.mpr hhi)]

theorem le_clamp (h : lo ≤ hi) : lo ≤ clamp x lo hi := by
  unfold clamp
  split
  · exact le_refl lo
  · split
    · exact h
    · next hlo _ => exact not_lt.mp hlo

theorem clamp_le (h : lo ≤ hi) : clamp x lo hi ≤ hi := by
  unfold clamp
  split
  · exact h
  · split
    · exact le_refl hi
    · next _ hhi => exact not_lt.mp hhi

variable [Field K] [IsStrictOrderedRing K]

/-- The clamped value lies between the given one and every value of the range. -/
theorem abs_sub_eq_clamp (hlo : lo ≤ y) (hhi : y ≤ hi) :
    |y - x| = |y - clamp x lo hi| + |clamp x lo hi - x| := by
  unfold clamp
  split
  · next hx =>
    rw [abs_of_nonneg (by linarith), abs_of_nonneg (by linarith), abs_of_nonneg (by linarith)]
    ring
  · split
    · next hx =>
      rw [abs_of_nonpos (by linarith), abs_of_nonpos (by linarith), abs_of_nonpos (by linarith)]
      ring
    · rw [sub_self, abs_zero, add_zero]

end

variable [Field K] [IsStrictOrderedRing K] [FloorRing K]

/-! ## Halves away from zero -/

def roundAway (x : K) : ℤ := if x < 0 then -round (-x) else round x

theorem roundAway_nearest (x : K) (z : ℤ) : |roundAway x - x| ≤ |z - x| := by
  unfold roundAway
  split
  · have h := round_le (-x) (-z)
    calc |((-round (-x) : ℤ) : K) - x| = |-x - round (-x)| := by rw [Int.cast_neg]; congr 1; ring
      _ ≤ |-x - ((-z : ℤ) : K)| := h
      _ = |z - x| := by rw [Int.cast_neg]; congr 1; ring
  · rw [abs_sub_comm, abs_sub_comm (z : K)]
    exact round_le x z

theorem roundAway_intCast (z : ℤ) : roundAway (z : K) = z := by
  have h := roundAway_nearest (z : K) z
  rw [sub_self, abs_zero] at h
  have hz := sub_eq_zero.mp (abs_eq_zero.mp (le_antisymm h (abs_nonneg _)))
  exact Int.cast_injective hz

/-- Were it larger, the bound itself would be nearer. -/
theorem roundAway_le {x : K} {z : ℤ} (h : x ≤ z) : roundAway x ≤ z := by
  by_contra hlt
  have hz : (z : K) + 1 ≤ roundAway x := by exact_mod_cast not_le.mp hlt
  have hn := roundAway_nearest x z
  rw [abs_of_nonneg (by linarith), abs_of_nonneg (by linarith)] at hn
  linarith

theorem le_roundAway {x : K} {z : ℤ} (h : (z : K) ≤ x) : z ≤ roundAway x := by
  by_contra hlt
  have hz : (roundAway x : K) + 1 ≤ z := by exact_mod_cast not_le.mp hlt
  have hn := roundAway_nearest x z
  rw [abs_of_nonpos (by linarith), abs_of_nonpos (by linarith)] at hn
  linarith

/-! ## The nearest point of a grid -/

def snap (x lo step : K) : K := lo + roundAway ((x - lo) / step) * step

section
variable {x lo step : K} (h : 0 < step)
include h

omit [FloorRing K] in
theorem abs_grid_sub (k : ℤ) : |lo + k * step - x| = |k - (x - lo) / step| * step := by
  have hs : lo + k * step - x = (k - (x - lo) / step) * step := by
    rw [sub_mul, div_mul_cancel₀ _ h.ne']
    ring
  rw [hs, abs_mul, abs_of_pos h]

theorem snap_nearest (k : ℤ) : |snap x lo step - x| ≤ |lo + k * step - x| := by
  rw [snap, abs_grid_sub h, abs_grid_sub h]
  exact mul_le_mul_of_nonneg_right (roundAway_nearest _ _) h.le

theorem snap_grid (k : ℤ) : snap (lo + k * step) lo step = lo + k * step := by
  rw [snap, add_sub_cancel_left, mul_div_cancel_right₀ _ h.ne', roundAway_intCast]

/-- A range that begins and ends on the grid is not left. -/
theorem le_snap (hlo : lo ≤ x) : lo ≤ snap x lo step := by
  have hk : 0 ≤ roundAway ((x - lo) / step) := by
    apply le_roundAway
    rw [Int.cast_zero]
    exact div_nonneg (sub_nonneg.mpr hlo) h.le
  have hk' : (0 : K) ≤ roundAway ((x - lo) / step) := by exact_mod_cast hk
  exact le_add_of_nonneg_right (mul_nonneg hk' h.le)

theorem snap_le {n : ℤ} (hhi : x ≤ lo + n * step) : snap x lo step ≤ lo + n * step := by
  have hk : roundAway ((x - lo) / step) ≤ n := by
    apply roundAway_le
    rw [div_le_iff₀ h]
    linarith
  have hk' : (roundAway ((x - lo) / step) : K) ≤ n := by exact_mod_cast hk
  exact add_le_add_right (mul_le_mul_of_nonneg_right hk' h.le) lo

end

end Rounding
