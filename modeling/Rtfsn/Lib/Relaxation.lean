/-
Moving a point so that its distance comes nearer to a target.

* `toward`: a distance that makes part of its way to the target. What is missing shrinks by that
  part (`target_sub_toward`), so it never overshoots.
* `dist_along`: a step along the line from another point changes the distance to it by its length.
* `share`: the part of a whole, which is a weight.
-/
import Mathlib.Analysis.Normed.Module.Basic
import Mathlib.Tactic.Linarith
import Mathlib.Tactic.Ring

namespace Rtfsn.Relaxation

/-! ### Distances -/

section Distances

variable {target distance part : ℝ}

/-- The distance after part of the way to the target. -/
def toward (target distance part : ℝ) : ℝ := distance + (target - distance) * part

theorem target_sub_toward :
    target - toward target distance part = (1 - part) * (target - distance) := by
  unfold toward
  ring

theorem toward_nonneg (target_nonneg : 0 ≤ target) (distance_nonneg : 0 ≤ distance)
    (nonneg : 0 ≤ part) (le_one : part ≤ 1) : 0 ≤ toward target distance part := by
  have split : toward target distance part = (1 - part) * distance + part * target := by
    unfold toward
    ring
  rw [split]
  exact add_nonneg (mul_nonneg (sub_nonneg.mpr le_one) distance_nonneg)
    (mul_nonneg nonneg target_nonneg)

/-- What is missing shrinks by the part. -/
theorem abs_target_sub_toward (le_one : part ≤ 1) :
    |target - toward target distance part| = (1 - part) * |target - distance| := by
  rw [target_sub_toward, abs_mul, abs_of_nonneg (sub_nonneg.mpr le_one)]

end Distances

/-! ### Points -/

/-- **A step along the line** from `p` changes the distance to it by its length. -/
theorem dist_along {E : Type} [NormedAddCommGroup E] [NormedSpace ℝ E] {x p : E} (apart : x ≠ p)
    (step : ℝ) : dist (x + step • ((1 / ‖x - p‖) • (x - p))) p = |dist x p + step| := by
  have pos : 0 < ‖x - p‖ := norm_pos_iff.mpr (sub_ne_zero.mpr apart)
  have scaled : x + step • ((1 / ‖x - p‖) • (x - p)) - p =
      ((‖x - p‖ + step) / ‖x - p‖) • (x - p) := by
    rw [add_div, div_self pos.ne', add_smul, one_smul, smul_smul, mul_one_div]
    abel
  rw [dist_eq_norm, dist_eq_norm, scaled, norm_smul, Real.norm_eq_abs, abs_div, abs_norm,
    div_mul_cancel₀ _ pos.ne']

/-! ### Weights -/

/-- The part of `a` in `a + b`. -/
noncomputable def share (a b : ℝ) : ℝ := a / (a + b)

theorem share_nonneg {a b : ℝ} (left : 0 ≤ a) (right : 0 ≤ b) : 0 ≤ share a b :=
  div_nonneg left (add_nonneg left right)

theorem share_le_one {a b : ℝ} (left : 0 ≤ a) (right : 0 ≤ b) : share a b ≤ 1 :=
  div_le_one_of_le₀ (le_add_of_nonneg_right right) (add_nonneg left right)

end Rtfsn.Relaxation
