/-
Symmetric two-by-two matrices that are positive semidefinite, by their three entries.

* `form_nonneg`: the quadratic form is never negative, however far the second coordinate is mixed
  into the first.
* `shear`, `widen`: a change of coordinates keeps it, and so does what is added on the diagonal.
* `condition`: so does conditioning on a noisy reading of the first coordinate, which leaves its
  variance below what it was and below the noise's (`conditioned_le`), and never widens the second.
-/
import Mathlib

set_option linter.unusedSectionVars false

namespace Rtfsn

variable {K : Type} [Field K] [LinearOrder K] [IsStrictOrderedRing K] {a b c : K}

/-- The matrix `[[a, b], [b, c]]` is positive semidefinite. -/
structure Semidefinite (a b c : K) : Prop where
  first : 0 ≤ a
  second : 0 ≤ c
  det : b ^ 2 ≤ a * c

namespace Semidefinite

theorem form_nonneg (psd : Semidefinite a b c) (t : K) : 0 ≤ a + 2 * t * b + t * t * c := by
  rcases psd.second.eq_or_lt with zero | positive
  · have none : b = 0 := by
      have square := psd.det
      rw [← zero, mul_zero] at square
      exact pow_eq_zero_iff two_ne_zero |>.mp (le_antisymm square (sq_nonneg b))
    rw [none, ← zero]
    linarith [psd.first]
  · -- Completing the square leaves the determinant.
    have scaled : c * (a + 2 * t * b + t * t * c) = (b + t * c) ^ 2 + (a * c - b ^ 2) := by ring
    refine nonneg_of_mul_nonneg_right ?_ positive
    rw [scaled]
    exact add_nonneg (sq_nonneg _) (sub_nonneg.mpr psd.det)

/-- Mixing the second coordinate into the first. -/
theorem shear (psd : Semidefinite a b c) (t : K) :
    Semidefinite (a + 2 * t * b + t * t * c) (b + t * c) c where
  first := psd.form_nonneg t
  second := psd.second
  det := by
    have same : (a + 2 * t * b + t * t * c) * c - (b + t * c) ^ 2 = a * c - b ^ 2 := by ring
    exact sub_nonneg.mp (same ▸ sub_nonneg.mpr psd.det)

/-- Independent noise in both coordinates. -/
theorem widen (psd : Semidefinite a b c) {u v : K} (u_nonneg : 0 ≤ u) (v_nonneg : 0 ≤ v) :
    Semidefinite (a + u) b (c + v) where
  first := add_nonneg psd.first u_nonneg
  second := add_nonneg psd.second v_nonneg
  det := psd.det.trans (mul_le_mul (le_add_of_nonneg_right u_nonneg)
    (le_add_of_nonneg_right v_nonneg) psd.second (add_nonneg psd.first u_nonneg))

/-- A reading of the first coordinate with variance `r` leaves the parallel sum of the two. -/
theorem conditioned_eq {r : K} (positive : 0 < a + r) :
    (1 - a / (a + r)) * a = r * a / (a + r) := by
  have nonzero := positive.ne'
  field_simp
  ring

/-- The first variance falls below what it was and below the reading's. -/
theorem conditioned_le {r : K} (positive : 0 < a + r) :
    (1 - a / (a + r)) * a ≤ min a r := by
  rw [conditioned_eq positive, le_min_iff, div_le_iff₀ positive, div_le_iff₀ positive]
  constructor
  · linarith [mul_self_nonneg a, mul_comm r a, mul_add a a r]
  · linarith [mul_self_nonneg r, mul_add r a r]

/-- **Conditioning on a noisy reading of the first coordinate.** -/
theorem condition (psd : Semidefinite a b c) {r : K} (noise : 0 ≤ r) (positive : 0 < a + r) :
    Semidefinite ((1 - a / (a + r)) * a) ((1 - a / (a + r)) * b) (c - b / (a + r) * b) where
  first := by
    rw [conditioned_eq positive]
    exact div_nonneg (mul_nonneg noise psd.first) positive.le
  second := by
    rw [sub_nonneg, div_mul_eq_mul_div, div_le_iff₀ positive, ← sq, mul_add, mul_comm c a]
    exact psd.det.trans (le_add_of_nonneg_right (mul_nonneg psd.second noise))
  det := by
    have nonzero := positive.ne'
    -- The determinant shrinks by the factor `r / (a + r)`.
    have shrinks : (1 - a / (a + r)) * a * (c - b / (a + r) * b) - ((1 - a / (a + r)) * b) ^ 2 =
        r / (a + r) * (a * c - b ^ 2) := by
      field_simp
      ring
    rw [← sub_nonneg, shrinks]
    exact mul_nonneg (div_nonneg noise positive.le) (sub_nonneg.mpr psd.det)

end Semidefinite

end Rtfsn
