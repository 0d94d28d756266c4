/-
Values moved toward zero.

* `TowardZero x y`: `y` lies between zero and `x`. Truncation, saturation and damping all move a
  value so.
* `TowardZero.bounds`: bounds with zero between them hold of what was moved.
* `accumulate`: a sum of weighted values that is moved toward zero after each term stays between the
  bounds of the values, times the weight so far. `average`: so the average stays between the bounds.
-/
import Mathlib.Algebra.Order.Field.Basic
import Mathlib.Tactic.Linarith

namespace Rtfsn

/-- `y` lies between zero and `x`. -/
def TowardZero {R : Type} [Zero R] [LinearOrder R] (x y : R) : Prop := min 0 x ≤ y ∧ y ≤ max 0 x

namespace TowardZero

section Order

variable {R : Type} [Zero R] [LinearOrder R] {x y z lo hi : R}

theorem of_nonneg (least : 0 ≤ y) (most : y ≤ x) : TowardZero x y :=
  ⟨min_le_of_left_le least, le_max_of_le_right most⟩

theorem of_nonpos (most : y ≤ 0) (least : x ≤ y) : TowardZero x y :=
  ⟨min_le_of_right_le least, le_max_of_le_left most⟩

/-- **Bounds with zero between them stay bounds.** -/
theorem bounds (toward : TowardZero x y) (neg : lo ≤ 0) (pos : 0 ≤ hi) (within : lo ≤ x ∧ x ≤ hi) :
    lo ≤ y ∧ y ≤ hi :=
  ⟨(le_min neg within.1).trans toward.1, toward.2.trans (max_le pos within.2)⟩

theorem trans (first : TowardZero x y) (second : TowardZero y z) : TowardZero x z :=
  second.bounds (min_le_left 0 x) (le_max_left 0 x) first

end Order

section Field

variable {R : Type} [Field R] [LinearOrder R] [IsStrictOrderedRing R]
  {d w t sum sum' weight lo hi : R}

/-- Damping moves toward zero. -/
theorem mul_right (d : R) (nonneg : 0 ≤ w) (small : w ≤ 1) : TowardZero d (d * w) := by
  rcases le_total 0 d with pos | neg
  · exact of_nonneg (mul_nonneg pos nonneg) (mul_le_of_le_one_right pos small)
  · refine of_nonpos (mul_nonpos_of_nonpos_of_nonneg neg nonneg) ?_
    nlinarith [mul_nonneg (neg_nonneg.mpr neg) (sub_nonneg.mpr small)]

/-- **One more term.** The weighted value and the new sum may both be moved toward zero. -/
theorem accumulate (neg : lo ≤ 0) (pos : 0 ≤ hi) (within : lo ≤ d ∧ d ≤ hi) (heavy : 0 ≤ w)
    (heavySum : 0 ≤ weight) (sumWithin : lo * weight ≤ sum ∧ sum ≤ hi * weight)
    (term : TowardZero (d * w) t) (added : TowardZero (sum + t) sum') :
    lo * (weight + w) ≤ sum' ∧ sum' ≤ hi * (weight + w) := by
  have termWithin : lo * w ≤ t ∧ t ≤ hi * w :=
    term.bounds (mul_nonpos_of_nonpos_of_nonneg neg heavy) (mul_nonneg pos heavy)
      ⟨mul_le_mul_of_nonneg_right within.1 heavy, mul_le_mul_of_nonneg_right within.2 heavy⟩
  have heavier : 0 ≤ weight + w := add_nonneg heavySum heavy
  refine added.bounds (mul_nonpos_of_nonpos_of_nonneg neg heavier) (mul_nonneg pos heavier) ?_
  rw [mul_add, mul_add]
  exact ⟨add_le_add sumWithin.1 termWithin.1, add_le_add sumWithin.2 termWithin.2⟩

/-- The average of what was accumulated. -/
theorem average (heavy : 0 < weight) (within : lo * weight ≤ sum ∧ sum ≤ hi * weight) :
    lo ≤ sum / weight ∧ sum / weight ≤ hi :=
  ⟨(le_div_iff₀ heavy).mpr within.1, (div_le_iff₀ heavy).mpr within.2⟩

end Field

end TowardZero

end Rtfsn
