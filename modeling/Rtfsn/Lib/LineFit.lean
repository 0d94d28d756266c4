/-
Fitting a line by weighted least squares.

* `cost`: the weighted squares of what a line misses. `cost_eq`: it is the cost of the line through
  the means of a slope that solves the normal equation, and what any other line misses of that one.
* `cost_le`: so that line has the least cost; `eq_of_cost_le`: where the positions are spread, no
  other has it.
* `BestLine`: the one line of least cost; `bestLine` finds it in spread positions. `eq_of_on_line`:
  data on a line are fitted by it.
* `weight_mul_spread`, `weight_mul_covariation`: the two centred sums, from sums about zero.
-/
import Mathlib.Algebra.BigOperators.Group.List.Basic
import Mathlib.Algebra.BigOperators.Ring.List
import Mathlib.Algebra.Order.BigOperators.Group.List
import Mathlib.Algebra.Order.Field.Basic
import Mathlib.Tactic.Linarith
import Mathlib.Tactic.LinearCombination
import Mathlib.Tactic.Ring

namespace Rtfsn.LineFit

/-- A value measured at a position. -/
structure Datum (K : Type) where
  weight : K
  position : K
  value : K

section Moments

variable {K : Type} [Field K]

/-- The weighted sum of the positions to the power `p`, times the values to the power `q`. -/
def moment (data : List (Datum K)) (p q : ℕ) : K :=
  (data.map fun d => d.weight * d.position ^ p * d.value ^ q).sum

/-- What the line `a + b t` costs. -/
def cost (data : List (Datum K)) (a b : K) : K :=
  (data.map fun d => d.weight * (d.value - a - b * d.position) ^ 2).sum

def meanPosition (data : List (Datum K)) : K := moment data 1 0 / moment data 0 0

def meanValue (data : List (Datum K)) : K := moment data 0 1 / moment data 0 0

/-- The weighted squares of the positions about their mean. -/
def spread (data : List (Datum K)) : K :=
  (data.map fun d => d.weight * (d.position - meanPosition data) ^ 2).sum

/-- The weighted products of positions and values about their means. -/
def covariation (data : List (Datum K)) : K :=
  (data.map fun d =>
    d.weight * (d.position - meanPosition data) * (d.value - meanValue data)).sum

/-- A quadratic function of a line, from the moments. -/
theorem cost_eq_moments (data : List (Datum K)) (a b : K) :
    cost data a b = moment data 0 2 - 2 * a * moment data 0 1 - 2 * b * moment data 1 1 +
      a ^ 2 * moment data 0 0 + 2 * a * b * moment data 1 0 + b ^ 2 * moment data 2 0 := by
  unfold cost moment
  induction data with
  | nil => simp
  | cons d data ih =>
    simp only [List.map_cons, List.sum_cons]
    rw [ih]
    ring

theorem sum_squares_about (data : List (Datum K)) (c : K) :
    (data.map fun d => d.weight * (d.position - c) ^ 2).sum =
      moment data 2 0 - 2 * c * moment data 1 0 + c ^ 2 * moment data 0 0 := by
  unfold moment
  induction data with
  | nil => simp
  | cons d data ih =>
    simp only [List.map_cons, List.sum_cons]
    rw [ih]
    ring

theorem sum_products_about (data : List (Datum K)) (c e : K) :
    (data.map fun d => d.weight * (d.position - c) * (d.value - e)).sum =
      moment data 1 1 - e * moment data 1 0 - c * moment data 0 1 + c * e * moment data 0 0 := by
  unfold moment
  induction data with
  | nil => simp
  | cons d data ih =>
    simp only [List.map_cons, List.sum_cons]
    rw [ih]
    ring

/-! ### The normal equation -/

variable {data : List (Datum K)} (weighty : moment data 0 0 ≠ 0)
include weighty

theorem weight_mul_meanPosition : moment data 0 0 * meanPosition data = moment data 1 0 :=
  mul_div_cancel₀ _ weighty

theorem weight_mul_meanValue : moment data 0 0 * meanValue data = moment data 0 1 :=
  mul_div_cancel₀ _ weighty

theorem weight_mul_spread :
    moment data 0 0 * spread data = moment data 0 0 * moment data 2 0 - moment data 1 0 ^ 2 := by
  rw [spread, sum_squares_about, ← weight_mul_meanPosition weighty]
  ring

theorem weight_mul_covariation :
    moment data 0 0 * covariation data =
      moment data 0 0 * moment data 1 1 - moment data 1 0 * moment data 0 1 := by
  rw [covariation, sum_products_about, ← weight_mul_meanPosition weighty,
    ← weight_mul_meanValue weighty]
  ring

/-- **The cost of any line**, where `slope` solves the normal equation. -/
theorem cost_eq {slope : K} (normal : slope * spread data = covariation data) (a b : K) :
    cost data a b = cost data (meanValue data - slope * meanPosition data) slope +
      (moment data 0 0 * (a + b * meanPosition data - meanValue data) ^ 2 +
        spread data * (b - slope) ^ 2) := by
  rw [spread, covariation, sum_squares_about, sum_products_about] at normal
  rw [cost_eq_moments, cost_eq_moments, spread, sum_squares_about]
  rw [← weight_mul_meanPosition weighty, ← weight_mul_meanValue weighty] at *
  linear_combination 2 * (b - slope) * normal

end Moments

section Order

variable {K : Type} [Field K] [LinearOrder K] [IsStrictOrderedRing K] {data : List (Datum K)}

/-- Every weight is positive. -/
def Weighted (data : List (Datum K)) : Prop := ∀ d ∈ data, 0 < d.weight

theorem Weighted.moment_pos (weighted : Weighted data) (some : data ≠ []) :
    0 < moment data 0 0 := by
  refine List.sum_pos _ (fun z listed => ?_) fun none => some (List.map_eq_nil_iff.mp none)
  obtain ⟨d, member, rfl⟩ := List.mem_map.mp listed
  simpa using weighted d member

theorem Weighted.squares_nonneg (weighted : Weighted data) (f : Datum K → K) :
    ∀ z ∈ data.map fun d => d.weight * f d ^ 2, 0 ≤ z := by
  intro z listed
  obtain ⟨d, member, rfl⟩ := List.mem_map.mp listed
  exact mul_nonneg (weighted d member).le (sq_nonneg _)

/-- Weighted squares that sum to nothing are all nothing. -/
theorem Weighted.eq_zero_of_sum (weighted : Weighted data) {f : Datum K → K}
    (none : (data.map fun d => d.weight * f d ^ 2).sum = 0) {d : Datum K} (member : d ∈ data) :
    f d = 0 := by
  have nonneg := weighted.squares_nonneg f
  have most := List.single_le_sum nonneg _ (List.mem_map_of_mem member)
  have least := nonneg _ (List.mem_map_of_mem member)
  have square : d.weight * f d ^ 2 = 0 := le_antisymm (most.trans none.le) least
  exact pow_eq_zero_iff two_ne_zero |>.mp
    ((mul_eq_zero.mp square).resolve_left (weighted d member).ne')

theorem Weighted.spread_nonneg (weighted : Weighted data) : 0 ≤ spread data :=
  List.sum_nonneg (weighted.squares_nonneg _)

theorem Weighted.cost_nonneg (weighted : Weighted data) (a b : K) : 0 ≤ cost data a b :=
  List.sum_nonneg (weighted.squares_nonneg _)

/-- Without spread all positions are the same. -/
theorem Weighted.position_eq (weighted : Weighted data) (together : spread data = 0) {d : Datum K}
    (member : d ∈ data) : d.position = meanPosition data :=
  sub_eq_zero.mp (weighted.eq_zero_of_sum together member)

theorem Weighted.spread_eq_zero_iff (weighted : Weighted data) :
    spread data = 0 ↔ ∀ d ∈ data, ∀ e ∈ data, d.position = e.position := by
  constructor
  · intro together d member e other
    rw [weighted.position_eq together member, weighted.position_eq together other]
  · intro same
    refine List.sum_eq_zero fun z listed => ?_
    obtain ⟨d, member, rfl⟩ := List.mem_map.mp listed
    have weighty := weighted.moment_pos (List.ne_nil_of_mem member)
    have first : moment data 1 0 = d.position * moment data 0 0 := by
      unfold moment
      rw [← List.sum_map_mul_left]
      refine congrArg List.sum (List.map_congr_left fun e other => ?_)
      rw [same e other d member]
      ring
    rw [meanPosition, first, mul_div_cancel_right₀ _ weighty.ne']
    ring

/-- Without spread any slope solves the normal equation. -/
theorem Weighted.covariation_eq_zero (weighted : Weighted data) (together : spread data = 0) :
    covariation data = 0 := by
  refine List.sum_eq_zero fun z listed => ?_
  obtain ⟨d, member, rfl⟩ := List.mem_map.mp listed
  rw [weighted.position_eq together member]
  ring

/-- No other line costs as little. -/
def BestLine (data : List (Datum K)) (a b : K) : Prop :=
  ∀ a' b', cost data a' b' ≤ cost data a b ↔ a' = a ∧ b' = b

variable (weighted : Weighted data) (some : data ≠ []) {slope : K}
  (normal : slope * spread data = covariation data)
include weighted some normal

/-- **The line through the means has the least cost.** -/
theorem cost_le (a b : K) :
    cost data (meanValue data - slope * meanPosition data) slope ≤ cost data a b := by
  have weighty := weighted.moment_pos some
  rw [cost_eq weighty.ne' normal a b]
  have first := mul_nonneg weighty.le (sq_nonneg (a + b * meanPosition data - meanValue data))
  have second := mul_nonneg weighted.spread_nonneg (sq_nonneg (b - slope))
  linarith

/-- **Where the positions are spread, no other line has it.** -/
theorem eq_of_cost_le (apart : 0 < spread data) {a b : K}
    (least : cost data a b ≤ cost data (meanValue data - slope * meanPosition data) slope) :
    a = meanValue data - slope * meanPosition data ∧ b = slope := by
  have weighty := weighted.moment_pos some
  rw [cost_eq weighty.ne' normal a b] at least
  have first := mul_nonneg weighty.le (sq_nonneg (a + b * meanPosition data - meanValue data))
  have second := mul_nonneg apart.le (sq_nonneg (b - slope))
  have sameSlope : b - slope = 0 := by
    have none : spread data * (b - slope) ^ 2 = 0 := by linarith
    exact pow_eq_zero_iff two_ne_zero |>.mp ((mul_eq_zero.mp none).resolve_left apart.ne')
  have sameMean : a + b * meanPosition data - meanValue data = 0 := by
    have none : moment data 0 0 * (a + b * meanPosition data - meanValue data) ^ 2 = 0 := by
      linarith
    exact pow_eq_zero_iff two_ne_zero |>.mp ((mul_eq_zero.mp none).resolve_left weighty.ne')
  obtain rfl := sub_eq_zero.mp sameSlope
  exact ⟨by linear_combination sameMean, rfl⟩

/-- **The one line of least cost** in spread positions. -/
theorem bestLine (apart : 0 < spread data) :
    BestLine data (meanValue data - slope * meanPosition data) slope := by
  intro a b
  constructor
  · exact eq_of_cost_le weighted some normal apart
  · rintro ⟨rfl, rfl⟩
    exact le_rfl

/-- **Data on a line are fitted by it.** -/
theorem eq_of_on_line (apart : 0 < spread data) {a b : K}
    (onLine : ∀ d ∈ data, d.value = a + b * d.position) :
    a = meanValue data - slope * meanPosition data ∧ b = slope := by
  refine eq_of_cost_le weighted some normal apart ?_
  have free : cost data a b = 0 := by
    refine List.sum_eq_zero fun z listed => ?_
    obtain ⟨d, member, rfl⟩ := List.mem_map.mp listed
    rw [onLine d member]
    ring
  exact free.trans_le (weighted.cost_nonneg _ _)

end Order

end Rtfsn.LineFit
