/-
Weighted least squares for node values from measured differences.

* `Balanced`: the normal equations, one for each node: the weighted misfits of the measurements into
  a node cancel those of the measurements out of it.
* `sum_mul_inflow`: summation by parts. With it the normal equation at one node follows from the
  others (`Balanced.of_others`), and two solutions on a connected set differ by a constant
  (`Balanced.sub_eq_sub`).
* `Balanced.cost_le`, `Balanced.sub_eq_sub_of_cost_le`: a solution of the normal equations has the
  least cost, and on a connected set only its shifts have it.
* `form_pos`: with one node of a connected set held at zero, the quadratic form is positive.
* `Balanced.spread_le`: a solution of measurements that are all at most `ε` from zero spreads over
  at most `ε` for each node but one, whatever the graph and the weights.
-/
import Mathlib

set_option linter.unusedSectionVars false

namespace Rtfsn.LeastSquares

/-- One weighted measurement of `x dst - x src`. -/
structure Measurement (ι : Type) where
  src : ι
  dst : ι
  value : ℝ
  weight : ℝ

variable {ι : Type} [Fintype ι] [DecidableEq ι] {obs : List (Measurement ι)} {x y : ι → ℝ}
  {s : Finset ι}

namespace Measurement

/-- How far the difference of the node values is from the measured one. -/
def misfit (o : Measurement ι) (x : ι → ℝ) : ℝ := x o.dst - x o.src - o.value

/-- `1` at the destination and `-1` at the source. -/
def incidence (o : Measurement ι) (i : ι) : ℝ :=
  (if o.dst = i then 1 else 0) - if o.src = i then 1 else 0

theorem sum_mul_incidence (o : Measurement ι) (z : ι → ℝ) :
    ∑ i, z i * o.incidence i = z o.dst - z o.src := by
  simp [incidence, mul_sub]

/-- The measurement joins two nodes, in either direction. -/
def Joins (o : Measurement ι) (i j : ι) : Prop :=
  (o.src = i ∧ o.dst = j) ∨ (o.src = j ∧ o.dst = i)

end Measurement

/-! ### The normal equations -/

/-- The weighted misfit of the measurements into a node, less that of those out of it. -/
def inflow (obs : List (Measurement ι)) (x : ι → ℝ) (i : ι) : ℝ :=
  (obs.map fun o => o.weight * o.misfit x * o.incidence i).sum

/-- The normal equations. -/
def Balanced (obs : List (Measurement ι)) (x : ι → ℝ) : Prop := ∀ i, inflow obs x i = 0

/-- Every weight is positive. -/
def Weighted (obs : List (Measurement ι)) : Prop := ∀ o ∈ obs, 0 < o.weight

/-- **Summation by parts.** -/
theorem sum_mul_inflow (obs : List (Measurement ι)) (x z : ι → ℝ) :
    ∑ i, z i * inflow obs x i =
      (obs.map fun o => o.weight * o.misfit x * (z o.dst - z o.src)).sum := by
  induction obs with
  | nil => simp [inflow]
  | cons o obs ih =>
    have first : ∑ i, z i * (o.weight * o.misfit x * o.incidence i) =
        o.weight * o.misfit x * (z o.dst - z o.src) := by
      rw [← o.sum_mul_incidence z, Finset.mul_sum]
      exact Finset.sum_congr rfl fun i _ => by ring
    simp only [inflow, List.map_cons, List.sum_cons] at ih ⊢
    simp only [mul_add, Finset.sum_add_distrib]
    rw [first, ih]

/-- The normal equation at one node follows from the others. -/
theorem Balanced.of_others (r : ι) (others : ∀ i, i ≠ r → inflow obs x i = 0) :
    Balanced obs x := by
  have total : ∑ i, inflow obs x i = 0 := by
    simpa using sum_mul_inflow obs x fun _ => 1
  intro i
  rcases eq_or_ne i r with rfl | other
  · rwa [Finset.sum_eq_single i (fun j _ other => others j other) (by simp)] at total
  · exact others i other

/-- The normal equations read the misfits only. -/
theorem Balanced.map_congr {P : Type} {l : List P} {f g : P → Measurement ι}
    (balanced : Balanced (l.map f) x)
    (same : ∀ p ∈ l, (f p).src = (g p).src ∧ (f p).dst = (g p).dst ∧ (f p).weight = (g p).weight ∧
      (f p).misfit x = (g p).misfit y) :
    Balanced (l.map g) y := by
  intro i
  rw [← balanced i]
  simp only [inflow, List.map_map]
  refine congrArg List.sum (List.map_congr_left fun p member => ?_)
  obtain ⟨src, dst, weight, misfit⟩ := same p member
  simp only [Function.comp, Measurement.incidence, src, dst, weight, misfit]

/-! ### Connected sets -/

/-- The measurements stay inside the set, and no cut of the set is without one. -/
structure Spans (obs : List (Measurement ι)) (s : Finset ι) : Prop where
  inside : ∀ o ∈ obs, o.src ∈ s ∧ o.dst ∈ s
  crossing : ∀ t ⊆ s, t.Nonempty → t ≠ s →
    ∃ o ∈ obs, (o.src ∈ t ∧ o.dst ∉ t) ∨ (o.src ∉ t ∧ o.dst ∈ t)

/-- A set whose nodes are all reached from one of them is connected. -/
theorem Spans.of_reachable {r : ι} (inside : ∀ o ∈ obs, o.src ∈ s ∧ o.dst ∈ s)
    (reached : ∀ i ∈ s, Relation.ReflTransGen (fun i j => ∃ o ∈ obs, o.Joins i j) r i) :
    Spans obs s := by
  refine ⟨inside, fun t sub nonempty proper => ?_⟩
  by_contra uncrossed
  have closed : ∀ i, Relation.ReflTransGen (fun i j => ∃ o ∈ obs, o.Joins i j) r i →
      (r ∈ t ↔ i ∈ t) := by
    intro i path
    induction path with
    | refl => rfl
    | tail _ step ih =>
      rw [ih]
      obtain ⟨o, member, ⟨rfl, rfl⟩ | ⟨rfl, rfl⟩⟩ := step
      · by_contra split
        exact uncrossed ⟨o, member, by tauto⟩
      · by_contra split
        exact uncrossed ⟨o, member, by tauto⟩
  obtain ⟨i, member⟩ := nonempty
  have all : r ∈ t := (closed i (reached i (sub member))).mpr member
  exact proper (Finset.Subset.antisymm sub fun j member => (closed j (reached j member)).mp all)

/-- Values that agree along every measurement agree on a connected set. -/
theorem Spans.eq_of_agree (spans : Spans obs s) {d : ι → ℝ}
    (agree : ∀ o ∈ obs, d o.dst = d o.src) {i j : ι} (first : i ∈ s) (second : j ∈ s) :
    d i = d j := by
  have level : s.filter (fun k => d k = d i) = s := by
    by_contra proper
    obtain ⟨o, member, crossed⟩ := spans.crossing _
      (Finset.filter_subset (fun k => d k = d i) s) ⟨i, Finset.mem_filter.mpr ⟨first, rfl⟩⟩ proper
    obtain ⟨src, dst⟩ := spans.inside o member
    simp only [Finset.mem_filter, src, dst, true_and, agree o member] at crossed
    tauto
  rw [← level, Finset.mem_filter] at second
  exact second.2.symm

/-! ### Uniqueness -/

theorem form_nonneg (weighted : Weighted obs) (d : ι → ℝ) :
    0 ≤ (obs.map fun o => o.weight * (d o.dst - d o.src) ^ 2).sum := by
  refine List.sum_nonneg fun term inside => ?_
  obtain ⟨o, member, rfl⟩ := List.mem_map.mp inside
  exact mul_nonneg (weighted o member).le (sq_nonneg _)

/-- A sum of weighted squares that vanishes, vanishes along every measurement. -/
theorem agree_of_form_eq_zero (weighted : Weighted obs) {d : ι → ℝ}
    (zero : (obs.map fun o => o.weight * (d o.dst - d o.src) ^ 2).sum = 0) :
    ∀ o ∈ obs, d o.dst = d o.src := by
  intro o member
  have nonneg : ∀ term ∈ obs.map fun o => o.weight * (d o.dst - d o.src) ^ 2, 0 ≤ term := by
    intro term inside
    obtain ⟨o', member', rfl⟩ := List.mem_map.mp inside
    exact mul_nonneg (weighted o' member').le (sq_nonneg _)
  have term := List.all_zero_of_le_zero_le_of_sum_eq_zero nonneg zero
    (List.mem_map.mpr ⟨o, member, rfl⟩)
  rcases mul_eq_zero.mp term with weight | square
  · exact absurd weight (weighted o member).ne'
  · exact sub_eq_zero.mp (pow_eq_zero_iff two_ne_zero |>.mp square)

/-- **Two solutions on a connected set differ by a constant.** -/
theorem Balanced.sub_eq_sub (balanced : Balanced obs x) (balanced' : Balanced obs y)
    (weighted : Weighted obs) (spans : Spans obs s) {i j : ι} (first : i ∈ s) (second : j ∈ s) :
    x i - x j = y i - y j := by
  let d : ι → ℝ := fun k => x k - y k
  have parts := sum_mul_inflow obs x d
  have parts' := sum_mul_inflow obs y d
  simp only [balanced _, balanced' _, mul_zero, Finset.sum_const_zero] at parts parts'
  have energy : (obs.map fun o => o.weight * (d o.dst - d o.src) ^ 2).sum = 0 := by
    have split : ∀ o : Measurement ι, o.weight * o.misfit x * (d o.dst - d o.src) =
        o.weight * (d o.dst - d o.src) ^ 2 + o.weight * o.misfit y * (d o.dst - d o.src) := by
      intro o
      simp only [d, Measurement.misfit]
      ring
    simp only [split] at parts
    rw [List.sum_map_add, ← parts', add_zero] at parts
    exact parts.symm
  have agree := spans.eq_of_agree (agree_of_form_eq_zero weighted energy) first second
  simp only [d] at agree
  linarith

/-- **With one node held at zero the quadratic form is positive.** -/
theorem form_pos (weighted : Weighted obs) (spans : Spans obs s) {r : ι} (root : r ∈ s)
    {z : ι → ℝ} (held : z r = 0) {i : ι} (member : i ∈ s) (nonzero : z i ≠ 0) :
    0 < (obs.map fun o => o.weight * (z o.dst - z o.src) ^ 2).sum := by
  refine lt_of_le_of_ne (form_nonneg weighted z) fun zero => nonzero ?_
  rw [spans.eq_of_agree (agree_of_form_eq_zero weighted zero.symm) member root, held]

/-! ### The least cost -/

/-- The weighted squares of the misfits. -/
def cost (obs : List (Measurement ι)) (x : ι → ℝ) : ℝ :=
  (obs.map fun o => o.weight * o.misfit x ^ 2).sum

/-- What a vector costs more than a solution is the quadratic form of their difference. -/
theorem Balanced.cost_eq (balanced : Balanced obs x) (y : ι → ℝ) :
    cost obs y = cost obs x +
      (obs.map fun o => o.weight * ((y o.dst - x o.dst) - (y o.src - x o.src)) ^ 2).sum := by
  have parts := sum_mul_inflow obs x fun i => y i - x i
  simp only [balanced _, mul_zero, Finset.sum_const_zero] at parts
  have square : ∀ o : Measurement ι, o.weight * o.misfit y ^ 2 =
      o.weight * o.misfit x ^ 2 +
        o.weight * ((y o.dst - x o.dst) - (y o.src - x o.src)) ^ 2 +
        2 * (o.weight * o.misfit x * ((y o.dst - x o.dst) - (y o.src - x o.src))) := by
    intro o
    unfold Measurement.misfit
    ring
  simp only [cost, square]
  rw [List.sum_map_add, List.sum_map_add, List.sum_map_mul_left, ← parts, mul_zero, add_zero]

/-- **A solution of the normal equations has the least cost.** -/
theorem Balanced.cost_le (balanced : Balanced obs x) (weighted : Weighted obs) (y : ι → ℝ) :
    cost obs x ≤ cost obs y := by
  rw [balanced.cost_eq y]
  exact le_add_of_nonneg_right (form_nonneg weighted fun i => y i - x i)

/-- **On a connected set only the shifts of a solution have the least cost.** -/
theorem Balanced.sub_eq_sub_of_cost_le (balanced : Balanced obs x) (weighted : Weighted obs)
    (spans : Spans obs s) (least : cost obs y ≤ cost obs x) {i j : ι} (first : i ∈ s)
    (second : j ∈ s) : y i - y j = x i - x j := by
  let d : ι → ℝ := fun k => y k - x k
  rw [balanced.cost_eq y] at least
  have zero : (obs.map fun o => o.weight * (d o.dst - d o.src) ^ 2).sum = 0 :=
    le_antisymm ((add_le_iff_nonpos_right _).mp least) (form_nonneg weighted d)
  have agree := spans.eq_of_agree (agree_of_form_eq_zero weighted zero) first second
  simp only [d] at agree
  linarith

/-! ### The Laplacian -/

/-- The weighted Laplacian of the measurements, parallel ones and loops included. -/
def laplacian (obs : List (Measurement ι)) : Matrix ι ι ℝ :=
  Matrix.of fun i j => (obs.map fun o => o.weight * o.incidence i * o.incidence j).sum

/-! ### How far a solution spreads -/

/-- Across every cut some measurement is as small as its value allows. -/
theorem Balanced.exists_gap_le (balanced : Balanced obs x) (weighted : Weighted obs)
    (spans : Spans obs s) {ε : ℝ} (small : ∀ o ∈ obs, |o.value| ≤ ε) {t : Finset ι} (sub : t ⊆ s)
    (nonempty : t.Nonempty) (proper : t ≠ s) :
    ∃ i ∈ t, ∃ j ∈ s, j ∉ t ∧ x j - x i ≤ ε := by
  by_contra wide
  have gap : ∀ i ∈ t, ∀ j ∈ s, j ∉ t → ε < x j - x i := fun i first j second outside =>
    not_le.mp fun near => wide ⟨i, first, j, second, outside, near⟩
  let z : ι → ℝ := fun i => if i ∈ t then 0 else 1
  have parts := sum_mul_inflow obs x z
  simp only [balanced _, mul_zero, Finset.sum_const_zero] at parts
  have term : ∀ o ∈ obs, 0 ≤ o.weight * o.misfit x * (z o.dst - z o.src) ∧
      ((o.src ∈ t ∧ o.dst ∉ t) ∨ (o.src ∉ t ∧ o.dst ∈ t) →
        0 < o.weight * o.misfit x * (z o.dst - z o.src)) := by
    intro o member
    obtain ⟨src, dst⟩ := spans.inside o member
    have bound := abs_le.mp (small o member)
    have weight := weighted o member
    by_cases low : o.src ∈ t <;> by_cases high : o.dst ∈ t
    · simp [z, low, high]
    · have far := gap _ low _ dst high
      have positive : 0 < o.misfit x := by
        unfold Measurement.misfit
        linarith
      simpa [z, low, high] using ⟨(mul_pos weight positive).le, mul_pos weight positive⟩
    · have far := gap _ high _ src low
      have negative : 0 < -o.misfit x := by
        unfold Measurement.misfit
        linarith
      have positive := mul_pos weight negative
      simp only [z, low, high, if_true, if_false]
      exact ⟨by linarith, fun _ => by linarith⟩
    · simp [z, low, high]
  obtain ⟨o, member, crossed⟩ := spans.crossing t sub nonempty proper
  have vanishes := List.all_zero_of_le_zero_le_of_sum_eq_zero
    (fun value inside => by
      obtain ⟨o', member', rfl⟩ := List.mem_map.mp inside
      exact (term o' member').1) parts.symm (List.mem_map.mpr ⟨o, member, rfl⟩)
  exact absurd vanishes ((term o member).2 crossed).ne'

/-- A node is above every other by at most `ε` for each node below it. -/
theorem Balanced.above_le (balanced : Balanced obs x) (weighted : Weighted obs)
    (spans : Spans obs s) {ε : ℝ} (small : ∀ o ∈ obs, |o.value| ≤ ε) {i : ι} (member : i ∈ s)
    {j : ι} (other : j ∈ s) : x i - x j ≤ (s.filter fun k => x k < x i).card * ε := by
  by_cases lowest : ∃ k ∈ s, x k < x i
  · obtain ⟨k, lower, below⟩ := lowest
    obtain ⟨u, first, v, second, outside, near⟩ := balanced.exists_gap_le weighted spans small
      (Finset.filter_subset (fun k => x k < x i) s) ⟨k, Finset.mem_filter.mpr ⟨lower, below⟩⟩
      fun all => by
        have self : i ∈ s.filter fun k => x k < x i := all.symm ▸ member
        exact lt_irrefl _ (Finset.mem_filter.mp self).2
    rw [Finset.mem_filter] at first outside
    have reach : x i ≤ x v := not_lt.mp fun under => outside ⟨second, under⟩
    have smaller : (s.filter fun k => x k < x u).card < (s.filter fun k => x k < x i).card := by
      refine Finset.card_lt_card ((Finset.ssubset_iff_of_subset fun k inside => ?_).mpr
        ⟨u, Finset.mem_filter.mpr first, fun self => lt_irrefl _ (Finset.mem_filter.mp self).2⟩)
      rw [Finset.mem_filter] at inside ⊢
      exact ⟨inside.1, inside.2.trans first.2⟩
    have rest := balanced.above_le weighted spans small first.1 other
    have nonneg : 0 ≤ ε := by linarith [first.2]
    have count : ((s.filter fun k => x k < x u).card + 1 : ℝ) ≤
        (s.filter fun k => x k < x i).card := by exact_mod_cast smaller
    calc x i - x j ≤ (x u - x j) + ε := by linarith
      _ ≤ ((s.filter fun k => x k < x u).card + 1) * ε := by linarith
      _ ≤ (s.filter fun k => x k < x i).card * ε := mul_le_mul_of_nonneg_right count nonneg
  · have none : s.filter (fun k => x k < x i) = ∅ :=
      Finset.filter_eq_empty_iff.mpr fun k inside below => lowest ⟨k, inside, below⟩
    have under : x i ≤ x j := not_lt.mp fun below => lowest ⟨j, other, below⟩
    rw [none]
    simpa using under
termination_by (s.filter fun k => x k < x i).card

/-- **A solution of measurements near zero stays near a constant**, for every graph and every
weighting: `ε` for each node but one. -/
theorem Balanced.spread_le (balanced : Balanced obs x) (weighted : Weighted obs)
    (spans : Spans obs s) {ε : ℝ} (nonneg : 0 ≤ ε) (small : ∀ o ∈ obs, |o.value| ≤ ε) {i j : ι}
    (first : i ∈ s) (second : j ∈ s) : |x i - x j| ≤ (s.card - 1) * ε := by
  have above : ∀ {i j : ι}, i ∈ s → j ∈ s → x i - x j ≤ (s.card - 1) * ε := by
    intro i j member other
    have fewer : (s.filter fun k => x k < x i).card < s.card :=
      Finset.card_lt_card ((Finset.ssubset_iff_of_subset (Finset.filter_subset _ _)).mpr
        ⟨i, member, fun self => lt_irrefl _ (Finset.mem_filter.mp self).2⟩)
    have count : ((s.filter fun k => x k < x i).card : ℝ) ≤ s.card - 1 := by
      have cast : ((s.filter fun k => x k < x i).card + 1 : ℝ) ≤ s.card := by exact_mod_cast fewer
      linarith
    exact (balanced.above_le weighted spans small member other).trans
      (mul_le_mul_of_nonneg_right count nonneg)
  rw [abs_le]
  exact ⟨by linarith [above second first], above first second⟩

end Rtfsn.LeastSquares
