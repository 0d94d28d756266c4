/-
**Relaxation of a star**: a hub and its leaves draw near to one another.

In a turn the hub goes part of its way to the mean of the leaves, and every leaf the same part of
its way to the hub, each up to a `slack` (`Turn`).

* `Turn.gap`, `Turn.spread`: the hub's distance from the mean, and each leaf's, contract.
* `Turn.total`: hub and mean add up to what they did.
* `turns_near`, `turns_total`: over any number of turns.
-/
import Mathlib.Algebra.BigOperators.Field
import Mathlib.Algebra.Order.BigOperators.Group.Finset
import Mathlib.Analysis.SpecificLimits.Basic
import Mathlib.Tactic.FieldSimp
import Mathlib.Tactic.Linarith
import Mathlib.Tactic.Ring

namespace Rtfsn.Star

/-! ### Sequences that contract up to an allowance -/

/-- **A value that contracts, up to an allowance**, is near zero in the end. -/
theorem abs_le_of_contracts {x : ℕ → ℝ} {factor allowance : ℝ} (nonneg : 0 ≤ factor)
    (less : factor < 1) (allowed : 0 ≤ allowance) {n : ℕ}
    (contracts : ∀ k < n, |x (k + 1) - factor * x k| ≤ allowance) :
    |x n| ≤ factor ^ n * |x 0| + allowance / (1 - factor) := by
  have pos : 0 < 1 - factor := sub_pos.mpr less
  -- Above its limit the value shrinks by the factor.
  have shrinks : ∀ k < n, |x (k + 1)| - allowance / (1 - factor) ≤
      factor * (|x k| - allowance / (1 - factor)) := by
    intro k inside
    have next : |x (k + 1)| ≤ factor * |x k| + allowance := by
      have triangle := abs_sub_abs_le_abs_sub (x (k + 1)) (factor * x k)
      rw [abs_mul, abs_of_nonneg nonneg] at triangle
      linarith [contracts k inside]
    have limit : factor * (allowance / (1 - factor)) + allowance = allowance / (1 - factor) := by
      field_simp
      ring
    linarith
  have fell := le_geom (u := fun k => |x k| - allowance / (1 - factor)) nonneg n shrinks
  have rest : 0 ≤ factor ^ n * (allowance / (1 - factor)) := by positivity
  rw [mul_sub] at fell
  linarith

/-- A value that is kept, up to an allowance. -/
theorem abs_sub_le_of_keeps {x : ℕ → ℝ} {allowance : ℝ} {n : ℕ}
    (keeps : ∀ k < n, |x (k + 1) - x k| ≤ allowance) : |x n - x 0| ≤ n * allowance := by
  induction n with
  | zero => simp
  | succ n ih =>
    have before := ih fun k inside => keeps k (inside.trans (Nat.lt_succ_self n))
    have last := keeps n (Nat.lt_succ_self n)
    calc |x (n + 1) - x 0| = |(x (n + 1) - x n) + (x n - x 0)| := by rw [sub_add_sub_cancel]
      _ ≤ allowance + n * allowance := (abs_add_le _ _).trans (add_le_add last before)
      _ = (n + 1 : ℕ) * allowance := by
        push_cast
        ring

/-! ### The mean of the leaves -/

variable {ι : Type} {s : Finset ι}

noncomputable def mean (s : Finset ι) (leaf : ι → ℝ) : ℝ := (∑ i ∈ s, leaf i) / s.card

theorem mean_add (leaf leaf' : ι → ℝ) :
    mean s (fun i => leaf i + leaf' i) = mean s leaf + mean s leaf' := by
  unfold mean
  rw [Finset.sum_add_distrib, add_div]

theorem mean_mul (c : ℝ) (leaf : ι → ℝ) : mean s (fun i => c * leaf i) = c * mean s leaf := by
  unfold mean
  rw [← Finset.mul_sum, mul_div_assoc]

theorem mean_const (some : s.Nonempty) (c : ℝ) : mean s (fun _ => c) = c := by
  have pos : (0 : ℝ) < s.card := by exact_mod_cast some.card_pos
  unfold mean
  rw [Finset.sum_const, nsmul_eq_mul]
  field_simp

theorem mean_image {κ : Type} [DecidableEq κ] {f : ι → κ} (injective : Function.Injective f)
    (leaf : κ → ℝ) : mean (s.image f) leaf = mean s (fun i => leaf (f i)) := by
  unfold mean
  rw [Finset.sum_image injective.injOn, Finset.card_image_of_injective s injective]

theorem abs_mean_sub_le (some : s.Nonempty) {leaf leaf' : ι → ℝ} {bound : ℝ}
    (near : ∀ i ∈ s, |leaf i - leaf' i| ≤ bound) : |mean s leaf - mean s leaf'| ≤ bound := by
  have pos : (0 : ℝ) < s.card := by exact_mod_cast some.card_pos
  unfold mean
  rw [← sub_div, ← Finset.sum_sub_distrib, abs_div, abs_of_pos pos, div_le_iff₀ pos]
  calc |∑ i ∈ s, (leaf i - leaf' i)| ≤ ∑ i ∈ s, |leaf i - leaf' i| :=
        Finset.abs_sum_le_sum_abs _ _
    _ ≤ s.card • bound := Finset.sum_le_card_nsmul _ _ _ near
    _ = bound * s.card := by rw [nsmul_eq_mul, mul_comm]

/-! ### One turn -/

/-- Hub and leaves go part of their way, up to the slack. -/
structure Turn (s : Finset ι) (part slack hub hub' : ℝ) (leaf leaf' : ι → ℝ) : Prop where
  ofHub : |hub' - (hub + part * (mean s leaf - hub))| ≤ slack
  ofLeaf : ∀ i ∈ s, |leaf' i - (leaf i + part * (hub - leaf i))| ≤ slack

section Turn

variable {part slack hub hub' : ℝ} {leaf leaf' : ι → ℝ}

/-- The mean goes its way as a leaf does. -/
theorem Turn.ofMean (turn : Turn s part slack hub hub' leaf leaf') (some : s.Nonempty) :
    |mean s leaf' - (mean s leaf + part * (hub - mean s leaf))| ≤ slack := by
  have moved : mean s (fun i => leaf i + part * (hub - leaf i)) =
      mean s leaf + part * (hub - mean s leaf) := by
    have split : (fun i => leaf i + part * (hub - leaf i)) =
        fun i => (1 - part) * leaf i + part * hub := by
      funext i
      ring
    rw [split, mean_add, mean_mul, mean_const some]
    ring
  rw [← moved]
  exact abs_mean_sub_le some turn.ofLeaf

/-- **The hub's distance from the mean contracts.** -/
theorem Turn.gap (turn : Turn s part slack hub hub' leaf leaf') (some : s.Nonempty) :
    |mean s leaf' - hub' - (1 - 2 * part) * (mean s leaf - hub)| ≤ 2 * slack := by
  have split : mean s leaf' - hub' - (1 - 2 * part) * (mean s leaf - hub) =
      (mean s leaf' - (mean s leaf + part * (hub - mean s leaf))) -
        (hub' - (hub + part * (mean s leaf - hub))) := by
    ring
  rw [split]
  linarith [abs_sub (mean s leaf' - (mean s leaf + part * (hub - mean s leaf)))
    (hub' - (hub + part * (mean s leaf - hub))), turn.ofMean some, turn.ofHub]

/-- **A leaf's distance from the mean contracts.** -/
theorem Turn.spread (turn : Turn s part slack hub hub' leaf leaf') {i : ι} (listed : i ∈ s) :
    |leaf' i - mean s leaf' - (1 - part) * (leaf i - mean s leaf)| ≤ 2 * slack := by
  have split : leaf' i - mean s leaf' - (1 - part) * (leaf i - mean s leaf) =
      (leaf' i - (leaf i + part * (hub - leaf i))) -
        (mean s leaf' - (mean s leaf + part * (hub - mean s leaf))) := by
    ring
  rw [split]
  linarith [abs_sub (leaf' i - (leaf i + part * (hub - leaf i)))
    (mean s leaf' - (mean s leaf + part * (hub - mean s leaf))), turn.ofMean ⟨i, listed⟩,
    turn.ofLeaf i listed]

/-- **Hub and mean add up to what they did.** -/
theorem Turn.total (turn : Turn s part slack hub hub' leaf leaf') (some : s.Nonempty) :
    |mean s leaf' + hub' - (mean s leaf + hub)| ≤ 2 * slack := by
  have split : mean s leaf' + hub' - (mean s leaf + hub) =
      (mean s leaf' - (mean s leaf + part * (hub - mean s leaf))) +
        (hub' - (hub + part * (mean s leaf - hub))) := by
    ring
  rw [split]
  exact (abs_add_le _ _).trans (by linarith [turn.ofMean some, turn.ofHub])

end Turn

/-! ### Any number of turns -/

section Turns

variable {part slack : ℝ} {hub : ℕ → ℝ} {leaf : ℕ → ι → ℝ} {n : ℕ}

/-- **The leaves draw near to the hub.** -/
theorem turns_near (positive : 0 < part) (half : 2 * part ≤ 1) (allowed : 0 ≤ slack)
    (turns : ∀ k < n, Turn s part slack (hub k) (hub (k + 1)) (leaf k) (leaf (k + 1))) {i : ι}
    (listed : i ∈ s) :
    |leaf n i - hub n| ≤ (1 - part) ^ n * (|leaf 0 i - mean s (leaf 0)| +
      |mean s (leaf 0) - hub 0|) + 3 * slack / part := by
  have gap := abs_le_of_contracts (x := fun k => mean s (leaf k) - hub k) (sub_nonneg.mpr half)
    (by linarith) (mul_nonneg two_pos.le allowed)
    fun k inside => (turns k inside).gap ⟨i, listed⟩
  have spread := abs_le_of_contracts (x := fun k => leaf k i - mean s (leaf k))
    (by linarith : (0 : ℝ) ≤ 1 - part) (by linarith) (mul_nonneg two_pos.le allowed)
    fun k inside => (turns k inside).spread listed
  have faster : (1 - 2 * part) ^ n * |mean s (leaf 0) - hub 0| ≤
      (1 - part) ^ n * |mean s (leaf 0) - hub 0| :=
    mul_le_mul_of_nonneg_right (pow_le_pow_left₀ (sub_nonneg.mpr half) (by linarith) n)
      (abs_nonneg _)
  have slacks : 2 * slack / (1 - (1 - 2 * part)) + 2 * slack / (1 - (1 - part)) =
      3 * slack / part := by
    rw [sub_sub_cancel, sub_sub_cancel]
    field_simp
    ring
  calc |leaf n i - hub n| = |(leaf n i - mean s (leaf n)) + (mean s (leaf n) - hub n)| := by
        rw [sub_add_sub_cancel]
    _ ≤ |leaf n i - mean s (leaf n)| + |mean s (leaf n) - hub n| := abs_add_le _ _
    _ ≤ _ := by linarith

/-- **Hub and mean add up to what they did at first.** -/
theorem turns_total (some : s.Nonempty)
    (turns : ∀ k < n, Turn s part slack (hub k) (hub (k + 1)) (leaf k) (leaf (k + 1))) :
    |mean s (leaf n) + hub n - (mean s (leaf 0) + hub 0)| ≤ n * (2 * slack) :=
  abs_sub_le_of_keeps (x := fun k => mean s (leaf k) + hub k) fun k inside =>
    (turns k inside).total some

end Turns

end Rtfsn.Star
