/-
Mean and variance of a list, and how many of its entries lie far out.

* `countP_mul_lt`: the inequality of Markov, for a list.
* `countP_far_lt`: that of Chebyshev: of any list, fewer than one in `k²` of the entries lie more
  than `k` standard deviations from the mean.
-/
import Mathlib.Analysis.Real.Sqrt

namespace Rtfsn.Dispersion

noncomputable def mean (xs : List ℝ) : ℝ := xs.sum / xs.length

noncomputable def variance (xs : List ℝ) : ℝ :=
  (xs.map fun x => (x - mean xs) ^ 2).sum / xs.length

section Markov

variable {A : Type} {p : A → Bool} {g : A → ℝ} {t : ℝ}

theorem countP_mul_le (nonneg : ∀ x, 0 ≤ g x) (above : ∀ x, p x = true → t < g x) (xs : List A) :
    xs.countP p * t ≤ (xs.map g).sum := by
  induction xs with
  | nil => simp
  | cons x xs ih =>
    rw [List.countP_cons, List.map_cons, List.sum_cons]
    by_cases far : p x = true
    · have more := above x far
      rw [if_pos far]
      push_cast
      linarith
    · have least := nonneg x
      rw [if_neg far, add_zero]
      linarith

/-- **Markov's inequality.** -/
theorem countP_mul_lt (nonneg : ∀ x, 0 ≤ g x) (above : ∀ x, p x = true → t < g x) {xs : List A}
    (some : 0 < xs.countP p) : xs.countP p * t < (xs.map g).sum := by
  obtain ⟨x, member, far⟩ := List.countP_pos_iff.mp some
  obtain ⟨before, after, rfl⟩ := List.append_of_mem member
  have first := countP_mul_le nonneg above before
  have second := countP_mul_le nonneg above after
  have more := above x far
  simp only [List.countP_append, List.countP_cons, if_pos far, List.map_append, List.map_cons,
    List.sum_append, List.sum_cons]
  push_cast
  linarith

end Markov

theorem variance_nonneg (xs : List ℝ) : 0 ≤ variance xs := by
  refine div_nonneg (List.sum_nonneg fun z listed => ?_) (Nat.cast_nonneg _)
  obtain ⟨x, _, rfl⟩ := List.mem_map.mp listed
  exact sq_nonneg _

/-- **Chebyshev's inequality.** -/
theorem countP_far_lt {xs : List ℝ} (some : xs ≠ []) {k : ℝ} (positive : 0 < k) :
    xs.countP (fun x => k * √(variance xs) < |x - mean xs|) * k ^ 2 < xs.length := by
  have many : (0 : ℝ) < xs.length := by exact_mod_cast List.length_pos_iff.mpr some
  rcases Nat.eq_zero_or_pos (xs.countP fun x => k * √(variance xs) < |x - mean xs|) with none | far
  · rw [none, Nat.cast_zero, zero_mul]
    exact many
  · have above : ∀ x, decide (k * √(variance xs) < |x - mean xs|) = true →
        k ^ 2 * variance xs < (x - mean xs) ^ 2 := by
      intro x out
      have squares := pow_lt_pow_left₀ (of_decide_eq_true out)
        (mul_nonneg positive.le (Real.sqrt_nonneg _)) two_ne_zero
      rwa [mul_pow, Real.sq_sqrt (variance_nonneg xs), sq_abs] at squares
    have markov := countP_mul_lt (fun x => sq_nonneg (x - mean xs)) above far
    have total : (xs.map fun x => (x - mean xs) ^ 2).sum = xs.length * variance xs := by
      rw [variance, mul_div_cancel₀ _ many.ne']
    rw [total, ← mul_assoc] at markov
    exact lt_of_mul_lt_mul_right markov (variance_nonneg xs)

end Rtfsn.Dispersion
