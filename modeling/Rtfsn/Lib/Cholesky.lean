/-
The Cholesky factor of a real matrix.

* `Lower.posDef`: a matrix with a factor whose diagonal does not vanish is positive definite.
* `pivot_pos`: the next pivot of a positive definite matrix is positive. With the rows above
  factored, some vector ends at the pivot and is orthogonal to the factored part, and the quadratic
  form at it is the pivot.
-/
import Mathlib

namespace Rtfsn.Cholesky

open Matrix

variable {n : ℕ}

/-- No entry above the diagonal. -/
def Lower (l : Matrix (Fin n) (Fin n) ℝ) : Prop := ∀ p q, p < q → l p q = 0

theorem Lower.blockTriangular {l : Matrix (Fin n) (Fin n) ℝ} (lower : Lower l) :
    l.BlockTriangular OrderDual.toDual := fun p q below => lower p q below

theorem Lower.isUnit {l : Matrix (Fin n) (Fin n) ℝ} (lower : Lower l)
    (diagonal : ∀ p, l p p ≠ 0) : IsUnit l := by
  rw [isUnit_iff_isUnit_det, det_of_isLowerTriangular l lower.blockTriangular, isUnit_iff_ne_zero,
    Finset.prod_ne_zero_iff]
  exact fun p _ => diagonal p

/-- **A product of a factor with its transpose is positive definite.** -/
theorem Lower.posDef {l : Matrix (Fin n) (Fin n) ℝ} (lower : Lower l)
    (diagonal : ∀ p, l p p ≠ 0) : (l * lᵀ).PosDef := by
  rw [← conjTranspose_eq_transpose_of_trivial]
  exact .mul_conjTranspose_self l (vecMul_injective_of_isUnit (lower.isUnit diagonal))

/-- A row of the product with the transpose stops at the shorter row. -/
theorem Lower.mul_transpose_apply {l : Matrix (Fin n) (Fin n) ℝ} (lower : Lower l) (p q : Fin n) :
    (l * lᵀ) p q = ∑ k with k < q, l p k * l q k + l p q * l q q := by
  have split : ∀ k, l p k * l q k =
      (if k < q then l p k * l q k else 0) + if k = q then l p q * l q q else 0 := by
    intro k
    rcases lt_trichotomy k q with before | rfl | after
    · simp [before, before.ne]
    · simp
    · simp [not_lt.mpr after.le, after.ne', lower q k after]
  simp only [Matrix.mul_apply, transpose_apply]
  rw [Finset.sum_congr rfl fun k _ => split k, Finset.sum_add_distrib, Finset.sum_ite_eq' _ q,
    if_pos (Finset.mem_univ q), Finset.sum_filter]

/-- A row of a product with a lower-triangular matrix stops at its diagonal. -/
theorem Lower.mulVec_apply {l : Matrix (Fin n) (Fin n) ℝ} (lower : Lower l) (x : Fin n → ℝ)
    (i : Fin n) : (l *ᵥ x) i = ∑ k with k < i, l i k * x k + l i i * x i := by
  have split : ∀ k, l i k * x k =
      (if k < i then l i k * x k else 0) + if k = i then l i i * x i else 0 := by
    intro k
    rcases lt_trichotomy k i with before | rfl | after
    · simp [before, before.ne]
    · simp
    · simp [not_lt.mpr after.le, after.ne', lower i k after]
  rw [mulVec, dotProduct, Finset.sum_congr rfl fun k _ => split k, Finset.sum_add_distrib,
    Finset.sum_ite_eq' _ i, if_pos (Finset.mem_univ i), Finset.sum_filter]

/-- A row of a product with its transpose starts at its diagonal. -/
theorem Lower.transpose_mulVec_apply {l : Matrix (Fin n) (Fin n) ℝ} (lower : Lower l)
    (x : Fin n → ℝ) (i : Fin n) :
    (lᵀ *ᵥ x) i = ∑ k with i < k, l k i * x k + l i i * x i := by
  have split : ∀ k, l k i * x k =
      (if i < k then l k i * x k else 0) + if k = i then l i i * x i else 0 := by
    intro k
    rcases lt_trichotomy k i with before | rfl | after
    · simp [not_lt.mpr before.le, before.ne, lower k i before]
    · simp
    · simp [after, after.ne']
  simp only [mulVec, dotProduct, transpose_apply]
  rw [Finset.sum_congr rfl fun k _ => split k, Finset.sum_add_distrib, Finset.sum_ite_eq' _ i,
    if_pos (Finset.mem_univ i), Finset.sum_filter]

/-- The rows before `i`, completed by unit rows. -/
def leading (l : Matrix (Fin n) (Fin n) ℝ) (i : Fin n) : Matrix (Fin n) (Fin n) ℝ :=
  fun p q => if p < i then l p q else if p = q then 1 else 0

theorem leading_isUnit {l : Matrix (Fin n) (Fin n) ℝ} (lower : Lower l) (i : Fin n)
    (diagonal : ∀ p < i, l p p ≠ 0) : IsUnit (leading l i) := by
  refine Lower.isUnit (fun p q below => ?_) fun p => ?_
  · by_cases row : p < i
    · simp [leading, row, lower p q below]
    · simp [leading, row, below.ne]
  · by_cases row : p < i
    · simpa [leading, row] using diagonal p row
    · simp [leading, row]

/-- A combination of the rows before `i` gives row `i`, when that row stops before its diagonal. -/
theorem exists_row_combination {l : Matrix (Fin n) (Fin n) ℝ} (lower : Lower l) (i : Fin n)
    (diagonal : ∀ p < i, l p p ≠ 0) (unwritten : l i i = 0) :
    ∃ u : Fin n → ℝ, (∀ p, i ≤ p → u p = 0) ∧ ∀ q, ∑ p, u p * l p q = l i q := by
  have unit := (isUnit_iff_isUnit_det _).mp (leading_isUnit lower i diagonal)
  obtain ⟨u, combines⟩ : ∃ u, u ᵥ* leading l i = l i :=
    ⟨l i ᵥ* (leading l i)⁻¹, by rw [vecMul_vecMul, nonsing_inv_mul _ unit, vecMul_one]⟩
  have vanishes : ∀ p, i ≤ p → u p = 0 := by
    intro p after
    have entry : (u ᵥ* leading l i) p = u p := by
      rw [vecMul, dotProduct, Finset.sum_eq_single p]
      · simp [leading, not_lt.mpr after]
      · intro q _ other
        by_cases row : q < i
        · simp [leading, row, lower q p (row.trans_le after)]
        · simp [leading, row, other]
      · simp
    rw [← entry, combines]
    rcases after.eq_or_lt with rfl | later
    · exact unwritten
    · exact lower i p later
  refine ⟨u, vanishes, fun q => ?_⟩
  rw [← congrFun combines q, vecMul, dotProduct]
  refine Finset.sum_congr rfl fun p _ => ?_
  by_cases row : p < i
  · simp [leading, row]
  · simp [vanishes p (not_lt.mp row)]

/-- **The next pivot is positive.** -/
theorem pivot_pos {a l : Matrix (Fin n) (Fin n) ℝ} (posDef : a.PosDef) (lower : Lower l) (i : Fin n)
    (diagonal : ∀ p < i, l p p ≠ 0) (unwritten : l i i = 0)
    (factored : ∀ p q, p ≤ i → q ≤ i → ¬ (p = i ∧ q = i) → (l * lᵀ) p q = a p q) :
    0 < a i i - (l * lᵀ) i i := by
  obtain ⟨u, vanishes, combines⟩ := exists_row_combination lower i diagonal unwritten
  let v : Fin n → ℝ := Pi.single i 1 - u
  have pivot : v i = 1 := by simp [v, vanishes i le_rfl]
  have beyond : ∀ p, i < p → v p = 0 := fun p after => by
    simp [v, vanishes p after.le, after.ne']
  have orthogonal : v ᵥ* l = 0 := by
    ext q
    simp only [v, sub_vecMul, single_one_vecMul, Pi.sub_apply, row_apply, Pi.zero_apply]
    rw [vecMul, dotProduct, combines q, sub_self]
  have factorForm : v ⬝ᵥ (l * lᵀ) *ᵥ v = 0 := by
    rw [dotProduct_mulVec, ← vecMul_vecMul, orthogonal, zero_vecMul, zero_dotProduct]
  -- Off the pivot, `a` and the factored part agree wherever the vector does not vanish.
  have rest : v ⬝ᵥ (a - l * lᵀ) *ᵥ v = a i i - (l * lᵀ) i i := by
    have off : ∀ p q, ¬ (p = i ∧ q = i) → v p * ((a - l * lᵀ) p q * v q) = 0 := by
      intro p q other
      rcases lt_or_ge i p with after | before
      · simp [beyond p after]
      · rcases lt_or_ge i q with after | before'
        · simp [beyond q after]
        · simp [factored p q before before' other]
    simp only [dotProduct, mulVec, Finset.mul_sum]
    rw [Finset.sum_eq_single i, Finset.sum_eq_single i]
    · simp [pivot]
    · exact fun q _ other => off i q fun both => other both.2
    · simp
    · exact fun p _ other => Finset.sum_eq_zero fun q _ => off p q fun both => other both.1
    · simp
  have nonzero : v ≠ 0 := fun zero => by
    rw [zero] at pivot
    exact zero_ne_one pivot
  have positive := posDef.dotProduct_mulVec_pos nonzero
  rw [star_trivial, ← sub_add_cancel a (l * lᵀ), add_mulVec, dotProduct_add, rest, factorForm,
    add_zero] at positive
  exact positive

end Rtfsn.Cholesky
