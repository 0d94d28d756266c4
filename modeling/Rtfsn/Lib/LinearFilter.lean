/-
**Linear filtering without process noise is least squares.**

A state in `ι → ℝ` moves by invertible matrices and is read through rows with independent errors.

* `mahalanobis_move`, `mahalanobis_absorb`: how the squared distance of an estimate changes when
  the state moves, and when one reading is absorbed (the Sherman-Morrison step `inv_absorb`).
* `batchCost_eq`: over any list of readings, the whole cost (prior plus readings) is the squared
  distance of the recursive estimate plus a constant.
* `information_eq`: the covariance of the recursive estimate inverts the information matrix.
-/
import Mathlib

namespace Rtfsn.LinearFilter

open Matrix

variable {ι : Type} [Fintype ι] [DecidableEq ι]

/-- An estimate of the state: its mean and covariance. -/
structure Estimate (ι : Type) where
  mean : ι → ℝ
  covariance : Matrix ι ι ℝ

/-- A reading: how the state moved since the one before, and the row it is read through. -/
structure Reading (ι : Type) where
  transition : Matrix ι ι ℝ
  row : ι → ℝ
  value : ℝ
  variance : ℝ

/-- A reading that can be absorbed: the move is invertible and the error has positive variance. -/
structure Reading.Regular (m : Reading ι) : Prop where
  invertible : IsUnit m.transition
  variance_pos : 0 < m.variance

/-- The squared distance of a state from an estimate, in the estimate's own covariance. -/
noncomputable def mahalanobis (e : Estimate ι) (s : ι → ℝ) : ℝ :=
  (s - e.mean) ⬝ᵥ e.covariance⁻¹ *ᵥ (s - e.mean)

/-- The estimate after the state has moved. -/
def Estimate.move (e : Estimate ι) (step : Matrix ι ι ℝ) : Estimate ι where
  mean := step *ᵥ e.mean
  covariance := step * e.covariance * stepᵀ

/-- The variance of the prediction of a reading. -/
def innovationVariance (e : Estimate ι) (row : ι → ℝ) (variance : ℝ) : ℝ :=
  row ⬝ᵥ e.covariance *ᵥ row + variance

/-- The estimate after one reading of the present state. -/
noncomputable def Estimate.absorb (e : Estimate ι) (row : ι → ℝ) (value variance : ℝ) :
    Estimate ι where
  mean := e.mean + ((value - row ⬝ᵥ e.mean) / innovationVariance e row variance) •
    e.covariance *ᵥ row
  covariance := e.covariance - (innovationVariance e row variance)⁻¹ •
    vecMulVec (e.covariance *ᵥ row) (e.covariance *ᵥ row)

/-! ### Moving the state -/

theorem posDef_move {e : Estimate ι} (posDef : e.covariance.PosDef) {step : Matrix ι ι ℝ}
    (invertible : IsUnit step) : (e.move step).covariance.PosDef := by
  have conjugate :=
    (IsUnit.posDef_star_right_conjugate_iff (x := e.covariance) invertible).mpr posDef
  simpa [Estimate.move, star_eq_conjTranspose] using conjugate

theorem inv_move (e : Estimate ι) (step : Matrix ι ι ℝ) :
    (e.move step).covariance⁻¹ = (step⁻¹)ᵀ * e.covariance⁻¹ * step⁻¹ := by
  simp only [Estimate.move, Matrix.mul_inv_rev, transpose_nonsing_inv, Matrix.mul_assoc]

/-- **Moving an estimate and the state together keeps their distance.** -/
theorem mahalanobis_move (e : Estimate ι) {step : Matrix ι ι ℝ} (invertible : IsUnit step)
    (s : ι → ℝ) : mahalanobis (e.move step) s = mahalanobis e (step⁻¹ *ᵥ s) := by
  have det : IsUnit step.det := (isUnit_iff_isUnit_det step).mp invertible
  have back : step⁻¹ *ᵥ (s - step *ᵥ e.mean) = step⁻¹ *ᵥ s - e.mean := by
    rw [mulVec_sub, mulVec_mulVec, nonsing_inv_mul step det, one_mulVec]
  unfold mahalanobis
  rw [inv_move, Matrix.mul_assoc, ← mulVec_mulVec, ← mulVec_mulVec, dotProduct_mulVec,
    vecMul_transpose]
  simp only [Estimate.move, back]

/-! ### Absorbing a reading -/

omit [Fintype ι] [DecidableEq ι] in
theorem covariance_symm {e : Estimate ι} (posDef : e.covariance.PosDef) :
    e.covarianceᵀ = e.covariance :=
  (conjTranspose_eq_transpose_of_trivial e.covariance).symm.trans posDef.isHermitian.eq

omit [DecidableEq ι] in
theorem innovationVariance_pos {e : Estimate ι} (posDef : e.covariance.PosDef) (row : ι → ℝ)
    {variance : ℝ} (positive : 0 < variance) : 0 < innovationVariance e row variance := by
  have nonneg := posDef.posSemidef.dotProduct_mulVec_nonneg row
  simp only [star_trivial] at nonneg
  unfold innovationVariance
  linarith

omit [DecidableEq ι] in
theorem row_dotProduct_gain (e : Estimate ι) (row : ι → ℝ) (variance : ℝ) :
    row ⬝ᵥ e.covariance *ᵥ row = innovationVariance e row variance - variance := by
  rw [innovationVariance, add_sub_cancel_right]

/-- The inverse covariance takes the gain direction back to the row. -/
theorem gain_vecMul_inv {e : Estimate ι} (posDef : e.covariance.PosDef) (row : ι → ℝ) :
    (e.covariance *ᵥ row) ᵥ* e.covariance⁻¹ = row := by
  have det : IsUnit e.covariance.det := (isUnit_iff_isUnit_det _).mp posDef.isUnit
  rw [← vecMul_transpose, covariance_symm posDef, vecMul_vecMul, mul_nonsing_inv _ det, vecMul_one]

theorem inv_mulVec_gain {e : Estimate ι} (posDef : e.covariance.PosDef) (row : ι → ℝ) :
    e.covariance⁻¹ *ᵥ e.covariance *ᵥ row = row := by
  have det : IsUnit e.covariance.det := (isUnit_iff_isUnit_det _).mp posDef.isUnit
  rw [mulVec_mulVec, nonsing_inv_mul _ det, one_mulVec]

omit [DecidableEq ι] in
/-- Absorbing a reading shrinks the gain direction by the share of the reading's own variance. -/
theorem absorb_mulVec_row {e : Estimate ι} (posDef : e.covariance.PosDef) (row : ι → ℝ)
    (value : ℝ) {variance : ℝ} (positive : 0 < variance) :
    (e.absorb row value variance).covariance *ᵥ row =
      (variance / innovationVariance e row variance) • e.covariance *ᵥ row := by
  have total := innovationVariance_pos posDef row positive
  simp only [Estimate.absorb, sub_mulVec, smul_mulVec, vecMulVec_mulVec]
  rw [dotProduct_comm, row_dotProduct_gain e row variance]
  ext i
  simp only [Pi.sub_apply, Pi.smul_apply, smul_eq_mul, MulOpposite.smul_eq_mul_unop,
    MulOpposite.unop_op]
  field_simp
  ring

/-- **The Sherman-Morrison step**: absorbing a reading adds its information. -/
theorem inv_absorb {e : Estimate ι} (posDef : e.covariance.PosDef) (row : ι → ℝ) (value : ℝ)
    {variance : ℝ} (positive : 0 < variance) :
    (e.absorb row value variance).covariance⁻¹ =
      e.covariance⁻¹ + variance⁻¹ • vecMulVec row row := by
  have total := innovationVariance_pos posDef row positive
  have det : IsUnit e.covariance.det := (isUnit_iff_isUnit_det _).mp posDef.isUnit
  have old : (e.absorb row value variance).covariance * e.covariance⁻¹ =
      1 - (innovationVariance e row variance)⁻¹ • vecMulVec (e.covariance *ᵥ row) row := by
    simp only [Estimate.absorb, Matrix.sub_mul, mul_nonsing_inv _ det, Matrix.smul_mul,
      vecMulVec_mul, gain_vecMul_inv posDef]
  have new : (e.absorb row value variance).covariance * vecMulVec row row =
      (variance / innovationVariance e row variance) • vecMulVec (e.covariance *ᵥ row) row := by
    rw [mul_vecMulVec, absorb_mulVec_row posDef row value positive, smul_vecMulVec]
  refine inv_eq_right_inv ?_
  rw [Matrix.mul_add, Matrix.mul_smul, old, new, smul_smul, sub_add, ← sub_smul,
    inv_mul_eq_div, div_div_cancel_left' positive.ne', sub_self, zero_smul, sub_zero]

theorem posDef_absorb {e : Estimate ι} (posDef : e.covariance.PosDef) (row : ι → ℝ) (value : ℝ)
    {variance : ℝ} (positive : 0 < variance) :
    (e.absorb row value variance).covariance.PosDef := by
  rw [← posDef_inv_iff, inv_absorb posDef row value positive]
  refine posDef.inv.add_posSemidef (PosSemidef.smul ?_ (inv_nonneg.mpr positive.le))
  simpa using posSemidef_vecMulVec_self_star row

/-- **Absorbing a reading completes the square**: its cost moves into the estimate, up to a
constant that does not depend on the state. -/
theorem mahalanobis_absorb {e : Estimate ι} (posDef : e.covariance.PosDef) (row : ι → ℝ)
    (value : ℝ) {variance : ℝ} (positive : 0 < variance) (s : ι → ℝ) :
    mahalanobis e s + (value - row ⬝ᵥ s) ^ 2 / variance =
      mahalanobis (e.absorb row value variance) s +
        (value - row ⬝ᵥ e.mean) ^ 2 / innovationVariance e row variance := by
  have total := innovationVariance_pos posDef row positive
  have prediction : row ⬝ᵥ s = row ⬝ᵥ (s - e.mean) + row ⬝ᵥ e.mean := by
    rw [← dotProduct_add, sub_add_cancel]
  have gainSide : ∀ u, (e.covariance *ᵥ row) ⬝ᵥ e.covariance⁻¹ *ᵥ u = row ⬝ᵥ u := fun u => by
    rw [dotProduct_mulVec, gain_vecMul_inv posDef]
  have deviation : s - (e.absorb row value variance).mean = (s - e.mean) -
      ((value - row ⬝ᵥ e.mean) / innovationVariance e row variance) • e.covariance *ᵥ row :=
    sub_add_eq_sub_sub _ _ _
  unfold mahalanobis
  rw [inv_absorb posDef row value positive, prediction, deviation]
  generalize s - e.mean = d
  -- Both sides are now polynomials in the three scalars `d Λ d`, `row d` and `row P row`.
  simp only [add_mulVec, mulVec_sub, mulVec_smul, smul_mulVec, vecMulVec_mulVec, dotProduct_add,
    dotProduct_sub, sub_dotProduct, dotProduct_smul, smul_dotProduct, gainSide,
    inv_mulVec_gain posDef, row_dotProduct_gain e row variance, dotProduct_comm d row,
    dotProduct_comm (e.covariance *ᵥ row) row, smul_eq_mul, MulOpposite.smul_eq_mul_unop,
    MulOpposite.unop_op]
  field_simp
  ring

/-! ### Runs of readings -/

/-- The estimate after the move to a reading and the reading itself. -/
noncomputable def Estimate.step (e : Estimate ι) (m : Reading ι) : Estimate ι :=
  (e.move m.transition).absorb m.row m.value m.variance

/-- The recursive estimate after a list of readings. -/
noncomputable def Estimate.run (e : Estimate ι) (ms : List (Reading ι)) : Estimate ι :=
  ms.foldl Estimate.step e

/-- The state at the start of a list of readings, from the state at its end. -/
noncomputable def rewind : List (Reading ι) → Matrix ι ι ℝ
  | [] => 1
  | m :: ms => m.transition⁻¹ * rewind ms

/-- The weighted squared errors of a list of readings, at a state at its end. -/
noncomputable def readingCost : List (Reading ι) → (ι → ℝ) → ℝ
  | [], _ => 0
  | m :: ms, s => (m.value - m.row ⬝ᵥ rewind ms *ᵥ s) ^ 2 / m.variance + readingCost ms s

/-- The information the readings alone carry about the state at the end. -/
noncomputable def readingInformation : List (Reading ι) → Matrix ι ι ℝ
  | [] => 0
  | m :: ms => m.variance⁻¹ • vecMulVec (m.row ᵥ* rewind ms) (m.row ᵥ* rewind ms) +
      readingInformation ms

/-- The cost of a final state: its distance from the prior at the start, and every reading. -/
noncomputable def batchCost (e : Estimate ι) (ms : List (Reading ι)) (s : ι → ℝ) : ℝ :=
  mahalanobis e (rewind ms *ᵥ s) + readingCost ms s

/-- The information matrix of the same problem. -/
noncomputable def information (e : Estimate ι) (ms : List (Reading ι)) : Matrix ι ι ℝ :=
  (rewind ms)ᵀ * e.covariance⁻¹ * rewind ms + readingInformation ms

theorem posDef_step {e : Estimate ι} (posDef : e.covariance.PosDef) {m : Reading ι}
    (regular : m.Regular) : (e.step m).covariance.PosDef :=
  posDef_absorb (posDef_move posDef regular.invertible) _ _ regular.variance_pos

theorem posDef_run {e : Estimate ι} (posDef : e.covariance.PosDef) {ms : List (Reading ι)}
    (regular : ∀ m ∈ ms, m.Regular) : (e.run ms).covariance.PosDef := by
  induction ms generalizing e with
  | nil => exact posDef
  | cons m ms ih =>
    exact ih (posDef_step posDef (regular m List.mem_cons_self))
      fun m' member => regular m' (List.mem_cons_of_mem _ member)

/-- One reading moves from the list into the prior. -/
theorem batchCost_cons {e : Estimate ι} (posDef : e.covariance.PosDef) {m : Reading ι}
    (regular : m.Regular) (ms : List (Reading ι)) (s : ι → ℝ) :
    batchCost e (m :: ms) s = batchCost (e.step m) ms s +
      (m.value - m.row ⬝ᵥ (e.move m.transition).mean) ^ 2 /
        innovationVariance (e.move m.transition) m.row m.variance := by
  have square := mahalanobis_absorb (posDef_move posDef regular.invertible) m.row m.value
    regular.variance_pos (rewind ms *ᵥ s)
  rw [mahalanobis_move e regular.invertible, mulVec_mulVec] at square
  simp only [batchCost, rewind, readingCost, Estimate.step]
  linarith

theorem information_cons {e : Estimate ι} (posDef : e.covariance.PosDef) {m : Reading ι}
    (regular : m.Regular) (ms : List (Reading ι)) :
    information e (m :: ms) = information (e.step m) ms := by
  have sandwich : (rewind ms)ᵀ * vecMulVec m.row m.row * rewind ms =
      vecMulVec (m.row ᵥ* rewind ms) (m.row ᵥ* rewind ms) := by
    rw [mul_vecMulVec, vecMulVec_mul, mulVec_transpose]
  simp only [information, rewind, readingInformation, Estimate.step]
  rw [inv_absorb (posDef_move posDef regular.invertible) m.row m.value regular.variance_pos,
    inv_move, Matrix.mul_add, Matrix.add_mul, Matrix.mul_smul, Matrix.smul_mul, sandwich,
    transpose_mul]
  simp only [Matrix.mul_assoc, add_assoc]

/-- **The cost of the whole problem is the distance from the recursive estimate**, up to a
constant. -/
theorem batchCost_eq {e : Estimate ι} (posDef : e.covariance.PosDef) {ms : List (Reading ι)}
    (regular : ∀ m ∈ ms, m.Regular) :
    ∃ rest, ∀ s, batchCost e ms s = mahalanobis (e.run ms) s + rest := by
  induction ms generalizing e with
  | nil => exact ⟨0, fun s => by simp [batchCost, rewind, readingCost, Estimate.run]⟩
  | cons m ms ih =>
    have here := regular m List.mem_cons_self
    obtain ⟨rest, tail⟩ := ih (posDef_step posDef here)
      fun m' member => regular m' (List.mem_cons_of_mem _ member)
    refine ⟨rest + (m.value - m.row ⬝ᵥ (e.move m.transition).mean) ^ 2 /
      innovationVariance (e.move m.transition) m.row m.variance, fun s => ?_⟩
    rw [batchCost_cons posDef here, tail s, add_assoc]
    rfl

/-- **The covariance of the recursive estimate inverts the information matrix.** -/
theorem information_eq {e : Estimate ι} (posDef : e.covariance.PosDef) {ms : List (Reading ι)}
    (regular : ∀ m ∈ ms, m.Regular) : information e ms = (e.run ms).covariance⁻¹ := by
  induction ms generalizing e with
  | nil => simp [information, rewind, readingInformation, Estimate.run]
  | cons m ms ih =>
    have here := regular m List.mem_cons_self
    rw [information_cons posDef here, ih (posDef_step posDef here)
      fun m' member => regular m' (List.mem_cons_of_mem _ member)]
    rfl

/-- **The recursive estimate is the unique minimiser of the whole problem.** -/
theorem batchCost_lt {e : Estimate ι} (posDef : e.covariance.PosDef) {ms : List (Reading ι)}
    (regular : ∀ m ∈ ms, m.Regular) {s : ι → ℝ} (other : s ≠ (e.run ms).mean) :
    batchCost e ms (e.run ms).mean < batchCost e ms s := by
  obtain ⟨rest, eq⟩ := batchCost_eq posDef regular
  have positive : 0 < mahalanobis (e.run ms) s := by
    have form := (posDef_run posDef regular).inv.dotProduct_mulVec_pos (sub_ne_zero.mpr other)
    simpa [mahalanobis] using form
  have zero : mahalanobis (e.run ms) (e.run ms).mean = 0 := by simp [mahalanobis]
  rw [eq, eq, zero]
  linarith

end Rtfsn.LinearFilter
