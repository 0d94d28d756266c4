/-
**The recursive clock filter is the batch estimate.**

Without process noise and in exact reals, a run of `ClockKalman.step` is the least-squares problem
of a prior on offset and drift and one squared error per measurement.

* `estimate_step`: one `step` is the general filter's step for the move `offset += drift * dt` and
  the row that reads the offset.
* `batchCost_eq_general`, `batchInformation_eq_general`: the filter's batch problem is the general
  one, so the library's two halves of the batch statement apply.
* `run_eq_batch`: the filter's state is the unique minimiser and its covariance inverts the
  information matrix.
-/
import Rtfsn.Sync.Kalman
import Rtfsn.Lib.LinearFilter

namespace Rtfsn.ClockKalman

open Matrix LinearFilter

noncomputable section

/-- One measurement handed to `step`: seconds since the one before, offset read, variance. -/
structure Measurement where
  dt : ℝ
  offset : ℝ
  variance : ℝ

/-- A run of `step`. -/
def run (k : ClockKalman ℝ) (ms : List Measurement) : ClockKalman ℝ :=
  ms.foldl (fun k m => k.step m.dt m.offset m.variance) k

/-- The state as a vector. -/
def state (k : ClockKalman ℝ) : Fin 2 → ℝ := ![k.x.1, k.x.2]

/-- The covariance as a matrix. -/
def covariance (k : ClockKalman ℝ) : Matrix (Fin 2) (Fin 2) ℝ :=
  !![k.p.1, k.p.2.1; k.p.2.1, k.p.2.2]

/-! ### The batch problem -/

/-- The time over which a list of measurements runs. -/
def elapsed (ms : List Measurement) : ℝ := (ms.map Measurement.dt).sum

/-- The line with offset and drift `s` at the end of `later`, read where `later` begins. -/
def lineBefore (later : List Measurement) (s : Fin 2 → ℝ) : Fin 2 → ℝ :=
  ![s 0 - s 1 * elapsed later, s 1]

/-- The row that reads that offset from `s`. -/
def rowBefore (later : List Measurement) : Fin 2 → ℝ := ![1, -elapsed later]

/-- The weighted squared distances of the measurements from a line. -/
def fitCost : List Measurement → (Fin 2 → ℝ) → ℝ
  | [], _ => 0
  | m :: later, s => (m.offset - lineBefore later s 0) ^ 2 / m.variance + fitCost later s

/-- The information the measurements carry about the final offset and drift. -/
def fitInformation : List Measurement → Matrix (Fin 2) (Fin 2) ℝ
  | [] => 0
  | m :: later => m.variance⁻¹ • vecMulVec (rowBefore later) (rowBefore later) +
      fitInformation later

/-- The prior's squared Mahalanobis distance at the start, plus the measurements' errors. -/
def batchCost (k : ClockKalman ℝ) (ms : List Measurement) (s : Fin 2 → ℝ) : ℝ :=
  (lineBefore ms s - k.state) ⬝ᵥ k.covariance⁻¹ *ᵥ (lineBefore ms s - k.state) + fitCost ms s

/-- The information matrix of the same problem. -/
def batchInformation (k : ClockKalman ℝ) (ms : List Measurement) : Matrix (Fin 2) (Fin 2) ℝ :=
  !![1, -elapsed ms; 0, 1]ᵀ * k.covariance⁻¹ * !![1, -elapsed ms; 0, 1] + fitInformation ms

/-! ### The clock filter as a general filter -/

/-- The filter's state and covariance as an estimate. -/
def estimate (k : ClockKalman ℝ) : Estimate (Fin 2) := ⟨k.state, k.covariance⟩

/-- A measurement as a general reading: the offset advances by the drift, and is what is read. -/
def Measurement.reading (m : Measurement) : Reading (Fin 2) where
  transition := !![1, m.dt; 0, 1]
  row := ![1, 0]
  value := m.offset
  variance := m.variance

theorem isUnit_transition (dt : ℝ) : IsUnit (!![1, dt; 0, 1] : Matrix (Fin 2) (Fin 2) ℝ) := by
  rw [isUnit_iff_isUnit_det, det_fin_two_of]
  simp

theorem inv_transition (dt : ℝ) :
    (!![1, dt; 0, 1] : Matrix (Fin 2) (Fin 2) ℝ)⁻¹ = !![1, -dt; 0, 1] := by
  refine inv_eq_right_inv ?_
  ext i j
  fin_cases i <;> fin_cases j <;> simp [Matrix.mul_apply, Fin.sum_univ_two]

theorem rewind_reading (ms : List Measurement) :
    rewind (ms.map Measurement.reading) = !![1, -elapsed ms; 0, 1] := by
  induction ms with
  | nil =>
    ext i j
    fin_cases i <;> fin_cases j <;> simp [rewind, elapsed]
  | cons m ms ih =>
    rw [List.map_cons, rewind, ih]
    show (!![1, m.dt; 0, 1] : Matrix (Fin 2) (Fin 2) ℝ)⁻¹ * _ = _
    rw [inv_transition]
    ext i j
    fin_cases i <;> fin_cases j <;> simp [Matrix.mul_apply, Fin.sum_univ_two, elapsed]

theorem rewind_mulVec (ms : List Measurement) (s : Fin 2 → ℝ) :
    rewind (ms.map Measurement.reading) *ᵥ s = lineBefore ms s := by
  rw [rewind_reading]
  ext i
  fin_cases i <;> simp [mulVec, dotProduct, Fin.sum_univ_two, lineBefore]
  ring

theorem vecMul_rewind (m : Measurement) (ms : List Measurement) :
    m.reading.row ᵥ* rewind (ms.map Measurement.reading) = rowBefore ms := by
  rw [rewind_reading]
  ext i
  fin_cases i <;> simp [vecMul, dotProduct, Fin.sum_univ_two, rowBefore, Measurement.reading]

theorem readingCost_eq (ms : List Measurement) (s : Fin 2 → ℝ) :
    readingCost (ms.map Measurement.reading) s = fitCost ms s := by
  induction ms with
  | nil => rfl
  | cons m ms ih =>
    rw [List.map_cons, readingCost, ih, rewind_mulVec, fitCost]
    simp [Measurement.reading, dotProduct, Fin.sum_univ_two]

theorem readingInformation_eq (ms : List Measurement) :
    readingInformation (ms.map Measurement.reading) = fitInformation ms := by
  induction ms with
  | nil => rfl
  | cons m ms ih =>
    rw [List.map_cons, readingInformation, ih, vecMul_rewind, fitInformation]
    rfl

theorem batchCost_eq_general (k : ClockKalman ℝ) (ms : List Measurement) (s : Fin 2 → ℝ) :
    k.batchCost ms s = LinearFilter.batchCost k.estimate (ms.map Measurement.reading) s := by
  rw [LinearFilter.batchCost, rewind_mulVec, readingCost_eq]
  rfl

theorem batchInformation_eq_general (k : ClockKalman ℝ) (ms : List Measurement) :
    k.batchInformation ms = information k.estimate (ms.map Measurement.reading) := by
  rw [information, rewind_reading, readingInformation_eq]
  rfl

/-! ### One step -/

theorem estimate_predict (k : ClockKalman ℝ) (dt : ℝ) (noOffsetNoise : k.qOffset = 0)
    (noDriftNoise : k.qDrift = 0) :
    (k.predict dt).estimate = k.estimate.move !![1, dt; 0, 1] := by
  have mean : (k.predict dt).state = !![1, dt; 0, 1] *ᵥ k.state := by
    ext i
    fin_cases i <;> simp [state, predict, mulVec, dotProduct, Fin.sum_univ_two, mul_comm]
  have cov : (k.predict dt).covariance =
      !![1, dt; 0, 1] * k.covariance * !![1, dt; 0, 1]ᵀ := by
    ext i j
    fin_cases i <;> fin_cases j <;>
      simp [covariance, predict, Matrix.mul_apply, Fin.sum_univ_two, noOffsetNoise, noDriftNoise]
    all_goals ring
  simp only [estimate, Estimate.move, mean, cov]

/-- A measurement of variance at least `1e-30` is never skipped. -/
theorem update_eq (k : ClockKalman ℝ) (z : ℝ) {r : ℝ} (taken : 1e-30 ≤ k.p.1 + r) :
    k.update z r =
      { k with
        x := (k.x.1 + k.p.1 / (k.p.1 + r) * (z - k.x.1),
          k.x.2 + k.p.2.1 / (k.p.1 + r) * (z - k.x.1))
        p := ((1 - k.p.1 / (k.p.1 + r)) * k.p.1, (1 - k.p.1 / (k.p.1 + r)) * k.p.2.1,
          k.p.2.2 - k.p.2.1 / (k.p.1 + r) * k.p.2.1) } := by
  have notSkipped : ¬ |k.p.1 + r| < 1e-30 := not_lt.mpr (taken.trans (le_abs_self _))
  have lit : ((1e-30 : ℚ) : ℝ) = 1e-30 := by norm_num
  simp only [update, F64.lt_real, F64.abs_real, F64.lit_real, lit, notSkipped, decide_false,
    Bool.false_eq_true, if_false]

theorem covariance_mulVec_row (k : ClockKalman ℝ) :
    k.covariance *ᵥ ![1, 0] = ![k.p.1, k.p.2.1] := by
  ext i
  fin_cases i <;> simp [covariance, mulVec, dotProduct, Fin.sum_univ_two]

theorem innovationVariance_row (k : ClockKalman ℝ) (r : ℝ) :
    innovationVariance k.estimate ![1, 0] r = k.p.1 + r := by
  show ![1, 0] ⬝ᵥ k.covariance *ᵥ ![1, 0] + r = k.p.1 + r
  rw [covariance_mulVec_row]
  simp [dotProduct, Fin.sum_univ_two]

theorem absorb_row (k : ClockKalman ℝ) (z r : ℝ) :
    k.estimate.absorb ![1, 0] z r =
      ⟨k.state + ((z - k.x.1) / (k.p.1 + r)) • ![k.p.1, k.p.2.1],
        k.covariance - (k.p.1 + r)⁻¹ • vecMulVec ![k.p.1, k.p.2.1] ![k.p.1, k.p.2.1]⟩ := by
  have read : ![1, 0] ⬝ᵥ k.state = k.x.1 := by simp [dotProduct, Fin.sum_univ_two, state]
  rw [Estimate.absorb, innovationVariance_row]
  simp only [estimate, read, covariance_mulVec_row]

/-- **One update is one absorbed reading.** -/
theorem estimate_update (k : ClockKalman ℝ) (z : ℝ) {r : ℝ} (taken : 1e-30 ≤ k.p.1 + r) :
    (k.update z r).estimate = k.estimate.absorb ![1, 0] z r := by
  rw [absorb_row, update_eq k z taken, estimate, Estimate.mk.injEq]
  constructor
  · ext i
    fin_cases i <;> simp [state] <;> ring
  · ext i j
    fin_cases i <;> fin_cases j <;> simp [covariance] <;> ring

/-- **One step is one step of the general filter.** -/
theorem estimate_step (k : ClockKalman ℝ) (posDef : k.covariance.PosDef)
    (noOffsetNoise : k.qOffset = 0) (noDriftNoise : k.qDrift = 0) (m : Measurement)
    (large : 1e-30 ≤ m.variance) :
    (k.step m.dt m.offset m.variance).estimate = k.estimate.step m.reading := by
  have predicted := estimate_predict k m.dt noOffsetNoise noDriftNoise
  have moved : (k.predict m.dt).covariance.PosDef := by
    have general := posDef_move (e := k.estimate) posDef (isUnit_transition m.dt)
    rwa [← predicted] at general
  have diagonal : 0 < (k.predict m.dt).p.1 := by
    simpa [covariance] using moved.diag_pos (i := 0)
  rw [step, estimate_update _ _ (by linarith), predicted]
  rfl

/-! ### A whole run -/

theorem regular_reading {m : Measurement} (large : 1e-30 ≤ m.variance) : m.reading.Regular where
  invertible := isUnit_transition m.dt
  variance_pos := lt_of_lt_of_le (by norm_num) large

theorem regular_readings {ms : List Measurement} (large : ∀ m ∈ ms, 1e-30 ≤ m.variance) :
    ∀ m ∈ ms.map Measurement.reading, m.Regular := by
  intro m member
  obtain ⟨source, inside, rfl⟩ := List.mem_map.mp member
  exact regular_reading (large source inside)

theorem estimate_run (k : ClockKalman ℝ) (posDef : k.covariance.PosDef)
    (noOffsetNoise : k.qOffset = 0) (noDriftNoise : k.qDrift = 0) (ms : List Measurement)
    (large : ∀ m ∈ ms, 1e-30 ≤ m.variance) :
    (k.run ms).estimate = k.estimate.run (ms.map Measurement.reading) := by
  induction ms generalizing k with
  | nil => rfl
  | cons m ms ih =>
    have here := large m List.mem_cons_self
    have one := estimate_step k posDef noOffsetNoise noDriftNoise m here
    have posDefStep : (k.step m.dt m.offset m.variance).covariance.PosDef := by
      have general := posDef_step (e := k.estimate) posDef (regular_reading here)
      rwa [← one] at general
    rw [run, List.foldl_cons, ← run, ih _ posDefStep (by simpa [step] using noOffsetNoise)
      (by simpa [step] using noDriftNoise)
      fun m' member => large m' (List.mem_cons_of_mem _ member), one]
    rfl

/-- **The recursive filter equals the batch estimate.** Without process noise, from any positive
definite covariance and over any measurements of variance at least `1e-30`, the final state is the
unique minimiser of the batch cost and the final covariance the inverse of its information
matrix. -/
theorem run_eq_batch (k : ClockKalman ℝ) (posDef : k.covariance.PosDef)
    (noOffsetNoise : k.qOffset = 0) (noDriftNoise : k.qDrift = 0) (ms : List Measurement)
    (large : ∀ m ∈ ms, 1e-30 ≤ m.variance) :
    (∀ s, s ≠ (k.run ms).state → k.batchCost ms (k.run ms).state < k.batchCost ms s) ∧
      (k.run ms).covariance * k.batchInformation ms = 1 ∧
      (k.run ms).covariance = (k.batchInformation ms)⁻¹ := by
  have final := estimate_run k posDef noOffsetNoise noDriftNoise ms large
  have mean : (k.run ms).state = (k.estimate.run (ms.map Measurement.reading)).mean := by
    rw [← final]
    rfl
  have cov : (k.run ms).covariance = (k.estimate.run (ms.map Measurement.reading)).covariance := by
    rw [← final]
    rfl
  have regular := regular_readings large
  have posDefFinal := posDef_run (e := k.estimate) posDef regular
  have det := (isUnit_iff_isUnit_det _).mp posDefFinal.isUnit
  rw [cov, batchInformation_eq_general, information_eq (e := k.estimate) posDef regular]
  refine ⟨fun s other => ?_, mul_nonsing_inv _ det, (nonsing_inv_nonsing_inv _ det).symm⟩
  rw [batchCost_eq_general, batchCost_eq_general, mean]
  exact batchCost_lt (e := k.estimate) posDef regular (mean ▸ other)

/-- A unit prior and two measurements a second apart. -/
theorem run_eq_batch_unitPrior :
    let k : ClockKalman ℝ := ⟨(0, 0), (1, 0, 1), 0, 0⟩
    let ms : List Measurement := [⟨0, 3, 1⟩, ⟨1, 5, 2⟩]
    (∀ s, s ≠ (k.run ms).state → k.batchCost ms (k.run ms).state < k.batchCost ms s) ∧
      (k.run ms).covariance * k.batchInformation ms = 1 ∧
      (k.run ms).covariance = (k.batchInformation ms)⁻¹ := by
  have unit : (⟨(0, 0), (1, 0, 1), 0, 0⟩ : ClockKalman ℝ).covariance = 1 := by
    ext i j
    fin_cases i <;> fin_cases j <;> simp [covariance]
  exact run_eq_batch _ (unit ▸ PosDef.one) rfl rfl _ (by norm_num)

end

end Rtfsn.ClockKalman
