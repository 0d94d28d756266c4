/-
**The covariance stays a covariance**, in exact reals.

* `Psd`: the three entries the filter keeps are those of a positive semidefinite matrix, and its
  process noise is not negative.
* `Psd.predict`, `Psd.update`: both steps keep it, by `Semidefinite.shear`, `widen` and `condition`;
  an update that is not skipped narrows the offset below its old variance and the measurement's,
  and never widens the drift (`update_narrows`).
* `Settled.outcome`: so does every exchange a track observes, a fresh start included.
* `covariance_runs`: so it holds of every filter and every track in every run, and no clamp at zero
  changes what it reads.
-/
import Rtfsn.Lib.Semidefinite
import Rtfsn.Sync.PeerTrack

namespace Rtfsn

/-! ### The filter -/

namespace ClockKalman

/-- The entries are those of a covariance, and the process noise is not negative. -/
structure Psd (k : ClockKalman ℝ) : Prop where
  covariance : Semidefinite k.p.1 k.p.2.1 k.p.2.2
  qOffset : 0 ≤ k.qOffset
  qDrift : 0 ≤ k.qDrift

/-- The update of a measurement with variance `r` is skipped. -/
def Skips (k : ClockKalman ℝ) (r : ℝ) : Prop := |k.p.1 + r| < 1e-30

variable {k : ClockKalman ℝ}

theorem psd_new : Psd new where
  covariance := ⟨by norm_num [new], by norm_num [new], by norm_num [new]⟩
  qOffset := by norm_num [new]
  qDrift := by norm_num [new]

theorem Psd.predict (psd : Psd k) {dt : ℝ} (forward : 0 ≤ dt) : Psd (k.predict dt) where
  covariance := by
    simp only [ClockKalman.predict, F64.lit_real, Rat.cast_ofNat]
    exact (psd.covariance.shear dt).widen (mul_nonneg psd.qOffset forward)
      (mul_nonneg psd.qDrift forward)
  qOffset := psd.qOffset
  qDrift := psd.qDrift

/-- An update that is not skipped divides by a positive number. -/
theorem Psd.innovation_pos (psd : Psd k) {r : ℝ} (noise : 0 ≤ r) (taken : ¬ k.Skips r) :
    0 < k.p.1 + r := by
  have nonneg : 0 ≤ k.p.1 + r := add_nonneg psd.covariance.first noise
  refine lt_of_le_of_ne nonneg fun zero => taken ?_
  rw [Skips, ← zero]
  norm_num

/-- The covariance after an update that is not skipped. -/
theorem update_p {z r : ℝ} (taken : ¬ k.Skips r) :
    (k.update z r).p = ((1 - k.p.1 / (k.p.1 + r)) * k.p.1, (1 - k.p.1 / (k.p.1 + r)) * k.p.2.1,
      k.p.2.2 - k.p.2.1 / (k.p.1 + r) * k.p.2.1) := by
  have large : ¬ F64.lt (F64.abs (k.p.1 + r)) (F64.lit 1e-30) = true := by
    unfold Skips at taken
    simpa using taken
  simp only [update]
  rw [if_neg large]

theorem update_skipped {z r : ℝ} (skips : k.Skips r) : k.update z r = k := by
  have small : F64.lt (F64.abs (k.p.1 + r)) (F64.lit 1e-30) = true := by
    unfold Skips at skips
    simpa using skips
  simp only [update]
  rw [if_pos small]

theorem Psd.update (psd : Psd k) (z : ℝ) {r : ℝ} (noise : 0 ≤ r) : Psd (k.update z r) := by
  by_cases skips : k.Skips r
  · rw [update_skipped skips]
    exact psd
  · refine ⟨?_, ?_, ?_⟩
    · rw [update_p skips]
      exact psd.covariance.condition noise (psd.innovation_pos noise skips)
    · rw [update_qOffset]
      exact psd.qOffset
    · rw [update_qDrift]
      exact psd.qDrift

/-- **An update that is not skipped narrows the offset** below its old variance and the
measurement's, and never widens the drift. -/
theorem update_narrows (psd : Psd k) (z : ℝ) {r : ℝ} (noise : 0 ≤ r) (taken : ¬ k.Skips r) :
    (k.update z r).p.1 ≤ min k.p.1 r ∧ (k.update z r).p.2.2 ≤ k.p.2.2 := by
  have positive := psd.innovation_pos noise taken
  rw [update_p taken]
  refine ⟨Semidefinite.conditioned_le positive, sub_le_self _ ?_⟩
  rw [div_mul_eq_mul_div]
  exact div_nonneg (mul_self_nonneg _) positive.le

/-- What can happen to a filter. -/
inductive Op
  | predict (dt : ℝ)
  | update (measuredOffset measurementVariance : ℝ)

/-- Time runs forward, and no variance is negative. -/
def Op.Valid : Op → Prop
  | .predict dt => 0 ≤ dt
  | .update _ r => 0 ≤ r

noncomputable def apply (k : ClockKalman ℝ) : Op → ClockKalman ℝ
  | .predict dt => k.predict dt
  | .update z r => k.update z r

/-- A run of steps. -/
noncomputable def runOps (k : ClockKalman ℝ) (ops : List Op) : ClockKalman ℝ := ops.foldl apply k

theorem Psd.apply (psd : Psd k) {op : Op} (valid : op.Valid) : Psd (k.apply op) := by
  cases op with
  | predict dt => exact psd.predict valid
  | update z r => exact psd.update z valid

theorem Psd.runOps (psd : Psd k) {ops : List Op} (valid : ∀ op ∈ ops, op.Valid) :
    Psd (k.runOps ops) := by
  induction ops generalizing k with
  | nil => exact psd
  | cons op ops ih =>
    exact ih (psd.apply (valid op List.mem_cons_self))
      fun op listed => valid op (List.mem_cons_of_mem _ listed)

end ClockKalman

/-! ### The track -/

namespace PeerTrack

open ClockKalman

/-- The track has this configuration, and its filter keeps a covariance. -/
structure Settled (cfg : TrackConfig ℝ) (t : PeerTrack ℝ) : Prop where
  config : t.cfg = cfg
  psd : Psd t.kalman

variable {cfg : TrackConfig ℝ} {t t' : PeerTrack ℝ}

theorem settled_new (cfg : TrackConfig ℝ) : Settled cfg (new cfg) := ⟨rfl, psd_new⟩

theorem sinceLast_nonneg (t : PeerTrack ℝ) (mid : ℕ) : 0 ≤ t.sinceLast mid := by
  unfold sinceLast
  simp only [F64.ofNat_real, F64.lit_real]
  positivity

theorem variance_nonneg (t : PeerTrack ℝ) (rtt : ℕ) (excess : ℝ) : 0 ≤ t.variance rtt excess :=
  mul_self_nonneg _

/-- Absorbing an exchange, the first or a later one, leaves a covariance. -/
theorem Settled.absorb (settled : Settled cfg t) (qOffset : 0 ≤ cfg.qOffset)
    (qDrift : 0 ≤ cfg.qDrift) (mid rtt : ℕ) (excess : ℝ) (twist : TwistIndex) :
    Settled cfg (t.absorb mid rtt excess twist) := by
  refine ⟨(absorb_cfg _ _ _ _ _).trans settled.config, ?_⟩
  simp only [PeerTrack.absorb]
  split
  · refine ⟨⟨variance_nonneg _ _ _, mul_self_nonneg _, ?_⟩, ?_, ?_⟩
    · simp only [ne_eq, OfNat.ofNat_ne_zero, not_false_eq_true, zero_pow]
      exact mul_nonneg (variance_nonneg _ _ _) (mul_self_nonneg _)
    · exact settled.config ▸ qOffset
    · exact settled.config ▸ qDrift
  · exact (settled.psd.predict (sinceLast_nonneg t mid)).update _ (variance_nonneg _ _ _)

/-- **Every exit of `observe` leaves a covariance.** -/
theorem Settled.outcome (settled : Settled cfg t) (qOffset : 0 ≤ cfg.qOffset)
    (qDrift : 0 ≤ cfg.qDrift) {e : Exchange} {o : Observation ℝ} (outcome : Outcome t e o t') :
    Settled cfg t' := by
  cases outcome with
  | nonPositive _ => exact ⟨settled.config, settled.psd⟩
  | outOfOrder _ _ => exact ⟨settled.config, settled.psd⟩
  | popcorn _ _ => exact ⟨settled.config, settled.psd⟩
  | step _ _ _ => exact ⟨settled.config, settled.psd⟩
  | settled _ _ _ _ =>
    have base : Settled cfg (t.settle e) := ⟨settled.config, settled.psd⟩
    exact base.absorb qOffset qDrift _ _ _ _
  | restarted _ _ _ _ _ =>
    have base : Settled cfg (t.restart e) := ⟨settled.config, settled.psd⟩
    exact base.absorb qOffset qDrift _ _ _ _

/-- No clamp at zero changes what it reads: neither the variance `observe` predicts for an exchange
with midpoint `mid`, nor the two of `relation`, whose standard deviations square back to them. -/
structure ClampsIdle (t : PeerTrack ℝ) : Prop where
  predicted : ∀ mid, 0 ≤ t.kalman.p.1 + 2 * t.sinceLast mid * t.kalman.p.2.1 +
    t.sinceLast mid * t.sinceLast mid * t.kalman.p.2.2
  offset : 0 ≤ t.kalman.p.1
  drift : 0 ≤ t.kalman.p.2.2
  relation : ∀ rel, t.relation = some rel →
    (rel.sigmaOffsetNs / 1e9) ^ 2 = t.kalman.p.1 ∧ rel.sigmaDrift ^ 2 = t.kalman.p.2.2

theorem Settled.clampsIdle (settled : Settled cfg t) : ClampsIdle t where
  predicted mid := settled.psd.covariance.form_nonneg _
  offset := settled.psd.covariance.first
  drift := settled.psd.covariance.second
  relation rel found := by
    unfold PeerTrack.relation at found
    split at found
    · cases found
    · obtain rfl := Option.some.inj found
      simp only [F64.sqrt_real, F64.max_real, F64.lit_real,
        max_eq_left settled.psd.covariance.first, max_eq_left settled.psd.covariance.second]
      refine ⟨?_, Real.sq_sqrt settled.psd.covariance.second⟩
      rw [mul_div_assoc, show ((1e9 : ℚ) : ℝ) / 1e9 = 1 by norm_num, mul_one,
        Real.sq_sqrt settled.psd.covariance.first]

end PeerTrack

/-- **Covariance stays a covariance.** From a positive semidefinite start, every run of predictions
forward and of updates with variances that are not negative stays positive semidefinite, and there
an update that is not skipped leaves the offset's variance at most the smaller of its old value and
the measurement's and never increases the drift's. So no exchange of any run of a track whose
process noise is not negative finds an active clamp. -/
theorem covariance_runs :
    (∀ (k : ClockKalman ℝ) (ops : List ClockKalman.Op), 0 ≤ k.qOffset → 0 ≤ k.qDrift →
      Semidefinite k.p.1 k.p.2.1 k.p.2.2 → (∀ op ∈ ops, op.Valid) →
      Semidefinite (k.runOps ops).p.1 (k.runOps ops).p.2.1 (k.runOps ops).p.2.2 ∧
        ∀ z r, 0 ≤ r → ¬ (k.runOps ops).Skips r →
          ((k.runOps ops).update z r).p.1 ≤ min (k.runOps ops).p.1 r ∧
            ((k.runOps ops).update z r).p.2.2 ≤ (k.runOps ops).p.2.2) ∧
    ∀ (cfg : TrackConfig ℝ) (es : List Exchange), 0 ≤ cfg.qOffset → 0 ≤ cfg.qDrift →
      ∃ os t, (PeerTrack.new cfg).run es = some (os, t) ∧ t.ClampsIdle := by
  constructor
  · intro k ops qOffset qDrift psd valid
    have reached : ClockKalman.Psd (k.runOps ops) :=
      ClockKalman.Psd.runOps ⟨psd, qOffset, qDrift⟩ valid
    exact ⟨reached.covariance, fun z r noise taken =>
      ClockKalman.update_narrows reached z noise taken⟩
  · intro cfg es qOffset qDrift
    have keep : ∀ history t e, PeerTrack.Settled cfg t → ∃ o t', PeerTrack.observe t e =
        some (o, t') ∧ (fun (_ : List (Exchange × Observation ℝ)) => PeerTrack.Settled cfg)
          (history ++ [(e, o)]) t' := fun _ t e settled => by
      obtain ⟨o, t', eq, outcome⟩ := t.observe_outcome e
      exact ⟨o, t', eq, settled.outcome qOffset qDrift outcome⟩
    obtain ⟨os, t, ran, _, settled⟩ := Machine.run_spec keep (PeerTrack.settled_new cfg) es
    exact ⟨os, t, ran, settled.clampsIdle⟩

/-- A degenerate start, one prediction and one exact measurement; and two exchanges of a track with
the default tuning. -/
theorem covariance_runs_degenerate :
    (∃ k : ClockKalman ℝ, k.p = (0, 0, 1) ∧
      Semidefinite (k.runOps [.predict 1, .update 3 0]).p.1
        (k.runOps [.predict 1, .update 3 0]).p.2.1 (k.runOps [.predict 1, .update 3 0]).p.2.2) ∧
    ∃ os t, (PeerTrack.new TrackConfig.default).run [⟨0, 1, 1, 2⟩, ⟨4, 5, 5, 6⟩] = some (os, t) ∧
      t.ClampsIdle := by
  constructor
  · refine ⟨⟨(0, 0), (0, 0, 1), 0, 0⟩, rfl, ?_⟩
    refine (covariance_runs.1 ⟨(0, 0), (0, 0, 1), 0, 0⟩ [.predict 1, .update 3 0] le_rfl le_rfl
      ⟨le_rfl, zero_le_one, by norm_num⟩ ?_).1
    simp [ClockKalman.Op.Valid]
  · refine covariance_runs.2 TrackConfig.default _ ?_ ?_ <;> norm_num [TrackConfig.default]

end Rtfsn
