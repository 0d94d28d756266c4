/-
**Vivaldi updates never overshoot**, `f64` read as exact reals.

* `update_error`: the error makes part of its way to the relative error of the measurement, and so
  never gets below zero.
* `distance_update_apart`, `distance_update_together`: so does the distance to the peer, to the
  measured round trip. The point moves along the line through the peer, and off a peer it coincides
  with along the first axis.
* `Contracts`: what an update then does to the misfit of the distance.
* `updateAll_error_nonneg`, `updateAll_contracts`: runs of updates.
-/
import Rtfsn.Lib.Relaxation
import Rtfsn.Sync.EuclideanCoordinates

namespace Rtfsn.CoordinateState

open Relaxation

variable {self peer : CoordinateState ℝ} {measuredRtt : ℝ}

/-! ### One update -/

/-- The weight of an update: the part of the local error in both, or half where neither has any. -/
noncomputable def weight (self peer : CoordinateState ℝ) : ℝ :=
  if 1e-12 < self.error + peer.error then share self.error peer.error else 1 / 2

/-- How far off the distance to the peer is. -/
noncomputable def misfit (self peer : CoordinateState ℝ) (measuredRtt : ℝ) : ℝ :=
  |measuredRtt - self.position.distance peer.position|

/-- What an update does to the misfit. -/
structure Contracts (self peer : CoordinateState ℝ) (measuredRtt : ℝ) : Prop where
  scaled : 1e-12 < self.position.distance peer.position →
    (self.update peer measuredRtt).2.misfit peer measuredRtt =
      (1 - self.weight peer / 4) * self.misfit peer measuredRtt
  noIncrease : self.position = peer.position ∨ 1e-12 < self.position.distance peer.position →
    (self.update peer measuredRtt).2.misfit peer measuredRtt ≤ self.misfit peer measuredRtt

theorem weight_mem (own : 0 ≤ self.error) (other : 0 ≤ peer.error) :
    0 ≤ self.weight peer ∧ self.weight peer ≤ 1 := by
  unfold weight
  split_ifs
  · exact ⟨share_nonneg own other, share_le_one own other⟩
  · norm_num

/-- The weight as the code has it. -/
theorem weight_eq :
    (if F64.lt (F64.lit 1e-12) (self.error + peer.error) then
      self.error / (self.error + peer.error) else F64.lit 0.5) = self.weight peer := by
  simp only [weight, share, F64.lt_real, F64.lit_real, decide_eq_true_eq]
  norm_num

theorem quarter_weight : ((0.25 : ℚ) : ℝ) * self.weight peer = self.weight peer / 4 := by
  push_cast
  ring

theorem magnitude_subtract :
    (self.position.subtract peer.position).magnitude = self.position.distance peer.position := by
  rw [Coordinates.magnitude_eq_norm, Coordinates.toEuclidean_subtract,
    Coordinates.distance_eq_dist, dist_eq_norm]

theorem update_fst_nonneg (measured : 0 ≤ measuredRtt) :
    0 ≤ (self.update peer measuredRtt).1 := by
  simp only [update, F64.lt_real, F64.abs_real, decide_eq_true_eq]
  split_ifs
  · exact div_nonneg (abs_nonneg _) measured
  · exact abs_nonneg _

/-- The error makes a quarter of the weight of its way to the relative error. -/
theorem update_error :
    (self.update peer measuredRtt).2.error =
      toward (self.update peer measuredRtt).1 self.error (self.weight peer / 4) := by
  simp only [update, weight_eq]
  simp only [toward, F64.lit_real]
  push_cast
  ring

theorem update_error_nonneg (own : 0 ≤ self.error) (other : 0 ≤ peer.error)
    (measured : 0 ≤ measuredRtt) : 0 ≤ (self.update peer measuredRtt).2.error := by
  obtain ⟨nonneg, le_one⟩ := weight_mem own other
  rw [update_error]
  exact toward_nonneg (update_fst_nonneg measured) own (by linarith) (by linarith)

/-- Apart from the peer, the point moves along the line through it. -/
theorem update_position_apart (apart : 1e-12 < self.position.distance peer.position) :
    (self.update peer measuredRtt).2.position =
      self.position.addScaled (self.position.subtract peer.position).normalize
        ((measuredRtt - self.position.distance peer.position) * (self.weight peer / 4)) := by
  have far : ((1e-12 : ℚ) : ℝ) < self.position.distance peer.position := by
    push_cast
    exact apart
  simp only [update, weight_eq]
  simp only [magnitude_subtract, F64.lt_real, F64.lit_real, decide_eq_true_eq, if_pos far,
    quarter_weight]

/-- Where the two coincide, it stays or moves along the first axis. -/
theorem update_position_together (together : self.position = peer.position)
    (measured : 0 ≤ measuredRtt) :
    (self.update peer measuredRtt).2.position = self.position ∨
      (self.update peer measuredRtt).2.position = self.position.addScaled
        (.firstAxis (measuredRtt * (self.weight peer / 4))) 1 := by
  have zero : self.position.distance peer.position = 0 := by
    rw [together, Coordinates.distance_self]
  have near : ¬ ((1e-12 : ℚ) : ℝ) < 0 := by norm_num
  simp only [update, weight_eq]
  simp only [magnitude_subtract, zero, F64.lt_real, F64.lit_real, decide_eq_true_eq, if_neg near,
    F64.signum_real, sub_zero, if_pos measured, one_mul, quarter_weight]
  split_ifs
  · exact Or.inr rfl
  · exact Or.inl rfl

/-- **The distance to a peer further than the threshold** makes a quarter of the weight of its way
to the measured round trip. -/
theorem distance_update_apart (own : 0 ≤ self.error) (other : 0 ≤ peer.error)
    (measured : 0 ≤ measuredRtt) (apart : 1e-12 < self.position.distance peer.position) :
    (self.update peer measuredRtt).2.position.distance peer.position =
      toward measuredRtt (self.position.distance peer.position) (self.weight peer / 4) := by
  obtain ⟨nonneg, le_one⟩ := weight_mem own other
  have different : self.position.toEuclidean ≠ peer.position.toEuclidean := by
    intro same
    rw [Coordinates.distance_eq_dist, same, dist_self] at apart
    norm_num at apart
  have long : 1e-12 < (self.position.subtract peer.position).magnitude := by
    rwa [magnitude_subtract]
  rw [update_position_apart apart, Coordinates.distance_eq_dist, Coordinates.toEuclidean_addScaled,
    Coordinates.toEuclidean_normalize long, Coordinates.toEuclidean_subtract, dist_along different,
    ← Coordinates.distance_eq_dist]
  exact abs_of_nonneg
    (toward_nonneg measured (Coordinates.distance_nonneg ..) (by linarith) (by linarith))

/-- The distance to a peer the point coincides with stays or makes the same part of its way. -/
theorem distance_update_together (own : 0 ≤ self.error) (other : 0 ≤ peer.error)
    (measured : 0 ≤ measuredRtt) (together : self.position = peer.position) :
    (self.update peer measuredRtt).2.position.distance peer.position = 0 ∨
      (self.update peer measuredRtt).2.position.distance peer.position =
        toward measuredRtt 0 (self.weight peer / 4) := by
  obtain ⟨nonneg, le_one⟩ := weight_mem own other
  rcases update_position_together together measured with stays | moves
  · left
    rw [stays, together, Coordinates.distance_self]
  · right
    rw [moves, together, Coordinates.distance_eq_dist, Coordinates.toEuclidean_addScaled, one_smul,
      dist_self_add_left, Coordinates.norm_firstAxis, toward, zero_add, sub_zero]
    exact abs_of_nonneg (mul_nonneg measured (by linarith))

theorem contracts (own : 0 ≤ self.error) (other : 0 ≤ peer.error) (measured : 0 ≤ measuredRtt) :
    self.Contracts peer measuredRtt := by
  obtain ⟨nonneg, le_one⟩ := weight_mem own other
  have scaled (apart : 1e-12 < self.position.distance peer.position) :
      (self.update peer measuredRtt).2.misfit peer measuredRtt =
        (1 - self.weight peer / 4) * self.misfit peer measuredRtt := by
    rw [misfit, distance_update_apart own other measured apart]
    exact abs_target_sub_toward (by linarith)
  refine ⟨scaled, fun placed => ?_⟩
  rcases placed with together | apart
  · have zero : self.position.distance peer.position = 0 := by
      rw [together, Coordinates.distance_self]
    unfold misfit
    rw [zero]
    rcases distance_update_together own other measured together with stays | moves
    · rw [stays]
    · rw [moves, abs_target_sub_toward (by linarith)]
      exact mul_le_of_le_one_left (abs_nonneg _) (by linarith)
  · rw [scaled apart]
    exact mul_le_of_le_one_left (abs_nonneg _) (by linarith)

/-! ### Runs of updates -/

/-- The state after a sequence of updates, each from a peer and a measured round trip. -/
noncomputable def updateAll (self : CoordinateState ℝ) (calls : List (CoordinateState ℝ × ℝ)) :
    CoordinateState ℝ :=
  calls.foldl (fun state call => (state.update call.1 call.2).2) self

theorem updateAll_error_nonneg (start : 0 ≤ self.error) {calls : List (CoordinateState ℝ × ℝ)}
    (sound : ∀ call ∈ calls, 0 ≤ call.1.error ∧ 0 ≤ call.2) :
    0 ≤ (self.updateAll calls).error := by
  induction calls generalizing self with
  | nil => exact start
  | cons call calls ih =>
    obtain ⟨⟨other, measured⟩, later⟩ := List.forall_mem_cons.mp sound
    exact ih (update_error_nonneg start other measured) later

/-- **Vivaldi updates never overshoot**: over a run of updates the error stays at least zero, and
every update contracts the misfit to its peer. -/
theorem updateAll_contracts (start : 0 ≤ self.error) (calls : List (CoordinateState ℝ × ℝ))
    (sound : ∀ call ∈ calls, 0 ≤ call.1.error ∧ 0 ≤ call.2) :
    0 ≤ (self.updateAll calls).error ∧
      ∀ before peer measuredRtt after, calls = before ++ (peer, measuredRtt) :: after →
        0 ≤ (self.updateAll before).error ∧
        (self.updateAll before).Contracts peer measuredRtt := by
  refine ⟨updateAll_error_nonneg start sound, fun before peer measuredRtt after split => ?_⟩
  subst split
  obtain ⟨earlier, here, _⟩ := List.forall_mem_append.mp sound |>.imp_right List.forall_mem_cons.mp
  have own : 0 ≤ (self.updateAll before).error := updateAll_error_nonneg start earlier
  exact ⟨own, contracts own here.1 here.2⟩

/-- Two updates from a peer one second away. -/
theorem updateAll_contracts_second :
    ((⟨.origin, 1⟩ : CoordinateState ℝ).updateAll [(⟨⟨#v[1, 0, 0, 0, 0, 0]⟩, 1⟩, 2)]).Contracts
      ⟨⟨#v[1, 0, 0, 0, 0, 0]⟩, 1⟩ 3 :=
  ((updateAll_contracts zero_le_one
    [(⟨⟨#v[1, 0, 0, 0, 0, 0]⟩, 1⟩, 2), (⟨⟨#v[1, 0, 0, 0, 0, 0]⟩, 1⟩, 3)]
    (by norm_num)).2 [(⟨⟨#v[1, 0, 0, 0, 0, 0]⟩, 1⟩, 2)] ⟨⟨#v[1, 0, 0, 0, 0, 0]⟩, 1⟩ 3 [] rfl).2

end Rtfsn.CoordinateState
