/-
**Which nodes the geometric consistency check rejects.**

`rejectGeometricOutliers` lists the entries with a high residual, and those whose offset lies more
than two and a half standard deviations from the mean of the entries with a low one. Without an
entry of the second kind it returns before it looks at any residual.

* `mem_reject`: what is listed, where some residual is low.
* `low_rejected_lt`: fewer than four in twenty-five of the entries with a low residual are.
* `reject_checks_iff`: so the list is as it should be exactly where some residual is low, or there
  is nothing to check.
-/
import Rtfsn.Lib.Dispersion
import Rtfsn.Numbers

namespace Rtfsn

/-- The indices of the entries to reject, each an offset with its residual. -/
def rejectGeometricOutliers {F : Type} [F64 F] (offsets : List (F × F)) (maxResidual : F) :
    List ℕ :=
  let filtered := (offsets.filter fun entry => F64.le entry.2 maxResidual).map Prod.fst
  if filtered.isEmpty then []
  else
    let mean := F64.sum filtered / F64.ofNat filtered.length
    let variance :=
      F64.sum (filtered.map fun o => F64.powi (o - mean) 2) / F64.ofNat filtered.length
    let threshold := F64.lit 2.5 * F64.sqrt variance
    (offsets.zipIdx.filter fun entry =>
      F64.lt maxResidual entry.1.2 || F64.lt threshold (F64.abs (entry.1.1 - mean))).map Prod.snd

namespace GeometricOutliers

variable {offsets : List (ℝ × ℝ)} {maxResidual : ℝ}

/-- The offsets of the entries with a low residual. -/
noncomputable def lowOffsets (offsets : List (ℝ × ℝ)) (maxResidual : ℝ) : List ℝ :=
  (offsets.filter fun entry => entry.2 ≤ maxResidual).map Prod.fst

/-- The offset lies far from the mean of those. -/
def Far (offsets : List (ℝ × ℝ)) (maxResidual : ℝ) (offset : ℝ) : Prop :=
  2.5 * √(Dispersion.variance (lowOffsets offsets maxResidual)) <
    |offset - Dispersion.mean (lowOffsets offsets maxResidual)|

noncomputable instance (offset : ℝ) : Decidable (Far offsets maxResidual offset) :=
  inferInstanceAs (Decidable (_ < _))

theorem lowOffsets_ne_nil {entry : ℝ × ℝ} (listed : entry ∈ offsets)
    (low : entry.2 ≤ maxResidual) : lowOffsets offsets maxResidual ≠ [] :=
  List.ne_nil_of_mem (List.mem_map_of_mem (List.mem_filter.mpr ⟨listed, decide_eq_true low⟩))

theorem reject_of_none (none : lowOffsets offsets maxResidual = []) :
    rejectGeometricOutliers offsets maxResidual = [] :=
  if_pos (List.isEmpty_iff.mpr none)

theorem reject_eq (some : lowOffsets offsets maxResidual ≠ []) :
    rejectGeometricOutliers offsets maxResidual =
      (offsets.zipIdx.filter fun entry =>
        maxResidual < entry.1.2 ∨ Far offsets maxResidual entry.1.1).map Prod.snd := by
  refine (if_neg fun empty => some (List.isEmpty_iff.mp empty)).trans ?_
  simp [Far, lowOffsets, Dispersion.variance, Dispersion.mean]

/-- What is rejected, where some residual is low. -/
theorem mem_reject (some : lowOffsets offsets maxResidual ≠ []) {i : ℕ} {entry : ℝ × ℝ}
    (found : offsets[i]? = .some entry) :
    i ∈ rejectGeometricOutliers offsets maxResidual ↔
      maxResidual < entry.2 ∨ Far offsets maxResidual entry.1 := by
  rw [reject_eq some, List.mem_map]
  constructor
  · rintro ⟨⟨other, j⟩, listed, rfl⟩
    obtain ⟨inside, out⟩ := List.mem_filter.mp listed
    have same := (List.mem_zipIdx_iff_getElem?.mp inside).symm.trans found
    rw [← Option.some.inj same]
    exact of_decide_eq_true out
  · intro out
    exact ⟨(entry, i), List.mem_filter.mpr
      ⟨List.mem_zipIdx_iff_getElem?.mpr found, decide_eq_true out⟩, rfl⟩

/-- The indices are valid and go up. -/
theorem reject_sublist (offsets : List (ℝ × ℝ)) (maxResidual : ℝ) :
    (rejectGeometricOutliers offsets maxResidual).Sublist (List.range offsets.length) := by
  by_cases none : lowOffsets offsets maxResidual = []
  · rw [reject_of_none none]
    exact List.nil_sublist _
  · rw [reject_eq none, List.range_eq_range', ← List.zipIdx_map_snd]
    exact List.filter_sublist.map _

/-- The entries with a low residual that are rejected. -/
noncomputable def lowRejected (offsets : List (ℝ × ℝ)) (maxResidual : ℝ) (rejected : List ℕ) : ℕ :=
  offsets.zipIdx.countP fun entry => entry.1.2 ≤ maxResidual ∧ entry.2 ∈ rejected

theorem countP_zipIdx {A : Type} (p : A → Bool) (xs : List A) :
    (xs.zipIdx.countP fun entry => p entry.1) = xs.countP p := by
  conv_rhs => rw [← List.zipIdx_map_fst 0 xs, List.countP_map]
  rfl

theorem lowRejected_eq (some : lowOffsets offsets maxResidual ≠ []) :
    lowRejected offsets maxResidual (rejectGeometricOutliers offsets maxResidual) =
      (lowOffsets offsets maxResidual).countP fun offset => Far offsets maxResidual offset := by
  calc lowRejected offsets maxResidual (rejectGeometricOutliers offsets maxResidual)
      = offsets.zipIdx.countP fun entry =>
          entry.1.2 ≤ maxResidual ∧ Far offsets maxResidual entry.1.1 := by
        refine List.countP_congr fun entry listed => ?_
        have rejected := mem_reject some (List.mem_zipIdx_iff_getElem?.mp listed)
        simp only [decide_eq_true_eq]
        rw [rejected]
        exact and_congr_right fun low => or_iff_right low.not_gt
    _ = offsets.countP fun entry =>
          entry.2 ≤ maxResidual ∧ Far offsets maxResidual entry.1 :=
        countP_zipIdx (fun entry : ℝ × ℝ =>
          entry.2 ≤ maxResidual ∧ Far offsets maxResidual entry.1) offsets
    _ = (lowOffsets offsets maxResidual).countP fun offset =>
          Far offsets maxResidual offset := by
        rw [lowOffsets, List.countP_map, List.countP_filter]
        refine List.countP_congr fun entry _ => ?_
        simp [and_comm]

theorem length_lowOffsets :
    (lowOffsets offsets maxResidual).length =
      offsets.countP fun entry => entry.2 ≤ maxResidual := by
  rw [lowOffsets, List.length_map, ← List.countP_eq_length_filter]

/-- **Few of the good entries are rejected.** -/
theorem low_rejected_lt (some : lowOffsets offsets maxResidual ≠ []) :
    lowRejected offsets maxResidual (rejectGeometricOutliers offsets maxResidual) * 25 <
      4 * offsets.countP fun entry => entry.2 ≤ maxResidual := by
  have chebyshev := Dispersion.countP_far_lt some (show (0 : ℝ) < 2.5 by norm_num)
  rw [lowRejected_eq some, ← length_lowOffsets]
  unfold Far
  have cast : ((lowOffsets offsets maxResidual).countP fun offset =>
      2.5 * √(Dispersion.variance (lowOffsets offsets maxResidual)) <
        |offset - Dispersion.mean (lowOffsets offsets maxResidual)| : ℝ) * 25 <
      4 * (lowOffsets offsets maxResidual).length := by
    linarith
  exact_mod_cast cast

/-- What is promised of the rejected indices. -/
structure Checks (offsets : List (ℝ × ℝ)) (maxResidual : ℝ) (rejected : List ℕ) : Prop where
  increasing : rejected.Pairwise (· < ·)
  valid : ∀ i ∈ rejected, i < offsets.length
  high : ∀ i entry, offsets[i]? = some entry → maxResidual < entry.2 → i ∈ rejected
  few : (∃ entry ∈ offsets, entry.2 ≤ maxResidual) →
    lowRejected offsets maxResidual rejected * 25 <
      4 * offsets.countP fun entry => entry.2 ≤ maxResidual
  survivor : (∃ entry ∈ offsets, entry.2 ≤ maxResidual) →
    ∃ i entry, offsets[i]? = some entry ∧ entry.2 ≤ maxResidual ∧ i ∉ rejected

/-- Where few are rejected, some are not. -/
theorem exists_survivor {rejected : List ℕ}
    (few : lowRejected offsets maxResidual rejected * 25 <
      4 * offsets.countP fun entry => entry.2 ≤ maxResidual) :
    ∃ i entry, offsets[i]? = some entry ∧ entry.2 ≤ maxResidual ∧ i ∉ rejected := by
  by_contra none
  push Not at none
  have all : lowRejected offsets maxResidual rejected =
      offsets.countP fun entry => entry.2 ≤ maxResidual := by
    rw [← countP_zipIdx]
    refine List.countP_congr fun entry listed => ?_
    have found := none _ _ (List.mem_zipIdx_iff_getElem?.mp listed)
    simpa using found
  omega

/-- **When the check does what it promises**: some residual is low, or there are no entries. -/
theorem reject_checks_iff (offsets : List (ℝ × ℝ)) (maxResidual : ℝ) :
    Checks offsets maxResidual (rejectGeometricOutliers offsets maxResidual) ↔
      offsets = [] ∨ ∃ entry ∈ offsets, entry.2 ≤ maxResidual := by
  have increasing := List.pairwise_lt_range.sublist (reject_sublist offsets maxResidual)
  constructor
  · intro checks
    by_contra neither
    obtain ⟨some, allHigh⟩ := not_or.mp neither
    push Not at allHigh
    have none : lowOffsets offsets maxResidual = [] := by
      simpa [lowOffsets] using allHigh
    obtain ⟨entry, rest, rfl⟩ := List.exists_cons_of_ne_nil some
    have rejected := checks.high 0 entry rfl (allHigh entry List.mem_cons_self)
    rw [reject_of_none none] at rejected
    cases rejected
  · rintro (rfl | ⟨entry, listed, low⟩)
    · exact ⟨.nil, by simp [rejectGeometricOutliers], by simp, by simp, by simp⟩
    · have some := lowOffsets_ne_nil listed low
      exact
        { increasing := increasing
          valid := fun i member =>
            List.mem_range.mp ((reject_sublist offsets maxResidual).subset member)
          high := fun i entry found out => (mem_reject some found).mpr (Or.inl out)
          few := fun _ => low_rejected_lt some
          survivor := fun _ => exists_survivor (low_rejected_lt some) }

/-- **Nothing is rejected when everything should be**: one node, ten times past the limit. -/
theorem reject_misses_high :
    ¬ ∀ (offsets : List (ℝ × ℝ)) (maxResidual : ℝ),
      Checks offsets maxResidual (rejectGeometricOutliers offsets maxResidual) := by
  intro checks
  have none : lowOffsets [(5, 0.1)] 0.01 = [] := by
    norm_num [lowOffsets]
  have rejected := (checks [(5, 0.1)] 0.01).high 0 (5, 0.1) rfl (by norm_num)
  rw [reject_of_none none] at rejected
  cases rejected

end GeometricOutliers

end Rtfsn
