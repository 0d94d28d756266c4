/-
**The mirrors meet.**

Each iteration truncates the midpoint and two half steps toward zero, whatever the signs.

* `Mirrors.next`: an iteration in integers. It leaves nothing between the mirrors that was not
  there (`next_within`), halves the gap but for one (`two_mul_gap_next`), and its sum does not grow
  (`sum_next`).
* `Steady`: so mirrors whose sum fits go on without an overflow (`Steady.cascade`), and
  `findFixedPoint_converges`: after 53 iterations less than a microsecond is between them.

What the code takes of `f64` is half of a difference (`F64.Halves`).
-/
import Rtfsn.Holonomy.TemporalMirror
import Rtfsn.Lib.TowardZero
import Rtfsn.Lib.Truncation

namespace Rtfsn

/-- Half of a difference is exact, and its fraction dropped. -/
def F64.Halves (F : Type) [F64 F] (bound : ℕ) : Prop :=
  ∀ d : ℤ, d.natAbs ≤ bound → F64.toI64 (F64.ofInt d * F64.lit (1 / 2) : F) = d.tdiv 2

theorem F64.halves_real {bound : ℕ} (small : bound < 2 ^ 63) : F64.Halves ℝ bound := by
  intro d within
  have fits : IsI64 d := by
    unfold IsI64 maxI64
    omega
  have half : (F64.ofInt d * F64.lit (1 / 2) : ℝ) = (d : ℝ) / (2 : ℕ) := by
    rw [ofInt_real, lit_real]
    push_cast
    ring
  have kept : F64.toI64 ((d : ℝ) / (2 : ℕ)) = saturateI64 (truncate ((d : ℝ) / (2 : ℕ))) := rfl
  rw [half, kept, truncate_div]
  exact saturateI64_of_isI64 fits.half

namespace Mirrors

/-! ### One iteration -/

/-- An iteration in integers. -/
def next (m : Mirrors) : Mirrors :=
  let midpoint := (m.predictive + m.retrodictive).tdiv 2
  ⟨m.predictive + (midpoint - m.predictive).tdiv 2,
    m.retrodictive + (midpoint - m.retrodictive).tdiv 2⟩

/-- How far the mirrors are apart. -/
def gap (m : Mirrors) : ℕ := (m.predictive - m.retrodictive).natAbs

/-- Both mirrors lie between `lo` and `hi`. -/
structure Within (lo hi : ℤ) (m : Mirrors) : Prop where
  predictive : lo ≤ m.predictive ∧ m.predictive ≤ hi
  retrodictive : lo ≤ m.retrodictive ∧ m.retrodictive ≤ hi

variable {lo hi : ℤ} {m : Mirrors}

/-- The three truncations of an iteration. -/
theorem next_cases (m : Mirrors) : ∃ midpoint p r : ℤ,
    m.next = ⟨m.predictive + p, m.retrodictive + r⟩ ∧
    ((0 ≤ m.predictive + m.retrodictive ∧ midpoint = (m.predictive + m.retrodictive) / 2) ∨
      (m.predictive + m.retrodictive < 0 ∧
        midpoint = -(-(m.predictive + m.retrodictive) / 2))) ∧
    ((0 ≤ midpoint - m.predictive ∧ p = (midpoint - m.predictive) / 2) ∨
      (midpoint - m.predictive < 0 ∧ p = -(-(midpoint - m.predictive) / 2))) ∧
    ((0 ≤ midpoint - m.retrodictive ∧ r = (midpoint - m.retrodictive) / 2) ∨
      (midpoint - m.retrodictive < 0 ∧ r = -(-(midpoint - m.retrodictive) / 2))) :=
  ⟨_, _, _, rfl, tdiv_two_cases _, tdiv_two_cases _, tdiv_two_cases _⟩

theorem next_within (within : m.Within lo hi) : m.next.Within lo hi := by
  obtain ⟨⟨loP, hiP⟩, loR, hiR⟩ := within
  obtain ⟨midpoint, p, r, next, mid, first, second⟩ := next_cases m
  rw [next]
  constructor <;> constructor <;> dsimp only <;> omega

/-- **The gap is halved**, but for one. -/
theorem two_mul_gap_next (m : Mirrors) : 2 * m.next.gap ≤ m.gap + 2 := by
  obtain ⟨midpoint, p, r, next, mid, first, second⟩ := next_cases m
  unfold gap
  rw [next]
  dsimp only
  omega

theorem gap_next_le (m : Mirrors) : m.next.gap ≤ m.gap := by
  obtain ⟨midpoint, p, r, next, mid, first, second⟩ := next_cases m
  unfold gap
  rw [next]
  dsimp only
  omega

theorem sum_next (m : Mirrors) :
    TowardZero (m.predictive + m.retrodictive) (m.next.predictive + m.next.retrodictive) := by
  obtain ⟨midpoint, p, r, next, mid, first, second⟩ := next_cases m
  unfold TowardZero
  rw [next]
  dsimp only
  omega

/-- Both ways to the midpoint are no longer than the gap. -/
theorem ways_le (m : Mirrors) :
    ((m.predictive + m.retrodictive).tdiv 2 - m.predictive).natAbs ≤ m.gap ∧
      ((m.predictive + m.retrodictive).tdiv 2 - m.retrodictive).natAbs ≤ m.gap := by
  have mid := tdiv_two_cases (m.predictive + m.retrodictive)
  unfold gap
  omega

/-! ### All iterations -/

theorem within_iterate (within : m.Within lo hi) (k : ℕ) : (next^[k] m).Within lo hi := by
  induction k with
  | zero => exact within
  | succ k ih =>
    rw [Function.iterate_succ_apply']
    exact next_within ih

/-- **The gap shrinks geometrically.** -/
theorem two_pow_mul_gap (m : Mirrors) (k : ℕ) :
    2 ^ k * (next^[k] m).gap ≤ m.gap + 2 * 2 ^ k := by
  induction k with
  | zero => simp
  | succ k ih =>
    rw [Function.iterate_succ_apply']
    have halved := Nat.mul_le_mul_left (2 ^ k) (two_mul_gap_next (next^[k] m))
    rw [pow_succ]
    nlinarith

/-- Mirrors whose sum fits, and whose difference is not more than `bound`. -/
structure Steady (bound : ℕ) (m : Mirrors) : Prop where
  predictive : IsI64 m.predictive
  retrodictive : IsI64 m.retrodictive
  sum : IsI64 (m.predictive + m.retrodictive)
  apart : m.gap ≤ bound

/-- Mirrors that lie near zero. -/
theorem steady_of_near (predictive : |m.predictive| ≤ 2 ^ 61)
    (retrodictive : |m.retrodictive| ≤ 2 ^ 61) : m.Steady (2 ^ 62) := by
  rw [abs_le] at predictive retrodictive
  have fits {z : ℤ} (near : -2 ^ 62 ≤ z ∧ z ≤ 2 ^ 62) : IsI64 z := by
    unfold IsI64 maxI64
    omega
  refine ⟨fits (by omega), fits (by omega), fits (by omega), ?_⟩
  unfold gap
  omega

variable {F : Type} [F64 F] {overflow : Overflow} {bound : ℕ}

theorem Steady.next (steady : m.Steady bound) : m.next.Steady bound where
  predictive := (next_within ⟨steady.predictive, steady.retrodictive⟩).predictive
  retrodictive := (next_within ⟨steady.predictive, steady.retrodictive⟩).retrodictive
  sum := (sum_next m).bounds (by norm_num) (by norm_num [maxI64]) steady.sum
  apart := (gap_next_le m).trans steady.apart

/-- A mirror's way to the midpoint. -/
theorem damp_eq (overflow : Overflow) (halves : F64.Halves F bound) (small : bound < 2 ^ 63)
    {midpoint mirror : ℤ} (near : (midpoint - mirror).natAbs ≤ bound)
    (fits : IsI64 (mirror + (midpoint - mirror).tdiv 2)) :
    damp F overflow midpoint mirror = some (mirror + (midpoint - mirror).tdiv 2) := by
  have way : IsI64 (midpoint - mirror) := by
    unfold IsI64 maxI64
    omega
  rw [damp, Overflow.i64_of_fits way, Option.bind_eq_bind, Option.bind_some, halves _ near,
    Overflow.i64_of_fits fits]

/-- **No operation of an iteration overflows.** -/
theorem Steady.adjust (halves : F64.Halves F bound) (small : bound < 2 ^ 63)
    (steady : m.Steady bound) : m.adjust F overflow = some m.next := by
  obtain ⟨first, second⟩ := ways_le m
  have predictive := damp_eq overflow halves small (first.trans steady.apart)
    steady.next.predictive
  have retrodictive := damp_eq overflow halves small (second.trans steady.apart)
    steady.next.retrodictive
  simp only [Mirrors.adjust, Overflow.i64_of_fits steady.sum, Option.bind_eq_bind,
    Option.bind_some, predictive, retrodictive]
  rfl

theorem Steady.disagreement (small : bound < 2 ^ 63) (steady : m.Steady bound) :
    m.disagreement overflow = some m.gap := by
  have apart := steady.apart
  have fits : IsI64 (m.predictive - m.retrodictive) := by
    unfold gap at apart
    unfold IsI64 maxI64
    omega
  rw [Mirrors.disagreement, Overflow.i64_of_fits fits]
  rfl

/-- **The loop** makes `k` iterations: the first after which the mirrors are less than a microsecond
apart, or as many as it may. -/
theorem Steady.cascade (overflow : Overflow) (halves : F64.Halves F bound) (small : bound < 2 ^ 63)
    (steady : m.Steady bound) (remaining iterations : ℕ) :
    ∃ k ≤ remaining, Mirrors.cascade F overflow remaining iterations m =
        some (iterations + k, Mirrors.next^[k] m) ∧
      (k < remaining → (Mirrors.next^[k] m).gap < 1000) ∧
      ∀ j, 0 < j → j < k → 1000 ≤ (Mirrors.next^[j] m).gap := by
  induction remaining generalizing iterations m with
  | zero => exact ⟨0, le_rfl, rfl, fun less => absurd less (lt_irrefl 0), fun _ _ none => by omega⟩
  | succ remaining ih =>
    simp only [Mirrors.cascade, steady.adjust halves small, steady.next.disagreement small,
      Option.bind_eq_bind, Option.bind_some]
    split_ifs with near
    · exact ⟨1, by omega, rfl, fun _ => near, fun _ _ none => by omega⟩
    · obtain ⟨k, most, looped, stopped, before⟩ := ih steady.next (iterations + 1)
      refine ⟨k + 1, by omega, ?_, fun less => ?_, fun j pos less => ?_⟩
      · rw [looped, Function.iterate_succ_apply, Nat.add_assoc, Nat.add_comm 1 k]
      · exact stopped (by omega)
      · cases j with
        | zero => exact absurd pos (lt_irrefl 0)
        | succ j =>
          rw [Function.iterate_succ_apply]
          rcases j.eq_zero_or_pos with rfl | later
          · exact not_lt.mp near
          · exact before j later (by omega)

theorem Steady.iterate (steady : m.Steady bound) (k : ℕ) : (Mirrors.next^[k] m).Steady bound := by
  induction k with
  | zero => exact steady
  | succ k ih =>
    rw [Function.iterate_succ_apply']
    exact ih.next

/-- The midpoint lies where the mirrors lie. -/
theorem Within.midpoint (within : m.Within lo hi) :
    lo ≤ (m.predictive + m.retrodictive).tdiv 2 ∧ (m.predictive + m.retrodictive).tdiv 2 ≤ hi := by
  obtain ⟨⟨loP, hiP⟩, loR, hiR⟩ := within
  have mid := tdiv_two_cases (m.predictive + m.retrodictive)
  omega

end Mirrors

namespace TemporalMirror

/-- The mirrors before the loop: the means of both lists. -/
def initial (forwardEstimates backwardEstimates : List ℤ) : Mirrors :=
  ⟨forwardEstimates.sum.tdiv forwardEstimates.length,
    backwardEstimates.sum.tdiv backwardEstimates.length⟩

/-- What is returned of the mirrors after `k` iterations. -/
def ofMirrors (k : ℕ) (m : Mirrors) : TemporalMirror where
  predictiveTimeNanos := wrapU64 m.predictive
  retrodictiveTimeNanos := wrapU64 m.retrodictive
  fixedPointNanos := wrapU64 ((m.predictive + m.retrodictive).tdiv 2)
  disagreementNanos := m.gap
  iterationsToConverge := k

variable {F : Type} [F64 F] {overflow : Overflow} {bound : ℕ} {forward backward : List ℤ}

theorem meanEstimate_of_fits (fits : overflow.SumFits forward) :
    meanEstimate overflow forward = some (forward.sum.tdiv forward.length) := by
  rw [meanEstimate, Overflow.sum_of_fits fits]
  rfl

theorem meanEstimate_panics {r : ℤ} : meanEstimate .panics forward = some r ↔
    Overflow.panics.SumFits forward ∧ forward.sum.tdiv forward.length = r := by
  rw [meanEstimate, Overflow.bind_eq_some fun s => Overflow.sum_panics_iff, Option.pure_def,
    Option.some_inj]

/-- A cascade that went through has added up sums that fit, and then their means. -/
theorem sums_of_findFixedPoint (someForward : forward ≠ []) (someBackward : backward ≠ [])
    {maxIterations : ℕ} {mirror : TemporalMirror}
    (found : findFixedPoint F .panics forward backward (maxIterations + 1) = some mirror) :
    Overflow.panics.SumFits forward ∧ Overflow.panics.SumFits backward ∧
      IsI64 ((initial forward backward).predictive + (initial forward backward).retrodictive) := by
  have none : (forward.isEmpty || backward.isEmpty) = false := by simp [someForward, someBackward]
  simp only [findFixedPoint, none, Bool.false_eq_true, if_false, Option.bind_eq_bind,
    Option.bind_eq_some_iff, meanEstimate_panics, Mirrors.cascade, Mirrors.adjust,
    Overflow.i64_panics_iff] at found
  obtain ⟨_, ⟨fitsForward, rfl⟩, _, ⟨fitsBackward, rfl⟩, _, ⟨_, ⟨_, ⟨sum, -⟩, -⟩, -⟩, -⟩ := found
  exact ⟨fitsForward, fitsBackward, sum⟩

/-- **The cascade goes through** from means that are steady. -/
theorem findFixedPoint_of_means (halves : F64.Halves F bound) (small : bound < 2 ^ 63)
    (someForward : forward ≠ []) (someBackward : backward ≠ []) {start : Mirrors}
    (forwardMean : meanEstimate overflow forward = some start.predictive)
    (backwardMean : meanEstimate overflow backward = some start.retrodictive)
    (steady : start.Steady bound) (maxIterations : ℕ) :
    ∃ k ≤ maxIterations, findFixedPoint F overflow forward backward maxIterations =
        some (ofMirrors k (Mirrors.next^[k] start)) ∧
      (k < maxIterations → (Mirrors.next^[k] start).gap < 1000) ∧
      ∀ j, 0 < j → j < k → 1000 ≤ (Mirrors.next^[j] start).gap := by
  obtain ⟨k, most, looped, stopped, before⟩ :=
    steady.cascade overflow halves small maxIterations 0
  have settled := steady.iterate k
  refine ⟨k, most, ?_, stopped, before⟩
  have none : (forward.isEmpty || backward.isEmpty) = false := by simp [someForward, someBackward]
  simp only [findFixedPoint, none, forwardMean, backwardMean, looped,
    Overflow.i64_of_fits settled.sum, settled.disagreement small, Option.bind_eq_bind,
    Option.bind_some, Nat.zero_add]
  rfl

theorem findFixedPoint_eq (halves : F64.Halves F bound) (small : bound < 2 ^ 63)
    (someForward : forward ≠ []) (someBackward : backward ≠ [])
    (fitsForward : overflow.SumFits forward) (fitsBackward : overflow.SumFits backward)
    (steady : (initial forward backward).Steady bound) (maxIterations : ℕ) :
    ∃ k ≤ maxIterations, findFixedPoint F overflow forward backward maxIterations =
        some (ofMirrors k (Mirrors.next^[k] (initial forward backward))) ∧
      (k < maxIterations → (Mirrors.next^[k] (initial forward backward)).gap < 1000) ∧
      ∀ j, 0 < j → j < k → 1000 ≤ (Mirrors.next^[j] (initial forward backward)).gap :=
  findFixedPoint_of_means halves small someForward someBackward (meanEstimate_of_fits fitsForward)
    (meanEstimate_of_fits fitsBackward) steady maxIterations

/-- An `i64` is read back from the `u64` it is cast to. -/
theorem wrapI64_wrapU64 {z : ℤ} (fits : IsI64 z) : wrapI64 (wrapU64 z) = z := by
  have bits : (wrapU64 z : ℤ) = z % 2 ^ 64 := Int.toNat_of_nonneg (Int.emod_nonneg z (by norm_num))
  rw [wrapI64, bits]
  exact (Int.emod_bmod z (2 ^ 64)).trans (wrapI64_eq_iff.mpr fits)

/-- A cascade that ends because the mirrors met. -/
structure Converges (F : Type) [F64 F] (overflow : Overflow) (start : Mirrors) (maxIterations : ℕ)
    (mirror : TemporalMirror) (trace : ℕ → Mirrors) : Prop where
  early : mirror.iterationsToConverge < maxIterations
  agreed : mirror.disagreementNanos < 1000
  starts : trace 0 = start
  steps : ∀ k < mirror.iterationsToConverge, (trace k).adjust F overflow = some (trace (k + 1))
  closer : ∀ k < mirror.iterationsToConverge, (trace (k + 1)).gap ≤ (trace k).gap
  between : ∀ k ≤ mirror.iterationsToConverge, (trace k).Within
    (min start.predictive start.retrodictive) (max start.predictive start.retrodictive)
  ends : mirror = ofMirrors mirror.iterationsToConverge (trace mirror.iterationsToConverge)
  predictive : min start.predictive start.retrodictive ≤ wrapI64 mirror.predictiveTimeNanos ∧
    wrapI64 mirror.predictiveTimeNanos ≤ max start.predictive start.retrodictive
  retrodictive : min start.predictive start.retrodictive ≤ wrapI64 mirror.retrodictiveTimeNanos ∧
    wrapI64 mirror.retrodictiveTimeNanos ≤ max start.predictive start.retrodictive
  fixedPoint : min start.predictive start.retrodictive ≤ wrapI64 mirror.fixedPointNanos ∧
    wrapI64 mirror.fixedPointNanos ≤ max start.predictive start.retrodictive

theorem within_initial (m : Mirrors) :
    m.Within (min m.predictive m.retrodictive) (max m.predictive m.retrodictive) :=
  ⟨⟨min_le_left _ _, le_max_left _ _⟩, min_le_right _ _, le_max_right _ _⟩

/-- **The mirrors meet.** Over exact numbers, in either build, 64 iterations are more than enough:
the loop is left early with less than a microsecond between the mirrors, which come no further
apart on the way, and never leave the range of the two means. -/
theorem findFixedPoint_converges (someForward : forward ≠ []) (someBackward : backward ≠ [])
    (fitsForward : overflow.SumFits forward) (fitsBackward : overflow.SumFits backward)
    (nearForward : |forward.sum.tdiv forward.length| ≤ 2 ^ 61)
    (nearBackward : |backward.sum.tdiv backward.length| ≤ 2 ^ 61) {maxIterations : ℕ}
    (enough : 64 ≤ maxIterations) :
    ∃ mirror trace, findFixedPoint ℝ overflow forward backward maxIterations = some mirror ∧
      Converges ℝ overflow (initial forward backward) maxIterations mirror trace := by
  have small : 2 ^ 62 < 2 ^ 63 := by norm_num
  have halves := F64.halves_real small
  have steady : (initial forward backward).Steady (2 ^ 62) :=
    Mirrors.steady_of_near nearForward nearBackward
  obtain ⟨k, most, returned, stopped, before⟩ := findFixedPoint_eq halves small someForward
    someBackward fitsForward fitsBackward steady maxIterations
  -- After 53 iterations the gap is that of the means over `2 ^ 53`, and two.
  have soon : k ≤ 53 := by
    by_contra later
    have wide := before 53 (by norm_num) (by omega)
    have shrunk := Mirrors.two_pow_mul_gap (initial forward backward) 53
    have apart := steady.apart
    omega
  have within := within_initial (initial forward backward)
  have settled := steady.iterate k
  have ended := Mirrors.within_iterate within k
  have middle : IsI64 ((Mirrors.next^[k] (initial forward backward)).predictive +
      (Mirrors.next^[k] (initial forward backward)).retrodictive |>.tdiv 2) := settled.sum.half
  refine ⟨_, fun j => Mirrors.next^[j] (initial forward backward), returned, ?_⟩
  exact
    { early := by dsimp only [ofMirrors]; omega
      agreed := stopped (by omega)
      starts := rfl
      steps := fun j _ => by
        rw [Function.iterate_succ_apply']
        exact (steady.iterate j).adjust halves small
      closer := fun j _ => by
        rw [Function.iterate_succ_apply']
        exact Mirrors.gap_next_le _
      between := fun j _ => Mirrors.within_iterate within j
      ends := rfl
      predictive := (wrapI64_wrapU64 settled.predictive).symm ▸ ended.predictive
      retrodictive := (wrapI64_wrapU64 settled.retrodictive).symm ▸ ended.retrodictive
      fixedPoint := (wrapI64_wrapU64 middle).symm ▸ ended.midpoint }

/-- Six estimates around a second. -/
theorem findFixedPoint_converges_second :
    ∃ mirror trace, findFixedPoint ℝ .panics [1000000000, 1000001000, 999999000]
        [1000000500, 1000000200, 999999800] 100 = some mirror ∧
      Converges ℝ .panics (initial [1000000000, 1000001000, 999999000]
        [1000000500, 1000000200, 999999800]) 100 mirror trace :=
  findFixedPoint_converges (by simp) (by simp)
    ((Overflow.sumFits_panics_of_nonneg (by simp)).mpr (by decide))
    ((Overflow.sumFits_panics_of_nonneg (by simp)).mpr (by decide)) (by decide) (by decide)
    (by decide)

end TemporalMirror

end Rtfsn
