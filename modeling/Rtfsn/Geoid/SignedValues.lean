/-
**Committing to signed values.**

An `i64` becomes a scalar by way of a `u64`: what is negative is negated first, and the scalar back.

* `signed`: the encoding, in either build. `commitF64_eq`, `commitLatencyIn_wraps`: it is the one of
  every commitment to a signed value.
* `signed_commitments`: without an overflow it is the integer modulo the order of the group, and
  commitments add up; with one, a build with overflow checks stops. `signed_wraps`: a release build
  comes out right.
-/
import Rtfsn.Crypto.GroupOrder
import Rtfsn.Geoid.Coarsen
import Rtfsn.Lib.LinearCommitment
import Rtfsn.Overflow

namespace Rtfsn

section

variable {F Point Scalar : Type} [F64 F] [AddCommGroup Point] [CommRing Scalar]
  [Module Scalar Point] (curve : Ristretto Point Scalar) (hGenerator : Point)

namespace PedersenCommitment

/-- The scalar of an `i64`. -/
def signed (overflow : Overflow) (n : ℤ) : Option Scalar :=
  if 0 ≤ n then some (n.toNat : Scalar)
  else (overflow.i64 (-n)).map fun m => -(wrapU64 m : Scalar)

/-- A value in billionths. -/
def quantized (value : F) : ℤ := F64.toI64 (value * F64.lit 1000000000)

/-- The bits of a magnitude are the magnitude. -/
theorem neg_wrapU64 {n : ℤ} (neg : n < 0) (above : -2 ^ 63 ≤ n) :
    -(wrapU64 (-n) : Scalar) = n := by
  have kept : (wrapU64 (-n) : ℤ) = -n := by
    rw [wrapU64_eq_iff]
    unfold IsU64 maxU64
    omega
  rw [← Int.cast_natCast, kept, Int.cast_neg, neg_neg]

theorem signed_of_nonneg (overflow : Overflow) {n : ℤ} (nonneg : 0 ≤ n) :
    signed overflow n = some (n : Scalar) := by
  have kept : ((n.toNat : ℤ) : Scalar) = n := by rw [Int.toNat_of_nonneg nonneg]
  rw [signed, if_pos nonneg, ← kept, Int.cast_natCast]

theorem signed_panics {n : ℤ} {s : Scalar} :
    signed .panics n = some s ↔ -2 ^ 63 < n ∧ (n : Scalar) = s := by
  by_cases nonneg : 0 ≤ n
  · rw [signed_of_nonneg _ nonneg, Option.some_inj, and_iff_right (by omega)]
  · have fits : IsI64 (-n) ↔ -2 ^ 63 < n := by
      unfold IsI64 maxI64
      omega
    rw [signed, if_neg nonneg, Option.map_eq_some_iff]
    simp only [Overflow.i64_panics_iff, fits]
    constructor
    · rintro ⟨_, ⟨above, rfl⟩, rfl⟩
      exact ⟨above, (neg_wrapU64 (by omega) above.le).symm⟩
    · rintro ⟨above, rfl⟩
      exact ⟨-n, ⟨above, rfl⟩, neg_wrapU64 (by omega) above.le⟩

/-- **A release build** comes out right: the bits of the least `i64`, which is negated to itself,
are its magnitude. -/
theorem signed_wraps {n : ℤ} (fits : IsI64 n) : signed .wraps n = some (n : Scalar) := by
  by_cases nonneg : 0 ≤ n
  · exact signed_of_nonneg _ nonneg
  · have bits : wrapU64 (wrapI64 (-n)) = wrapU64 (-n) := by
      have reduced := Int.bmod_emod (x := -n) (m := 2 ^ 64)
      push_cast at reduced
      exact congrArg Int.toNat reduced
    rw [signed, if_neg nonneg]
    exact congrArg some ((congrArg (fun m : ℕ => -(m : Scalar)) bits).trans
      (neg_wrapU64 (by omega) fits.1))

/-- The commitment to an `f64` is one to its billionths. -/
theorem commitF64_eq (value : F) (blinding : Scalar) :
    commitF64 curve hGenerator value blinding =
      (signed .panics (quantized value)).map fun s => commit curve hGenerator s blinding := by
  unfold commitF64 signed
  change (if 0 ≤ quantized value then _ else _) = _
  split_ifs with nonneg
  · rfl
  · rw [Option.map_map]
    refine Option.map_congr fun m negated => ?_
    obtain ⟨fits, rfl⟩ := checkedI64_eq_some.mp negated
    have bits : wrapU64 (-quantized value) = (-quantized value).toNat := by
      change IsI64 (-quantized value) at fits
      unfold wrapU64
      unfold IsI64 maxI64 at fits
      omega
    exact congrArg (fun m : ℕ => commit curve hGenerator (-(m : Scalar)) blinding) bits.symm

theorem commitF64_exact (value : F) (blinding : Scalar) :
    commitF64 curve hGenerator value blinding =
        some (commit curve hGenerator (quantized value : Scalar) blinding) ↔
      -2 ^ 63 < quantized value := by
  rw [commitF64_eq, Option.map_eq_some_iff]
  constructor
  · rintro ⟨s, encoded, -⟩
    exact (signed_panics.mp encoded).1
  · intro above
    exact ⟨_, signed_panics.mpr ⟨above, rfl⟩, rfl⟩

/-- Commitments to two values add up to one to their sum. -/
theorem verify_add [DecidableEq Point] (value value' blinding blinding' : Scalar) :
    ((commit curve hGenerator value blinding).add curve
      (commit curve hGenerator value' blinding')).verify curve hGenerator (value + value')
        (blinding + blinding') = true :=
  decide_eq_true (LinearCommitment.commit_add curve.basepoint hGenerator _ _ _ _)

end PedersenCommitment

open PedersenCommitment (commit commitF64 signed quantized)

namespace CoarseningOperator

variable (blindings : Draw → Scalar × Scalar)

/-- `commit_latency`, in either build. -/
def commitLatencyIn (overflow : Overflow) (draw : Draw) (meanNanos varianceNanos : ℤ)
    (count : UInt32) : Option CommittedLatencyProfile := do
  let meanScalar ← signed overflow meanNanos
  let varScalar ← signed overflow varianceNanos
  return {
    committedMean := .from (commit curve hGenerator meanScalar (blindings draw).1)
    committedVariance := .from (commit curve hGenerator varScalar (blindings draw).2)
    sampleCount := count }

/-- The profiles of a hierarchy are those of a release build. -/
theorem commitLatencyIn_wraps (draw : Draw) (meanNanos varianceNanos : ℤ) (count : UInt32) :
    commitLatencyIn curve hGenerator blindings .wraps draw meanNanos varianceNanos count =
      some (commitLatency curve hGenerator blindings draw meanNanos varianceNanos count) := by
  have encoded (n : ℤ) : signed .wraps n = some (signedScalar n : Scalar) := by
    unfold signed signedScalar
    split_ifs <;> rfl
  rw [commitLatencyIn, encoded, encoded]
  rfl

theorem commitLatencyIn_exact (draw : Draw) (meanNanos varianceNanos : ℤ) (count : UInt32) :
    commitLatencyIn curve hGenerator blindings .panics draw meanNanos varianceNanos count =
        some ⟨.from (commit curve hGenerator (meanNanos : Scalar) (blindings draw).1),
          .from (commit curve hGenerator (varianceNanos : Scalar) (blindings draw).2), count⟩ ↔
      -2 ^ 63 < meanNanos ∧ -2 ^ 63 < varianceNanos := by
  simp only [commitLatencyIn, Option.bind_eq_bind, Option.bind_eq_some_iff,
    PedersenCommitment.signed_panics]
  constructor
  · rintro ⟨_, ⟨mean, -⟩, _, ⟨variance, -⟩, -⟩
    exact ⟨mean, variance⟩
  · rintro ⟨mean, variance⟩
    exact ⟨_, ⟨mean, rfl⟩, _, ⟨variance, rfl⟩, rfl⟩

end CoarseningOperator

/-- **When a signed value is committed to as it is.** The commitments of both functions, and the sum
of any two, open to the integers, just where none of them is the least `i64`. -/
theorem signed_commitments [DecidableEq Point] :
    (∀ (value : F) (blinding : Scalar), commitF64 curve hGenerator value blinding =
        some (commit curve hGenerator (quantized value : Scalar) blinding) ↔
      -2 ^ 63 < quantized value) ∧
    (∀ (blindings : Draw → Scalar × Scalar) (draw : Draw) (meanNanos varianceNanos : ℤ)
      (count : UInt32),
      CoarseningOperator.commitLatencyIn curve hGenerator blindings .panics draw meanNanos
          varianceNanos count =
        some ⟨.from (commit curve hGenerator (meanNanos : Scalar) (blindings draw).1),
          .from (commit curve hGenerator (varianceNanos : Scalar) (blindings draw).2), count⟩ ↔
      -2 ^ 63 < meanNanos ∧ -2 ^ 63 < varianceNanos) ∧
    ∀ (n n' : ℤ) (blinding blinding' : Scalar),
      (∃ s s' : Scalar, signed .panics n = some s ∧ signed .panics n' = some s' ∧
        ((commit curve hGenerator s blinding).add curve
          (commit curve hGenerator s' blinding')).verify curve hGenerator (n + n')
            (blinding + blinding') = true) ↔
      -2 ^ 63 < n ∧ -2 ^ 63 < n' := by
  refine ⟨PedersenCommitment.commitF64_exact curve hGenerator,
    CoarseningOperator.commitLatencyIn_exact curve hGenerator, fun n n' blinding blinding' => ?_⟩
  constructor
  · rintro ⟨_, _, first, second, -⟩
    exact ⟨(PedersenCommitment.signed_panics.mp first).1,
      (PedersenCommitment.signed_panics.mp second).1⟩
  · rintro ⟨above, above'⟩
    exact ⟨n, n', PedersenCommitment.signed_panics.mpr ⟨above, rfl⟩,
      PedersenCommitment.signed_panics.mpr ⟨above', rfl⟩,
      PedersenCommitment.verify_add curve hGenerator _ _ _ _⟩

end

open Layer1Store (groupOrder)
open scoped PrimeOrder

theorem quantized_least : PedersenCommitment.quantized (-10000000000 : ℝ) = -2 ^ 63 := by
  have billionths : (-10000000000 : ℝ) * F64.lit 1000000000 = ((-10 ^ 19 : ℤ) : ℝ) := by
    norm_num
  have neg : ¬(0 : ℝ) ≤ ((-10 ^ 19 : ℤ) : ℝ) := by norm_num
  unfold PedersenCommitment.quantized
  rw [billionths]
  change max (-2 ^ 63) (min (if (0 : ℝ) ≤ ((-10 ^ 19 : ℤ) : ℝ) then _ else _) (2 ^ 63 - 1)) = _
  rw [if_neg neg, Int.ceil_intCast]
  norm_num

/-- **A clock offset that stops the aggregator**: ten thousand million seconds behind is the least
`i64` in billionths. -/
theorem commitF64_stops :
    PedersenCommitment.commitF64 (Ristretto.modular groupOrder) 2 (-10000000000 : ℝ) 1 = none ∧
    ¬ ∀ (value : ℝ) (blinding : ZMod groupOrder),
      PedersenCommitment.commitF64 (Ristretto.modular groupOrder) 2 value blinding =
        some (PedersenCommitment.commit (Ristretto.modular groupOrder) 2
          (PedersenCommitment.quantized value : ZMod groupOrder) blinding) := by
  have stops : PedersenCommitment.commitF64 (Ristretto.modular groupOrder) 2
      (-10000000000 : ℝ) 1 = none := by
    rw [PedersenCommitment.commitF64_eq, quantized_least]
    rfl
  refine ⟨stops, fun all => ?_⟩
  have opened := all (-10000000000) 1
  rw [stops] at opened
  cases opened

end Rtfsn
