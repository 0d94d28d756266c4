/-
The latency profile of an edge.

* `TwistLUT.profile`: the statistics of an edge's measurements. Every sum and product is an `i64`,
  in either build (`Overflow`). The outer `none` is a panic, the inner one what the source returns.
* `Exact`: what the statistics are to be. `Fits`: the sums over the measurements that have to fit.
* `profile_exact_iff`: with overflow checks the exact profile is returned where they fit, and only
  there. `profile_overflows`: two round trips do not, and what a release build makes of them.
-/
import Rtfsn.Holonomy.Twist
import Rtfsn.Lib.LineFit
import Rtfsn.Lib.Ranking
import Rtfsn.Lib.Truncation
import Rtfsn.Overflow

namespace Rtfsn

open LineFit (Datum BestLine)

namespace TwistIndex

/-- `rtt_nanos as i64`. -/
def rtt (twist : TwistIndex) : ℤ := wrapI64 twist.rttNanos

/-- `epoch_measured as i64`. -/
def epoch (twist : TwistIndex) : ℤ := wrapI64 twist.epochMeasured

end TwistIndex

/-- A summary of the measurements of an edge. -/
structure RelationalLatencyProfile where
  meanNanos : ℤ
  varianceNanos : ℤ
  p10Nanos : ℤ
  p50Nanos : ℤ
  p90Nanos : ℤ
  /-- Nanoseconds per epoch, positive when round trips grow. -/
  trendNanosPerEpoch : ℤ
  /-- A `u32`. -/
  sampleCount : ℕ
  epochFirst : ℕ
  epochLast : ℕ

namespace RelationalLatencyProfile

def mean (overflow : Overflow) (twists : List TwistIndex) : Option ℤ := do
  let sum ← overflow.sum (twists.map TwistIndex.rtt)
  return sum.tdiv twists.length

def squaredDeviation (overflow : Overflow) (mean : ℤ) (t : TwistIndex) : Option ℤ := do
  let d ← overflow.i64 (t.rtt - mean)
  overflow.i64 (d * d)

def variance (overflow : Overflow) (twists : List TwistIndex) (mean : ℤ) : Option ℤ := do
  let sum ← overflow.sumBy (squaredDeviation overflow mean) twists
  return sum.tdiv twists.length

/-- The linear regression of the round trip on the epoch. -/
def trend (overflow : Overflow) (twists : List TwistIndex) : Option ℤ :=
  if 2 ≤ twists.length then do
    let sumX ← overflow.sum (twists.map TwistIndex.epoch)
    let sumY ← overflow.sum (twists.map TwistIndex.rtt)
    let sumXY ← overflow.sumBy (fun t => overflow.i64 (t.epoch * t.rtt)) twists
    let sumXX ← overflow.sumBy (fun t => overflow.i64 (t.epoch ^ 2)) twists
    let nXX ← overflow.i64 (twists.length * sumXX)
    let xx ← overflow.i64 (sumX * sumX)
    let denom ← overflow.i64 (nXX - xx)
    if denom ≠ 0 then do
      let nXY ← overflow.i64 (twists.length * sumXY)
      let xy ← overflow.i64 (sumX * sumY)
      let numerator ← overflow.i64 (nXY - xy)
      -- The one quotient that does not fit panics in both builds.
      checkedI64 (numerator.tdiv denom)
    else return 0
  else return 0

def sortedRtts (twists : List TwistIndex) : List ℤ := Ranking.ranked id (twists.map TwistIndex.rtt)

/-- The profile of measurements, of which there is one at least. -/
def ofTwists (overflow : Overflow) (twists : List TwistIndex) :
    Option RelationalLatencyProfile := do
  let mean ← mean overflow twists
  let variance ← variance overflow twists mean
  let rtts := sortedRtts twists
  let p10 ← rtts[rtts.length / 10]?
  let p50 ← rtts[rtts.length / 2]?
  let p90 ← rtts[rtts.length * 9 / 10]?
  let trend ← trend overflow twists
  return {
    meanNanos := mean
    varianceNanos := variance
    p10Nanos := p10
    p50Nanos := p50
    p90Nanos := p90
    trendNanosPerEpoch := trend
    sampleCount := twists.length % 2 ^ 32
    epochFirst := (twists.head?.map TwistIndex.epochMeasured).getD 0
    epochLast := (twists.getLast?.map TwistIndex.epochMeasured).getD 0 }

theorem ofTwists_eq_some {overflow : Overflow} {twists : List TwistIndex}
    {p : RelationalLatencyProfile} : ofTwists overflow twists = some p ↔
      mean overflow twists = some p.meanNanos ∧
      variance overflow twists p.meanNanos = some p.varianceNanos ∧
      (sortedRtts twists)[(sortedRtts twists).length / 10]? = some p.p10Nanos ∧
      (sortedRtts twists)[(sortedRtts twists).length / 2]? = some p.p50Nanos ∧
      (sortedRtts twists)[(sortedRtts twists).length * 9 / 10]? = some p.p90Nanos ∧
      trend overflow twists = some p.trendNanosPerEpoch ∧
      p.sampleCount = twists.length % 2 ^ 32 ∧
      p.epochFirst = (twists.head?.map TwistIndex.epochMeasured).getD 0 ∧
      p.epochLast = (twists.getLast?.map TwistIndex.epochMeasured).getD 0 := by
  simp only [ofTwists, Option.bind_eq_bind, Option.bind_eq_some_iff, Option.pure_def,
    Option.some_inj]
  constructor
  · rintro ⟨_, first, _, second, _, third, _, fourth, _, fifth, _, sixth, rfl⟩
    exact ⟨first, second, third, fourth, fifth, sixth, rfl, rfl, rfl⟩
  · rintro ⟨first, second, third, fourth, fifth, sixth, count, start, finish⟩
    refine ⟨_, first, _, second, _, third, _, fourth, _, fifth, _, sixth, ?_⟩
    rw [← count, ← start, ← finish]

/-! ### What the statistics are to be -/

/-- The measurements that the casts to `i64` keep. -/
def Ranged (twists : List TwistIndex) : Prop :=
  ∀ t ∈ twists, t.rttNanos < 2 ^ 63 ∧ t.epochMeasured < 2 ^ 63

/-- Not all were made in one epoch. -/
def Apart (twists : List TwistIndex) : Prop :=
  ∃ t ∈ twists, ∃ u ∈ twists, t.epochMeasured ≠ u.epochMeasured

/-- The points of the regression. -/
def points (twists : List TwistIndex) : List (Datum ℚ) :=
  twists.map fun t => ⟨1, t.epochMeasured, t.rttNanos⟩

theorem Apart.two_le_length {twists : List TwistIndex} (apart : Apart twists) :
    2 ≤ twists.length := by
  obtain ⟨t, member, u, other, differ⟩ := apart
  match twists with
  | [] => exact absurd member List.not_mem_nil
  | [_] =>
    rw [List.mem_singleton.mp member, List.mem_singleton.mp other] at differ
    exact absurd rfl differ
  | _ :: _ :: _ => exact Nat.le_add_left 2 _

/-- The exact statistics of the measurements. -/
structure Exact (twists : List TwistIndex) (p : RelationalLatencyProfile) : Prop where
  mean : p.meanNanos = truncate ((twists.map fun t => (t.rttNanos : ℚ)).sum / twists.length)
  variance : p.varianceNanos =
    truncate ((twists.map fun t => ((t.rttNanos : ℚ) - p.meanNanos) ^ 2).sum / twists.length)
  variance_nonneg : 0 ≤ p.varianceNanos
  ordered : p.p10Nanos ≤ p.p50Nanos ∧ p.p50Nanos ≤ p.p90Nanos
  measured : ∀ z ∈ [p.p10Nanos, p.p50Nanos, p.p90Nanos], ∃ t ∈ twists, z = t.rttNanos
  trend : Apart twists → ∃ a b, BestLine (points twists) a b ∧ p.trendNanosPerEpoch = truncate b
  trend_together : ¬Apart twists → p.trendNanosPerEpoch = 0

/-- The sum of the epochs to the power `p` times the round trips to the power `q`. -/
def moment (twists : List TwistIndex) (p q : ℕ) : ℕ :=
  (twists.map fun t => t.epochMeasured ^ p * t.rttNanos ^ q).sum

/-- The sum of the squared distances from the mean, rounded down. -/
def squares (twists : List TwistIndex) : ℤ :=
  (twists.map fun t => ((t.rttNanos : ℤ) - (moment twists 0 1 / twists.length : ℕ)) ^ 2).sum

/-- The sums over the measurements that have to fit. -/
structure Fits (twists : List TwistIndex) : Prop where
  trips : moment twists 0 1 < 2 ^ 63
  squares : squares twists < 2 ^ 63
  epochs : 2 ≤ twists.length → twists.length * moment twists 2 0 < 2 ^ 63
  products : 2 ≤ twists.length → moment twists 1 1 < 2 ^ 63
  slope : Apart twists → twists.length * moment twists 1 1 < 2 ^ 63 ∧
    moment twists 1 0 * moment twists 0 1 < 2 ^ 63

theorem isI64_natCast {n : ℕ} : IsI64 n ↔ n < 2 ^ 63 := by
  unfold IsI64 maxI64
  omega

section Checked

variable {twists : List TwistIndex} (ranged : Ranged twists)
include ranged

theorem Ranged.rtt_eq {t : TwistIndex} (member : t ∈ twists) : t.rtt = t.rttNanos := by
  rw [TwistIndex.rtt, wrapI64_eq_iff]
  have fits := (ranged t member).1
  unfold IsI64 maxI64
  omega

theorem Ranged.epoch_eq {t : TwistIndex} (member : t ∈ twists) : t.epoch = t.epochMeasured := by
  rw [TwistIndex.epoch, wrapI64_eq_iff]
  have fits := (ranged t member).2
  unfold IsI64 maxI64
  omega

omit ranged in
/-- A sum of what the code adds up is a moment. -/
theorem sum_eq_moment {f : TwistIndex → ℤ} (p q : ℕ)
    (term : ∀ t ∈ twists, f t = (t.epochMeasured : ℤ) ^ p * (t.rttNanos : ℤ) ^ q) :
    (twists.map f).sum = moment twists p q := by
  rw [moment, Nat.cast_list_sum, List.map_map]
  refine congrArg List.sum (List.map_congr_left fun t member => ?_)
  rw [term t member]
  simp

theorem Ranged.rtt_nonneg (t : TwistIndex) (member : t ∈ twists) : 0 ≤ t.rtt := by
  rw [ranged.rtt_eq member]
  positivity

theorem Ranged.epoch_nonneg (t : TwistIndex) (member : t ∈ twists) : 0 ≤ t.epoch := by
  rw [ranged.epoch_eq member]
  positivity

theorem Ranged.sum_rtt : (twists.map TwistIndex.rtt).sum = moment twists 0 1 :=
  sum_eq_moment 0 1 fun t member => by
    rw [ranged.rtt_eq member]
    ring

theorem Ranged.mean_panics {m : ℤ} : mean .panics twists = some m ↔
    moment twists 0 1 < 2 ^ 63 ∧ ((moment twists 0 1 / twists.length : ℕ) : ℤ) = m := by
  rw [mean, Overflow.bind_eq_some fun s => Overflow.sum_panics_of_nonneg
    (List.forall_mem_map.mpr ranged.rtt_nonneg), ranged.sum_rtt, isI64_natCast, ← Int.ofNat_tdiv,
    Option.pure_def, Option.some_inj]

theorem Ranged.squaredDeviation_panics {m : ℕ} (small : m < 2 ^ 63) {t : TwistIndex}
    (member : t ∈ twists) :
    squaredDeviation .panics m t = Overflow.panics.i64 (((t.rttNanos : ℤ) - m) ^ 2) := by
  have below := (ranged t member).1
  have fits : IsI64 ((t.rttNanos : ℤ) - m) := by
    unfold IsI64 maxI64
    omega
  rw [squaredDeviation, ranged.rtt_eq member, Overflow.i64_of_fits fits, sq]
  rfl

theorem Ranged.variance_panics {m : ℕ} (small : m < 2 ^ 63) {v : ℤ} :
    variance .panics twists m = some v ↔
    IsI64 (twists.map fun t => ((t.rttNanos : ℤ) - m) ^ 2).sum ∧
      (twists.map fun t => ((t.rttNanos : ℤ) - m) ^ 2).sum.tdiv twists.length = v := by
  rw [variance, Overflow.bind_eq_some fun s => Overflow.sumBy_panics_of_nonneg
    (fun t member => ranged.squaredDeviation_panics small member) fun t _ => sq_nonneg _,
    Option.pure_def, Option.some_inj]

end Checked

/-! ### The regression -/

/-- What the slope is divided by. -/
def denominator (twists : List TwistIndex) : ℤ :=
  twists.length * moment twists 2 0 - moment twists 1 0 * moment twists 1 0

def numerator (twists : List TwistIndex) : ℤ :=
  twists.length * moment twists 1 1 - moment twists 1 0 * moment twists 0 1

section Points

variable {twists : List TwistIndex}

theorem points_weighted (twists : List TwistIndex) : LineFit.Weighted (points twists) := by
  intro d listed
  obtain ⟨t, -, rfl⟩ := List.mem_map.mp listed
  exact one_pos

theorem moment_points (twists : List TwistIndex) (p q : ℕ) :
    LineFit.moment (points twists) p q = moment twists p q := by
  rw [moment, Nat.cast_list_sum, List.map_map, LineFit.moment, points, List.map_map]
  refine congrArg List.sum (List.map_congr_left fun t _ => ?_)
  simp

theorem moment_zero_zero (twists : List TwistIndex) : moment twists 0 0 = twists.length := by
  simp [moment]

theorem denominator_eq (some : twists ≠ []) :
    (denominator twists : ℚ) = twists.length * LineFit.spread (points twists) := by
  have weighty := (points_weighted twists).moment_pos fun none => some (List.map_eq_nil_iff.mp none)
  have spread := LineFit.weight_mul_spread weighty.ne'
  rw [moment_points, moment_points, moment_points, moment_zero_zero] at spread
  rw [spread, denominator]
  push_cast
  ring

theorem numerator_eq (some : twists ≠ []) :
    (numerator twists : ℚ) = twists.length * LineFit.covariation (points twists) := by
  have weighty := (points_weighted twists).moment_pos fun none => some (List.map_eq_nil_iff.mp none)
  have covariation := LineFit.weight_mul_covariation weighty.ne'
  rw [moment_points, moment_points, moment_points, moment_points, moment_zero_zero] at covariation
  rw [covariation, numerator]
  push_cast
  ring

theorem spread_eq_zero_iff : LineFit.spread (points twists) = 0 ↔ ¬Apart twists := by
  rw [(points_weighted twists).spread_eq_zero_iff, Apart]
  simp [points]

theorem denominator_nonneg (some : twists ≠ []) : 0 ≤ denominator twists := by
  have spread := mul_nonneg (Nat.cast_nonneg (α := ℚ) twists.length)
    (points_weighted twists).spread_nonneg
  rw [← denominator_eq some] at spread
  exact_mod_cast spread

theorem denominator_eq_zero_iff (some : twists ≠ []) : denominator twists = 0 ↔ ¬Apart twists := by
  have count : (twists.length : ℚ) ≠ 0 := by simpa using some
  rw [← spread_eq_zero_iff, ← Int.cast_eq_zero (α := ℚ), denominator_eq some, mul_eq_zero,
    or_iff_right count]

/-- The quotient of the regression is the slope of the best line, toward zero. -/
theorem slope_eq (some : twists ≠ []) (apart : Apart twists) :
    ∃ a b, BestLine (points twists) a b ∧
      (numerator twists).tdiv (denominator twists) = truncate b := by
  have weighted := points_weighted twists
  have spread : 0 < LineFit.spread (points twists) :=
    lt_of_le_of_ne weighted.spread_nonneg fun none => spread_eq_zero_iff.mp none.symm apart
  have normal : LineFit.covariation (points twists) / LineFit.spread (points twists) *
      LineFit.spread (points twists) = LineFit.covariation (points twists) :=
    div_mul_cancel₀ _ spread.ne'
  refine ⟨_, _, LineFit.bestLine weighted (fun none => some (List.map_eq_nil_iff.mp none)) normal
    spread, ?_⟩
  obtain ⟨d, same⟩ := Int.eq_ofNat_of_zero_le (denominator_nonneg some)
  have count : (twists.length : ℚ) ≠ 0 := by simpa using some
  have quotient : LineFit.covariation (points twists) / LineFit.spread (points twists) =
      numerator twists / d := by
    rw [← mul_div_mul_left _ _ count, ← numerator_eq some, ← denominator_eq some, same,
      Int.cast_natCast]
  rw [same, quotient, truncate_div]

theorem moment_one_le_two (twists : List TwistIndex) : moment twists 1 0 ≤ moment twists 2 0 := by
  refine List.sum_le_sum fun t _ => Nat.mul_le_mul_right _ ?_
  rw [pow_one]
  exact Nat.le_self_pow two_ne_zero _

/-- What the denominator rests on fits where its larger term does. -/
theorem denominator_fits (some : twists ≠ []) (fits : twists.length * moment twists 2 0 < 2 ^ 63) :
    moment twists 1 0 < 2 ^ 63 ∧ moment twists 2 0 < 2 ^ 63 ∧
      moment twists 1 0 * moment twists 1 0 < 2 ^ 63 ∧ IsI64 (denominator twists) := by
  have count := List.length_pos_iff.mpr some
  have one_le := moment_one_le_two twists
  have many : moment twists 2 0 ≤ twists.length * moment twists 2 0 :=
    Nat.le_mul_of_pos_left _ count
  have nonneg := denominator_nonneg some
  have difference : denominator twists = (twists.length * moment twists 2 0 : ℕ) -
      (moment twists 1 0 * moment twists 1 0 : ℕ) := by
    push_cast
    rfl
  refine ⟨by omega, by omega, by omega, ?_⟩
  unfold IsI64 maxI64
  omega

/-- What the numerator rests on fits where its terms do, and so does the quotient. -/
theorem numerator_fits (first : twists.length * moment twists 1 1 < 2 ^ 63)
    (second : moment twists 1 0 * moment twists 0 1 < 2 ^ 63) :
    IsI64 (numerator twists) ∧ IsI64 ((numerator twists).tdiv (denominator twists)) := by
  have difference : numerator twists = (twists.length * moment twists 1 1 : ℕ) -
      (moment twists 1 0 * moment twists 0 1 : ℕ) := by
    push_cast
    rfl
  have quotient := Int.natAbs_tdiv_le_natAbs (numerator twists) (denominator twists)
  unfold IsI64 maxI64
  omega

/-- The quotient, where the sums fit: zero if all epochs are the same. -/
theorem quotient_panics (some : twists ≠ []) {b : ℤ} :
    (if denominator twists ≠ 0 then do
      let nXY ← Overflow.panics.i64 (twists.length * moment twists 1 1)
      let xy ← Overflow.panics.i64 (moment twists 1 0 * moment twists 0 1)
      let numerator ← Overflow.panics.i64 (nXY - xy)
      checkedI64 (numerator.tdiv (denominator twists))
    else return 0) = Option.some b ↔
      (¬Apart twists ∧ 0 = b) ∨
        (Apart twists ∧ (twists.length * moment twists 1 1 < 2 ^ 63 ∧
          moment twists 1 0 * moment twists 0 1 < 2 ^ 63) ∧
          (numerator twists).tdiv (denominator twists) = b) := by
  by_cases apart : Apart twists
  · rw [if_pos fun none => (denominator_eq_zero_iff some).mp none apart,
      Overflow.bind_eq_some fun s => Overflow.i64_panics_iff,
      Overflow.bind_eq_some fun s => Overflow.i64_panics_iff,
      Overflow.bind_eq_some fun s => Overflow.i64_panics_iff, checkedI64_eq_some, ← numerator]
    simp only [← Nat.cast_mul, isI64_natCast]
    constructor
    · rintro ⟨first, second, _, _, quotient⟩
      exact .inr ⟨apart, ⟨first, second⟩, quotient⟩
    · rintro (⟨together, _⟩ | ⟨_, ⟨first, second⟩, quotient⟩)
      · exact absurd apart together
      · obtain ⟨numer, last⟩ := numerator_fits first second
        exact ⟨first, second, numer, last, quotient⟩
  · rw [if_neg fun some' => some' ((denominator_eq_zero_iff some).mpr apart), Option.pure_def,
      Option.some_inj]
    constructor
    · exact fun none => .inl ⟨apart, none⟩
    · rintro (⟨_, none⟩ | ⟨separate, _⟩)
      · exact none
      · exact absurd separate apart

end Points

section Checked

variable {twists : List TwistIndex} (ranged : Ranged twists)
include ranged

theorem Ranged.trend_panics (two : 2 ≤ twists.length) {b : ℤ} : trend .panics twists = some b ↔
    (moment twists 0 1 < 2 ^ 63 ∧ moment twists 1 1 < 2 ^ 63 ∧
      twists.length * moment twists 2 0 < 2 ^ 63) ∧
    ((¬Apart twists ∧ 0 = b) ∨
      (Apart twists ∧ (twists.length * moment twists 1 1 < 2 ^ 63 ∧
        moment twists 1 0 * moment twists 0 1 < 2 ^ 63) ∧
        (numerator twists).tdiv (denominator twists) = b)) := by
  have some : twists ≠ [] := by
    rintro rfl
    exact absurd two (by decide)
  have epochs := sum_eq_moment (f := TwistIndex.epoch) 1 0 fun t member => by
    rw [ranged.epoch_eq member]
    ring
  have products := sum_eq_moment (f := fun t => t.epoch * t.rtt) 1 1 fun t member => by
    rw [ranged.epoch_eq member, ranged.rtt_eq member]
    ring
  have squares := sum_eq_moment (f := fun t => t.epoch ^ 2) 2 0 fun t member => by
    rw [ranged.epoch_eq member]
    ring
  rw [trend, if_pos two, Overflow.bind_eq_some fun s => Overflow.sum_panics_of_nonneg
      (List.forall_mem_map.mpr ranged.epoch_nonneg),
    Overflow.bind_eq_some fun s => Overflow.sum_panics_of_nonneg
      (List.forall_mem_map.mpr ranged.rtt_nonneg),
    Overflow.bind_eq_some fun s => Overflow.sumBy_panics_of_nonneg (fun t _ => rfl)
      fun t member => mul_nonneg (ranged.epoch_nonneg t member) (ranged.rtt_nonneg t member),
    Overflow.bind_eq_some fun s => Overflow.sumBy_panics_of_nonneg (fun t _ => rfl)
      fun t _ => sq_nonneg _,
    Overflow.bind_eq_some fun s => Overflow.i64_panics_iff,
    Overflow.bind_eq_some fun s => Overflow.i64_panics_iff,
    Overflow.bind_eq_some fun s => Overflow.i64_panics_iff, epochs, ranged.sum_rtt, products,
    squares, ← denominator, quotient_panics some]
  simp only [← Nat.cast_mul, isI64_natCast]
  constructor
  · rintro ⟨_, trips, products, _, epochs, _, _, quotient⟩
    exact ⟨⟨trips, products, epochs⟩, quotient⟩
  · rintro ⟨⟨trips, products, epochs⟩, quotient⟩
    obtain ⟨one, two, square, denom⟩ := denominator_fits some epochs
    exact ⟨one, trips, products, two, epochs, square, denom, quotient⟩

/-! ### The profile -/

/-- The percentiles are measured, and in order. -/
theorem Ranged.percentiles (some : twists ≠ []) : ∃ p10 p50 p90,
    (sortedRtts twists)[(sortedRtts twists).length / 10]? = Option.some p10 ∧
    (sortedRtts twists)[(sortedRtts twists).length / 2]? = Option.some p50 ∧
    (sortedRtts twists)[(sortedRtts twists).length * 9 / 10]? = Option.some p90 ∧
    (p10 ≤ p50 ∧ p50 ≤ p90) ∧ ∀ z ∈ [p10, p50, p90], ∃ t ∈ twists, z = t.rttNanos := by
  have count : 0 < (sortedRtts twists).length := by
    rw [sortedRtts, Ranking.length_ranked, List.length_map]
    exact List.length_pos_iff.mpr some
  have entry (i : ℕ) (inside : i < (sortedRtts twists).length) :=
    List.getElem?_eq_getElem (l := sortedRtts twists) inside
  have first := entry ((sortedRtts twists).length / 10) (by omega)
  have second := entry ((sortedRtts twists).length / 2) (by omega)
  have third := entry ((sortedRtts twists).length * 9 / 10) (by omega)
  have early : (sortedRtts twists).length / 10 ≤ (sortedRtts twists).length / 2 := by omega
  have late : (sortedRtts twists).length / 2 ≤ (sortedRtts twists).length * 9 / 10 := by omega
  refine ⟨_, _, _, first, second, third, ⟨Ranking.key_le_of_ranked id early first second,
    Ranking.key_le_of_ranked id late second third⟩, ?_⟩
  have measured (i : ℕ) (inside : i < (sortedRtts twists).length) :
      ∃ t ∈ twists, (sortedRtts twists)[i] = t.rttNanos := by
    have member := (Ranking.ranked_perm id _).mem_iff.mp (List.getElem_mem inside)
    obtain ⟨t, listed, same⟩ := List.mem_map.mp member
    exact ⟨t, listed, same.symm.trans (ranged.rtt_eq listed)⟩
  intro z listed
  simp only [List.mem_cons, List.not_mem_nil, or_false] at listed
  rcases listed with rfl | rfl | rfl <;> exact measured _ _

omit ranged in
theorem mean_eq (twists : List TwistIndex) : ((moment twists 0 1 / twists.length : ℕ) : ℤ) =
    truncate ((twists.map fun t => (t.rttNanos : ℚ)).sum / twists.length) := by
  have total : (moment twists 0 1 : ℤ) = ((twists.map fun t => (t.rttNanos : ℚ)).sum : ℚ) := by
    rw [moment, Int.cast_natCast, Nat.cast_list_sum, List.map_map]
    refine congrArg List.sum (List.map_congr_left fun t _ => ?_)
    simp
  rw [← total, truncate_div, Int.ofNat_tdiv]

omit ranged in
theorem variance_eq (twists : List TwistIndex) (m : ℤ) :
    (twists.map fun t => ((t.rttNanos : ℤ) - m) ^ 2).sum.tdiv twists.length =
      truncate ((twists.map fun t => ((t.rttNanos : ℚ) - m) ^ 2).sum / twists.length) := by
  rw [← truncate_div (K := ℚ), Int.cast_list_sum, List.map_map]
  refine congrArg (fun total => truncate (total / _))
    (congrArg List.sum (List.map_congr_left fun t _ => ?_))
  simp

/-- The trend is that of the best line. -/
theorem Ranged.trend_exact (some : twists ≠ []) (fits : Fits twists) :
    ∃ b, trend .panics twists = Option.some b ∧
      (Apart twists → ∃ a slope, BestLine (points twists) a slope ∧ b = truncate slope) ∧
      (¬Apart twists → b = 0) := by
  by_cases two : 2 ≤ twists.length
  · have sums := And.intro fits.trips (And.intro (fits.products two) (fits.epochs two))
    by_cases apart : Apart twists
    · have regressed := (ranged.trend_panics two).mpr ⟨sums, .inr ⟨apart, fits.slope apart, rfl⟩⟩
      exact ⟨_, regressed, fun _ => slope_eq some apart, fun together => absurd apart together⟩
    · have regressed := (ranged.trend_panics two).mpr ⟨sums, .inl ⟨apart, rfl⟩⟩
      exact ⟨0, regressed, fun separate => absurd separate apart, fun _ => rfl⟩
  · exact ⟨0, if_neg two, fun apart => absurd apart.two_le_length two, fun _ => rfl⟩

/-- **The exact profile** is returned where the sums fit. -/
theorem Ranged.ofTwists_exact (some : twists ≠ []) (fits : Fits twists) :
    ∃ p, ofTwists .panics twists = Option.some p ∧ Exact twists p := by
  have small : moment twists 0 1 / twists.length < 2 ^ 63 :=
    (Nat.div_le_self _ _).trans_lt fits.trips
  have squaresNonneg : 0 ≤ squares twists :=
    List.sum_nonneg (List.forall_mem_map.mpr fun t _ => sq_nonneg _)
  have squaresFit : IsI64 (squares twists) := by
    have below := fits.squares
    unfold IsI64 maxI64
    omega
  have mean := ranged.mean_panics.mpr ⟨fits.trips, rfl⟩
  have variance := ranged.variance_panics small |>.mpr ⟨squaresFit, rfl⟩
  obtain ⟨p10, p50, p90, first, second, third, ordered, measured⟩ := ranged.percentiles some
  obtain ⟨slope, regressed, fitted, together⟩ := ranged.trend_exact some fits
  refine ⟨⟨(moment twists 0 1 / twists.length : ℕ), _, p10, p50, p90, slope, _, _, _⟩,
    ofTwists_eq_some.mpr ⟨mean, variance, first, second, third, regressed, rfl, rfl, rfl⟩,
    mean_eq twists, variance_eq twists _, Int.tdiv_nonneg squaresNonneg (Int.natCast_nonneg _),
    ordered, measured, fitted, together⟩

/-- A profile that is returned has added up sums that fit. -/
theorem Ranged.fits {p : RelationalLatencyProfile}
    (returned : ofTwists .panics twists = Option.some p) : Fits twists := by
  obtain ⟨mean, variance, -, -, -, regressed, -⟩ := ofTwists_eq_some.mp returned
  obtain ⟨trips, same⟩ := ranged.mean_panics.mp mean
  rw [← same] at variance
  obtain ⟨squares, -⟩ :=
    (ranged.variance_panics ((Nat.div_le_self _ _).trans_lt trips)).mp variance
  have regression (two : 2 ≤ twists.length) := (ranged.trend_panics two).mp regressed
  refine ⟨trips, ?_, fun two => (regression two).1.2.2, fun two => (regression two).1.2.1, ?_⟩
  · exact Int.lt_of_le_sub_one squares.2
  · intro apart
    rcases (regression apart.two_le_length).2 with ⟨together, _⟩ | ⟨_, terms, _⟩
    · exact absurd apart together
    · exact terms

end Checked

end RelationalLatencyProfile

def TwistLUT.profile (overflow : Overflow) (lut : TwistLUT) (a b : NodeId) :
    Option (Option RelationalLatencyProfile) :=
  match lut.get a b with
  | none => some none
  | some twists =>
    if twists.isEmpty then some none
    else (RelationalLatencyProfile.ofTwists overflow twists).map some

namespace TwistLUT

open RelationalLatencyProfile (Ranged Exact Fits)

variable {lut : TwistLUT} {a b : NodeId} {twists : List TwistIndex}

theorem profile_eq (overflow : Overflow) (measured : lut.get a b = some twists)
    (nonempty : twists ≠ []) : lut.profile overflow a b =
      (RelationalLatencyProfile.ofTwists overflow twists).map some := by
  rw [profile, measured]
  exact if_neg (by simpa using nonempty)

theorem fits_of_profile (measured : lut.get a b = some twists) (nonempty : twists ≠ [])
    (ranged : Ranged twists) {p : RelationalLatencyProfile}
    (returned : lut.profile .panics a b = some (some p)) : Fits twists := by
  rw [profile_eq .panics measured nonempty] at returned
  obtain ⟨_, summarised, -⟩ := Option.map_eq_some_iff.mp returned
  exact ranged.fits summarised

/-- **When a profile is exact.** No sum or product overflows and every statistic is exact, just
where the sums over the measurements fit. -/
theorem profile_exact_iff (measured : lut.get a b = some twists) (nonempty : twists ≠ [])
    (ranged : Ranged twists) :
    (∃ p, lut.profile .panics a b = some (some p) ∧ Exact twists p) ↔ Fits twists := by
  constructor
  · rintro ⟨p, returned, -⟩
    exact fits_of_profile measured nonempty ranged returned
  · intro fits
    obtain ⟨p, returned, exact⟩ := ranged.ofTwists_exact nonempty fits
    refine ⟨p, ?_, exact⟩
    rw [profile_eq .panics measured nonempty, returned]
    rfl

theorem get_insert_self (lut : TwistLUT) (a b : NodeId) (twist : TwistIndex) :
    (lut.insert a b twist).get a b = some ((lut.get a b).getD [] ++
      [if (edgeKey a b).1 ≠ a then twist.reversed else twist]) := by
  rw [insert, get, Std.ExtTreeMap.getElem?_insert_self]
  rfl

/-- Two measurements, the first of a round trip of ten milliseconds. -/
def twice (second : ℕ) : List TwistIndex := [⟨10000000, 0, 0, 100, 1⟩, ⟨second, 0, 0, 100, 2⟩]

/-- An edge that was measured so. -/
def measuredTwice (second : ℕ) : TwistLUT :=
  (new.insert (.replicate 1) (.replicate 2) ⟨10000000, 0, 0, 100, 1⟩).insert (.replicate 1)
    (.replicate 2) ⟨second, 0, 0, 100, 2⟩

theorem get_measuredTwice (second : ℕ) :
    (measuredTwice second).get (.replicate 1) (.replicate 2) = some (twice second) := by
  have ordered : (edgeKey (.replicate 1) (.replicate 2)).1 = .replicate 1 := by decide
  rw [measuredTwice, get_insert_self, get_insert_self, if_neg (not_not_intro ordered),
    if_neg (not_not_intro ordered)]
  rfl

theorem twice_ranged {second : ℕ} (small : second < 2 ^ 63) : Ranged (twice second) := by
  rw [Ranged, twice, List.forall_mem_cons, List.forall_mem_singleton]
  exact ⟨by decide, small, show 2 < 2 ^ 63 by decide⟩

/-- The second round trip takes twelve milliseconds. -/
theorem profile_exact_iff_twice :
    (∃ p, (measuredTwice 12000000).profile .panics (.replicate 1) (.replicate 2) = some (some p) ∧
      Exact (twice 12000000) p) ↔ Fits (twice 12000000) :=
  profile_exact_iff (get_measuredTwice _) (by simp [twice]) (twice_ranged (by decide))

/-- **A variance that is negative.** The second round trip takes eight seconds: the squares do not
fit, and a release build wraps them. -/
theorem profile_overflows :
    (¬ ∀ (lut : TwistLUT) (a b : NodeId) (twists : List TwistIndex), lut.get a b = some twists →
      twists ≠ [] → Ranged twists →
      ∃ p, lut.profile .panics a b = some (some p) ∧ Exact twists p) ∧
    ∃ p, (measuredTwice 8000000000).profile .wraps (.replicate 1) (.replicate 2) = some (some p) ∧
      p.varianceNanos = -2486719073709551616 := by
  have measured := get_measuredTwice 8000000000
  have ranged : Ranged (twice 8000000000) := twice_ranged (by decide)
  have nonempty : twice 8000000000 ≠ [] := by simp [twice]
  constructor
  · intro all
    obtain ⟨p, returned, -⟩ := all _ _ _ _ measured nonempty ranged
    exact absurd (fits_of_profile measured nonempty ranged returned).squares (by decide)
  · have mean : RelationalLatencyProfile.mean .wraps (twice 8000000000) = some 4005000000 := by
      decide
    have variance : RelationalLatencyProfile.variance .wraps (twice 8000000000) 4005000000 =
        some (-2486719073709551616) := by
      decide
    have trend : RelationalLatencyProfile.trend .wraps (twice 8000000000) = some 7990000000 := by
      decide
    obtain ⟨p10, p50, p90, first, second, third, -⟩ := ranged.percentiles nonempty
    have summarised : RelationalLatencyProfile.ofTwists .wraps (twice 8000000000) =
        some ⟨4005000000, -2486719073709551616, p10, p50, p90, 7990000000, 2, 1, 2⟩ :=
      RelationalLatencyProfile.ofTwists_eq_some.mpr
        ⟨mean, variance, first, second, third, trend, rfl, rfl, rfl⟩
    rw [profile_eq .wraps measured nonempty, summarised]
    exact ⟨_, rfl, rfl⟩

end TwistLUT

end Rtfsn
