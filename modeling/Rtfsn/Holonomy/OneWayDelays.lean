/-
**What an exchange tells of the path and of the clocks.**

The stamps of an exchange are read on two clocks. Where the clocks differ by a constant, the stamps
follow from what happened on the way (`Passage.Stamped`).

* `fromExchange_bound`: the round trip is the sum of the two delays, whatever the clocks say, and
  the offset is wrong by no more than half of it.
* `fromExchange_asymmetry`: the asymmetry is the difference of the delays and twice the offset of
  the clocks. `asymmetry_eq_iff`: so it tells of the path alone only between clocks that agree.
-/
import Rtfsn.Holonomy.Twist

namespace Rtfsn

/-- What happens on the way of an exchange, in nanoseconds. -/
structure Passage where
  forward : ℕ
  processing : ℕ
  backward : ℕ

namespace Passage

/-- The round trip, without the processing. -/
def roundTrip (passage : Passage) : ℕ := passage.forward + passage.backward

/-- The stamps of a passage to a clock that is `theta` ahead. -/
structure Stamped (passage : Passage) (theta : ℤ) (e : Exchange) : Prop where
  arrives : (e.t2 : ℤ) = e.t1 + passage.forward + theta
  answers : e.t3 = e.t2 + passage.processing
  returns : (e.t4 : ℤ) = e.t3 + passage.backward - theta

end Passage

namespace TwistIndex

variable {passage : Passage} {theta : ℤ} {e : Exchange}

/-- The clocks drop out of the round trip. -/
theorem fromExchange_rtt (stamped : passage.Stamped theta e) (short : passage.roundTrip < 2 ^ 64) :
    (fromExchange e).rttNanos = passage.roundTrip := by
  obtain ⟨arrives, answers, returns⟩ := stamped
  have trip : (e.t4 - e.t1 : ℤ) - (e.t3 - e.t2) = passage.roundTrip := by
    unfold Passage.roundTrip
    omega
  have kept : (wrapU64 (passage.roundTrip : ℤ) : ℤ) = passage.roundTrip := by
    rw [wrapU64_eq_iff]
    unfold IsU64 maxU64
    omega
  rw [fromExchange, trip]
  exact_mod_cast kept

/-- The offset is that of the clocks and half the difference of the delays, toward zero. -/
theorem fromExchange_offset (stamped : passage.Stamped theta e) (small : |theta| < 2 ^ 62)
    (short : passage.roundTrip < 2 ^ 63) :
    (fromExchange e).offsetNanos =
      (2 * theta + (passage.forward - passage.backward : ℤ)).tdiv 2 := by
  obtain ⟨arrives, answers, returns⟩ := stamped
  have twice : (e.t2 - e.t1 : ℤ) + (e.t3 - e.t4) =
      2 * theta + (passage.forward - passage.backward : ℤ) := by
    omega
  have halves := tdiv_two_cases (2 * theta + (passage.forward - passage.backward : ℤ))
  rw [fromExchange, twice, wrapI64_eq_iff]
  unfold IsI64 maxI64
  unfold Passage.roundTrip at short
  rw [abs_lt] at small
  omega

/-- **The bound of NTP.** The round trip is exact, and the offset lies within half of it, rounded
up, of the offset between the clocks. -/
theorem fromExchange_bound (stamped : passage.Stamped theta e) (small : |theta| < 2 ^ 62)
    (short : passage.roundTrip < 2 ^ 63) :
    (fromExchange e).rttNanos = passage.roundTrip ∧
      |(fromExchange e).offsetNanos - theta| ≤ ⌈((fromExchange e).rttNanos : ℚ) / 2⌉ := by
  have rtt := fromExchange_rtt stamped (short.trans (by norm_num))
  have offset := fromExchange_offset stamped small short
  have halves := tdiv_two_cases (2 * theta + (passage.forward - passage.backward : ℤ))
  rw [← offset] at halves
  -- A difference that is odd makes the round trip odd, so that rounding up makes room for it.
  have within : 2 * |(fromExchange e).offsetNanos - theta| ≤ passage.roundTrip + 1 := by
    unfold Passage.roundTrip
    rcases abs_cases ((fromExchange e).offsetNanos - theta) with ⟨eq, _⟩ | ⟨eq, _⟩ <;>
      rw [eq] <;> omega
  refine ⟨rtt, Int.le_ceil_iff.mpr ?_⟩
  rw [rtt, lt_div_iff₀ two_pos]
  have cast : (2 : ℚ) * |(fromExchange e).offsetNanos - theta| ≤ passage.roundTrip + 1 := by
    exact_mod_cast within
  push_cast at cast ⊢
  linarith

/-- A responder behind the initiator: `45 ns` on the way, and an odd difference of the delays. -/
theorem fromExchange_bound_behind :
    (fromExchange ⟨1000, 20, 30, 1055⟩).rttNanos = 45 ∧
      |(fromExchange ⟨1000, 20, 30, 1055⟩).offsetNanos - (-1000)| ≤
        ⌈((fromExchange ⟨1000, 20, 30, 1055⟩).rttNanos : ℚ) / 2⌉ := by
  have stamped : (⟨20, 10, 25⟩ : Passage).Stamped (-1000) ⟨1000, 20, 30, 1055⟩ :=
    ⟨by decide, by decide, by decide⟩
  exact fromExchange_bound stamped (by decide) (by decide)

/-! ### The asymmetry -/

/-- **The clocks do not drop out of the asymmetry.** -/
theorem fromExchange_asymmetry (stamped : passage.Stamped theta e) :
    (fromExchange e).asymmetryNanos =
      wrapI64 (passage.forward - passage.backward + 2 * theta) := by
  obtain ⟨arrives, answers, returns⟩ := stamped
  exact congrArg wrapI64 (by omega)

/-- **When the asymmetry tells of the path.** Two exchanges over one path agree on it exactly when
their clocks differ by the same, up to what the cast drops; over a symmetric path it is zero exactly
when the clocks agree so. -/
theorem asymmetry_eq_iff {theta' : ℤ} {e' : Exchange} (stamped : passage.Stamped theta e)
    (stamped' : passage.Stamped theta' e') :
    ((fromExchange e).asymmetryNanos = (fromExchange e').asymmetryNanos ↔
      2 ^ 63 ∣ theta - theta') ∧
    (passage.forward = passage.backward →
      ((fromExchange e).asymmetryNanos = 0 ↔ 2 ^ 63 ∣ theta)) := by
  rw [fromExchange_asymmetry stamped, fromExchange_asymmetry stamped', wrapI64, wrapI64]
  constructor
  · rw [Int.bmod_eq_bmod_iff_bmod_sub_eq_zero, ← Int.dvd_iff_bmod_eq_zero]
    omega
  · intro symmetric
    rw [← Int.dvd_iff_bmod_eq_zero]
    omega

/-- Clocks a second apart, over a path of five milliseconds each way. -/
theorem asymmetry_eq_iff_second :
    ((fromExchange ⟨0, 1005000000, 1005100000, 10100000⟩).asymmetryNanos =
      (fromExchange ⟨0, 5000000, 5100000, 10100000⟩).asymmetryNanos ↔
      (2 ^ 63 : ℤ) ∣ 1000000000 - 0) ∧
    ((5000000 : ℕ) = 5000000 →
      ((fromExchange ⟨0, 1005000000, 1005100000, 10100000⟩).asymmetryNanos = 0 ↔
        (2 ^ 63 : ℤ) ∣ 1000000000)) := by
  have ahead : (⟨5000000, 100000, 5000000⟩ : Passage).Stamped 1000000000
      ⟨0, 1005000000, 1005100000, 10100000⟩ := ⟨by decide, by decide, by decide⟩
  have together : (⟨5000000, 100000, 5000000⟩ : Passage).Stamped 0
      ⟨0, 5000000, 5100000, 10100000⟩ := ⟨by decide, by decide, by decide⟩
  exact asymmetry_eq_iff ahead together

/-- **A symmetric path that reads two seconds**, for the second between its clocks. -/
theorem asymmetry_of_clocks :
    (¬ ∀ (passage : Passage) (theta theta' : ℤ) (e e' : Exchange), passage.Stamped theta e →
      passage.Stamped theta' e' →
      (fromExchange e).asymmetryNanos = (fromExchange e').asymmetryNanos) ∧
    ¬ ∀ (passage : Passage) (theta : ℤ) (e : Exchange), passage.Stamped theta e →
      passage.forward = passage.backward → (fromExchange e).asymmetryNanos = 0 := by
  have ahead : (⟨5000000, 100000, 5000000⟩ : Passage).Stamped 1000000000
      ⟨0, 1005000000, 1005100000, 10100000⟩ := ⟨by decide, by decide, by decide⟩
  have together : (⟨5000000, 100000, 5000000⟩ : Passage).Stamped 0
      ⟨0, 5000000, 5100000, 10100000⟩ := ⟨by decide, by decide, by decide⟩
  constructor
  · intro same
    exact absurd (same _ _ _ _ _ ahead together) (by decide)
  · intro none
    exact absurd (none _ _ _ ahead rfl) (by decide)

end TwistIndex

end Rtfsn
