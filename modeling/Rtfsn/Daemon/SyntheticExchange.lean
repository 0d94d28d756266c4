/-
**The synthetic exchange against the real one.**

`measurementRecord` puts a synthetic exchange, meant to have the same offset and round trip, in the
place of the raw timestamps. `solveAndAdvance` stores it in Layer 0 and feeds it to the clock state.

* `offset_measurementRecord`, `roundTripDelay_measurementRecord`: what it decodes to. The offset was
  encoded in nanoseconds among seconds, and only at the second of the four timestamps.
* `solveAndAdvance_reencodes_iff`: it decodes to the real exchange exactly when that measures no
  offset.
-/
import Rtfsn.Daemon.NodeState

namespace Rtfsn.Daemon

namespace RawExchange

/-- The offset measured, in nanoseconds. -/
noncomputable def offsetNanos (raw : RawExchange) : ℝ :=
  (((raw.t2.toNat : ℝ) - raw.t1.toNat) + ((raw.t3.toNat : ℝ) - raw.t4.toNat)) / 2

/-- The round trip less the responder's holding time, in nanoseconds. -/
noncomputable def rttNanos (raw : RawExchange) : ℝ :=
  ((raw.t4.toNat : ℝ) - raw.t1.toNat) - ((raw.t3.toNat : ℝ) - raw.t2.toNat)

theorem offsetNanos_eq_zero {raw : RawExchange} :
    raw.offsetNanos = 0 ↔ raw.t2.toNat + raw.t3.toNat = raw.t1.toNat + raw.t4.toNat := by
  unfold offsetNanos
  rw [div_eq_zero_iff, or_iff_left two_ne_zero]
  constructor
  · intro none
    have balanced : ((raw.t2.toNat + raw.t3.toNat : ℕ) : ℝ) =
        (raw.t1.toNat + raw.t4.toNat : ℕ) := by
      push_cast
      linarith
    exact_mod_cast balanced
  · intro balanced
    have cast : (raw.t2.toNat : ℝ) + raw.t3.toNat = raw.t1.toNat + raw.t4.toNat := by
      exact_mod_cast balanced
    linarith

end RawExchange

/-! ### What the synthetic exchange decodes to -/

/-- Half the offset, in nanoseconds where seconds are read. -/
theorem offset_measurementRecord (currentSecs : ℝ) (raw : RawExchange) :
    (measurementRecord currentSecs raw).exchange.offset = raw.offsetNanos / 2 := by
  simp only [measurementRecord, TimeExchange.offset, RawExchange.offsetNanos, F64.ofNat_real,
    F64.lit_real]
  push_cast
  ring

/-- The round trip, and the offset on top. -/
theorem roundTripDelay_measurementRecord (currentSecs : ℝ) (raw : RawExchange) :
    (measurementRecord currentSecs raw).exchange.roundTripDelay =
      raw.rttNanos * 1e-9 + raw.offsetNanos := by
  simp only [measurementRecord, TimeExchange.roundTripDelay, RawExchange.offsetNanos,
    RawExchange.rttNanos, F64.ofNat_real, F64.lit_real]
  push_cast
  ring

/-- The record decodes to the offset and the round trip of the raw exchange, in seconds. -/
structure Reencodes (raw : RawExchange) (record : MeasurementRecord ℝ) : Prop where
  offset : record.exchange.offset = raw.offsetNanos * 1e-9
  roundTripDelay : record.exchange.roundTripDelay = raw.rttNanos * 1e-9

theorem reencodes_iff {currentSecs : ℝ} {raw : RawExchange} :
    Reencodes raw (measurementRecord currentSecs raw) ↔ raw.offsetNanos = 0 := by
  constructor
  · intro same
    have delay := same.roundTripDelay
    rw [roundTripDelay_measurementRecord] at delay
    linarith
  · intro none
    refine ⟨?_, ?_⟩
    · rw [offset_measurementRecord, none]
      norm_num
    · rw [roundTripDelay_measurementRecord, none, add_zero]

/-! ### The solve -/

namespace NodeState

variable {Scalar : Type}

/-- The entry recorded by a solve, and what the clock state took in. -/
structure Feeds (s s' : NodeState ℝ) (currentSecs : ℝ) (entry : Layer0Entry ℝ) : Prop where
  stored : s'.l0Store.entries = s.l0Store.entries ++ [entry]
  fed : s'.clockState = entry.measurements.foldl
    (fun clockState record => clockState.addExchange record.exchange currentSecs) s.clockState

/-- A solve stores one record for each raw exchange and feeds it to the clock state. -/
theorem solveAndAdvance_feeds (s : NodeState ℝ) (epoch : Epoch) (chance : Chance ℝ Scalar) :
    ∃ entry, s.Feeds (s.solveAndAdvance epoch chance).2 chance.currentSecs entry ∧
      entry.measurements = s.rawExchanges.map (measurementRecord chance.currentSecs) :=
  ⟨_, ⟨rfl, rfl⟩, rfl⟩

/-- **The records are the exchanges when no offset was measured, and only then.** The records that
a solve stores and feeds all decode to the offset and the round trip of their exchange exactly when
every exchange has `t2 + t3 = t1 + t4`. -/
theorem solveAndAdvance_reencodes_iff (s : NodeState ℝ) (epoch : Epoch) (chance : Chance ℝ Scalar) :
    ∃ entry, s.Feeds (s.solveAndAdvance epoch chance).2 chance.currentSecs entry ∧
      (List.Forall₂ Reencodes s.rawExchanges entry.measurements ↔
        ∀ raw ∈ s.rawExchanges, raw.t2.toNat + raw.t3.toNat = raw.t1.toNat + raw.t4.toNat) := by
  obtain ⟨entry, feeds, measurements⟩ := s.solveAndAdvance_feeds epoch chance
  refine ⟨entry, feeds, ?_⟩
  rw [measurements, List.forall₂_map_right_iff, List.forall₂_same]
  exact forall₂_congr fun raw _ => reencodes_iff.trans RawExchange.offsetNanos_eq_zero

/-- One exchange with a peer 5 ns ahead, over a round trip of 10 ns. -/
noncomputable def ahead : NodeState ℝ :=
  { NodeState.new (NodeId.replicate 1) 0 1 (Vector.replicate 6 0) with
    rawExchanges := [⟨NodeId.replicate 2, 0, 10, 10, 10⟩] }

/-- An epoch drawn at time zero. -/
noncomputable def stillChance : Chance ℝ Unit where
  currentSecs := 0
  lutOrder := .asListed
  nodeOrder := .asListed
  edgeOrder := .asListed
  coordinateWords _ := Vector.replicate 6 0
  blindingFactor := ()
  k1 := ()
  k2 := ()

/-- **Five nanoseconds become two and a half seconds**, and the round trip grows by five. -/
theorem solveAndAdvance_ahead :
    (∀ raw ∈ ahead.rawExchanges, raw.t1 ≤ raw.t4 ∧ 0 < raw.rttNanos) ∧
      ∃ entry, ahead.Feeds (ahead.solveAndAdvance ⟨1⟩ stillChance).2 0 entry ∧
        (entry.measurements.map fun record =>
          (record.exchange.offset, record.exchange.roundTripDelay)) = [(2.5, 10 * 1e-9 + 5)] ∧
        ¬ List.Forall₂ Reencodes ahead.rawExchanges entry.measurements := by
  obtain ⟨entry, feeds, measurements⟩ := ahead.solveAndAdvance_feeds ⟨1⟩ stillChance
  have offset : RawExchange.offsetNanos ⟨NodeId.replicate 2, 0, 10, 10, 10⟩ = 5 := by
    norm_num [RawExchange.offsetNanos, show UInt64.toNat 10 = 10 from rfl]
  have rtt : RawExchange.rttNanos ⟨NodeId.replicate 2, 0, 10, 10, 10⟩ = 10 := by
    norm_num [RawExchange.rttNanos, show UInt64.toNat 10 = 10 from rfl]
  refine ⟨?_, entry, feeds, ?_, fun same => ?_⟩
  · intro raw listed
    obtain rfl := List.mem_singleton.mp listed
    exact ⟨by decide, by rw [rtt]; norm_num⟩
  · rw [measurements]
    simp only [ahead, List.map_cons, List.map_nil, offset_measurementRecord,
      roundTripDelay_measurementRecord, offset, rtt]
    norm_num
  · rw [measurements] at same
    have head : Reencodes _ _ := (List.forall₂_cons.mp same).1
    rw [reencodes_iff, offset] at head
    norm_num at head

end NodeState

end Rtfsn.Daemon
