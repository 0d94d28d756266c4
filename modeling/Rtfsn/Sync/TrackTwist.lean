/-
**When the recorded measurement is exact.**

The round trip is tested as an `i128` and kept through wrapping `u64` subtractions; the offset and
the asymmetry are `i128` values cut to an `i64`. Nothing that `observe` tests keeps the three in
range.

* `fromExchange_exact`: for a positive round trip the encoding is exact exactly when the exchange
  is in range.
* `run_twist_exact`: so it is for every exchange that any run of a track accepts.
* `observe_wrapped`: a fresh track records a round trip of `2^64` as zero.
-/
import Rtfsn.Sync.TrackRestart

set_option linter.unusedSectionVars false

namespace Rtfsn

variable {F : Type} [F64 F]

/-- No narrowing cast and no wrapping subtraction changed a value. -/
structure TwistIndex.Exact (e : Exchange) (twist : TwistIndex) : Prop where
  rtt : (twist.rttNanos : ℤ) = (e.t4 - e.t1 : ℤ) - (e.t3 - e.t2)
  offset : twist.offsetNanos = Int.tdiv ((e.t2 - e.t1 : ℤ) + (e.t3 - e.t4)) 2
  asymmetry : twist.asymmetryNanos = (e.t2 - e.t1 : ℤ) - (e.t4 - e.t3)

/-- The round trip is below `2^64` and the two clocks' stamps differ, in sum, by an `i64`. -/
structure Exchange.InRange (e : Exchange) : Prop where
  roundTrip : e.t2 + e.t4 < e.t1 + e.t3 + 2 ^ 64
  behind : e.t1 + e.t4 ≤ e.t2 + e.t3 + 2 ^ 63
  ahead : e.t2 + e.t3 < e.t1 + e.t4 + 2 ^ 63

/-- **The encoding of a positive round trip is exact exactly when the exchange is in range.** -/
theorem fromExchange_exact {e : Exchange} (positive : e.Positive) :
    (TwistIndex.fromExchange e).Exact e ↔ e.InRange := by
  have above : 0 < (e.t4 - e.t1 : ℤ) - (e.t3 - e.t2) := by
    have both := not_or.mp positive
    unfold Exchange.rtt at both
    omega
  constructor
  · intro exact
    have rtt := wrapU64_eq_iff.mp exact.rtt
    have asymmetry := wrapI64_eq_iff.mp exact.asymmetry
    unfold IsU64 maxU64 at rtt
    unfold IsI64 maxI64 at asymmetry
    exact ⟨by omega, by omega, by omega⟩
  · rintro ⟨roundTrip, behind, ahead⟩
    refine ⟨wrapU64_eq_iff.mpr ?_, wrapI64_eq_iff.mpr (IsI64.half ?_), wrapI64_eq_iff.mpr ?_⟩
    · unfold IsU64 maxU64
      omega
    -- The offset is half of what the asymmetry is, so it fits where that does.
    all_goals
      unfold IsI64 maxI64
      omega

/-- The measurement of an accepted exchange. -/
def Observation.twist? : Observation F → Option TwistIndex
  | .accepted twist _ _ => some twist
  | .rejected _ => none

namespace PeerTrack

/-- The measurements a history recorded, each with its exchange. -/
def recorded (history : List (Exchange × Observation F)) : List (Exchange × TwistIndex) :=
  history.filterMap fun entry => entry.2.twist?.map (entry.1, ·)

theorem recorded_accepted (history : List (Exchange × Observation F)) (e : Exchange)
    (twist : TwistIndex) (relation : Relation F) (restarted : Bool) :
    recorded (history ++ [(e, .accepted twist relation restarted)]) =
      recorded history ++ [(e, twist)] := by
  simp [recorded, Observation.twist?]

theorem recorded_rejected (history : List (Exchange × Observation F)) (e : Exchange)
    (reason : Reject) : recorded (history ++ [(e, .rejected reason)]) = recorded history := by
  simp [recorded, Observation.twist?]

/-- A track holds the newest of the measurements recorded, each of a positive round trip. -/
structure Records (history : List (Exchange × Observation F)) (t : PeerTrack F) : Prop where
  last : t.last = (recorded history).getLast?.map Prod.snd
  encoded : ∀ entry ∈ recorded history,
    entry.2 = .fromExchange entry.1 ∧ entry.1.Positive

theorem Records.reject {history : List (Exchange × Observation F)} {t t' : PeerTrack F}
    (records : Records history t) (e : Exchange) (reason : Reject) (same : t'.last = t.last) :
    Records (history ++ [(e, .rejected reason)]) t' := by
  refine ⟨?_, ?_⟩
  · rw [recorded_rejected, same, records.last]
  · rw [recorded_rejected]
    exact records.encoded

theorem Records.accept {history : List (Exchange × Observation F)} {t t' : PeerTrack F}
    (records : Records history t) {e : Exchange} (positive : e.Positive) (relation : Relation F)
    (restarted : Bool) (newest : t'.last = some (.fromExchange e)) :
    Records (history ++ [(e, .accepted (.fromExchange e) relation restarted)]) t' := by
  refine ⟨?_, ?_⟩
  · rw [recorded_accepted, newest]
    simp
  · rw [recorded_accepted]
    intro entry member
    rcases List.mem_append.mp member with earlier | this
    · exact records.encoded entry earlier
    · rw [List.mem_singleton.mp this]
      exact ⟨rfl, positive⟩

/-- Every exit of `observe` keeps the record. -/
theorem records_outcome {history : List (Exchange × Observation F)} {t t' : PeerTrack F}
    {e : Exchange} {o : Observation F} (records : Records history t)
    (outcome : Outcome t e o t') : Records (history ++ [(e, o)]) t' := by
  cases outcome with
  | nonPositive _ => exact records.reject e _ rfl
  | outOfOrder _ _ => exact records.reject e _ rfl
  | popcorn _ _ => exact records.reject e _ rfl
  | step _ _ _ => exact records.reject e _ rfl
  | settled relation quiet _ _ => exact records.accept quiet.positive relation false rfl
  | restarted relation quiet _ _ _ => exact records.accept quiet.positive relation true rfl

/-- **When a run records exactly.** In every run of exchanges the track holds the newest
measurement recorded, and each one recorded is exact over the integers exactly when its exchange
is in range. -/
theorem run_twist_exact (cfg : TrackConfig F) (es : List Exchange) :
    ∃ os t, (new cfg).run es = some (os, t) ∧ os.length = es.length ∧
      t.last = (recorded (es.zip os)).getLast?.map Prod.snd ∧
      ∀ entry ∈ recorded (es.zip os), entry.2.Exact entry.1 ↔ entry.1.InRange := by
  have keep : ∀ history (t : PeerTrack F) e, Records history t → ∃ o t',
      observe t e = some (o, t') ∧ Records (history ++ [(e, o)]) t' := fun history t e records => by
    obtain ⟨o, t', eq, outcome⟩ := t.observe_outcome e
    exact ⟨o, t', eq, records_outcome records outcome⟩
  have start : Records [] (new cfg) := ⟨rfl, by simp [recorded]⟩
  obtain ⟨os, t, ran, length, records⟩ := Machine.run_spec keep start es
  refine ⟨os, t, ran, length, records.last, fun entry member => ?_⟩
  obtain ⟨encoded, positive⟩ := records.encoded entry member
  rw [encoded]
  exact fromExchange_exact positive

/-- **A fresh track accepts a round trip of `2^64` and records it as zero.** -/
theorem observe_wrapped :
    let e : Exchange := ⟨0, 2 ^ 64 - 1, 0, 1⟩
    ∃ twist relation t', (new (.default : TrackConfig ℝ)).observe e =
        some (.accepted twist relation false, t') ∧
      t'.last = some twist ∧ e.rtt = 2 ^ 64 ∧ twist.rttNanos = 0 ∧ ¬ twist.Exact e := by
  intro e
  have positive : e.Positive := by decide
  have warmup : 1 ≤ (TrackConfig.default : TrackConfig ℝ).warmup := by
    simp [TrackConfig.default]
  obtain ⟨relation, accepted, _⟩ := observe_new (F := ℝ) warmup positive
  refine ⟨_, _, _, accepted, rfl, by decide, by decide, fun exact => ?_⟩
  exact absurd ((fromExchange_exact positive).mp exact).roundTrip (by decide)

end PeerTrack

end Rtfsn
