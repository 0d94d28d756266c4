/-
Runs of a relational clock that keep the answers.

* `respond`: one operation with its answer, if it has one; it does what `apply` does.
* `exists_observe`, `exists_observeReference`: what the two observing operations leave, from what
  the track they go to does with the exchange.
* `observeReference_new`: the first exchange with a reference makes an anchor of it.
* `SameTable`: the other operations leave the table of raw measurements alone.
-/
import Rtfsn.Lib.Machine
import Rtfsn.Sync.RelationalClock
import Rtfsn.Sync.TrackRestart

set_option linter.unusedSectionVars false

namespace Rtfsn

variable {F : Type} [F64 F]

/-- The exchange of an operation, and who it was with. -/
def Op.exchange : Op F → Option (NodeId × Exchange)
  | .observe peer e => some (peer, e)
  | .observeReference server e _ _ _ _ => some (server, e)
  | _ => none

namespace RelationalClock

/-- One operation with its answer. -/
def respond (clock : RelationalClock F) :
    Op F → Option (Option (Observation F) × RelationalClock F)
  | .observe peer e => (clock.observe peer e).map fun r => (some r.1, r.2)
  | .observeReference server e rootDistanceNs stratum sigmaDrift nowNs =>
    (clock.observeReference server e rootDistanceNs stratum sigmaDrift nowNs).map fun r =>
      (some r.1, r.2)
  | .hear edge nowNs => some (none, clock.hear edge nowNs)
  | .hearAnchor anchor nowNs => some (none, clock.hearAnchor anchor nowNs)
  | .forget peer => some (none, clock.forget peer)
  | .expire nowNs maxAgeNs => some (none, clock.expire nowNs maxAgeNs)
  | .expireAnchors nowNs maxAgeNs => some (none, clock.expireAnchors nowNs maxAgeNs)

/-- The clock does what it does without its answers. -/
theorem respond_apply (clock : RelationalClock F) (op : Op F) :
    (clock.respond op).map Prod.snd = clock.apply op := by
  cases op with
  | observe peer e => exact Option.map_map _ _ _
  | observeReference server e rootDistanceNs stratum sigmaDrift nowNs =>
    exact Option.map_map _ _ _
  | _ => rfl

/-- The track that an exchange with `peer` goes to. -/
def trackOf (clock : RelationalClock F) (peer : NodeId) : PeerTrack F :=
  clock.tracks[peer]?.getD (PeerTrack.new clock.cfg)

/-- **Observing keeps the track, and the measurement if it was accepted.** -/
theorem exists_observe (clock : RelationalClock F) (peer : NodeId) (e : Exchange) :
    ∃ obs track, (clock.trackOf peer).observe e = some (obs, track) ∧
      clock.observe peer e = some (obs, clock.keep peer obs track) := by
  obtain ⟨obs, track, eq, _⟩ := (clock.trackOf peer).observe_outcome e
  refine ⟨obs, track, eq, ?_⟩
  rw [observe, ← trackOf, eq]
  rfl

@[simp] theorem keep_tracks (clock : RelationalClock F) (peer : NodeId) (obs : Observation F)
    (track : PeerTrack F) :
    (clock.keep peer obs track).tracks = clock.tracks.insert peer track := by
  cases obs <;> rfl

@[simp] theorem keep_anchors (clock : RelationalClock F) (peer : NodeId) (obs : Observation F)
    (track : PeerTrack F) : (clock.keep peer obs track).anchors = clock.anchors := by
  cases obs <;> rfl

@[simp] theorem keep_me (clock : RelationalClock F) (peer : NodeId) (obs : Observation F)
    (track : PeerTrack F) : (clock.keep peer obs track).me = clock.me := by
  cases obs <;> rfl

@[simp] theorem keep_cfg (clock : RelationalClock F) (peer : NodeId) (obs : Observation F)
    (track : PeerTrack F) : (clock.keep peer obs track).cfg = clock.cfg := by
  cases obs <;> rfl

/-- **Observing a reference also writes its anchor**, once the track has accepted something. -/
theorem exists_observeReference (clock : RelationalClock F) (server : NodeId) (e : Exchange)
    (rootDistanceNs : F) (stratum : UInt8) (sigmaDrift : F) (nowNs : ℕ) :
    ∃ obs track, (clock.trackOf server).observe e = some (obs, track) ∧
      clock.observeReference server e rootDistanceNs stratum sigmaDrift nowNs =
        some (obs, { clock.keep server obs track with
          anchors :=
            if 0 < track.accepted then
              clock.anchors.insert server
                (referenceAnchor server track rootDistanceNs stratum sigmaDrift nowNs)
            else clock.anchors }) := by
  obtain ⟨obs, track, observed, eq⟩ := clock.exists_observe server e
  have found : (clock.keep server obs track).referenceTrack server =
      if 0 < track.accepted then some track else none := by
    rw [referenceTrack, keep_tracks, Std.ExtTreeMap.getElem?_insert_self, Option.filter_some]
    simp
  refine ⟨obs, track, observed, ?_⟩
  rw [observeReference, eq]
  simp only [Option.bind_eq_bind, Option.bind_some, found]
  by_cases some : 0 < track.accepted
  · simp [some]
  · simp only [if_neg some]
    rw [← keep_anchors clock server obs track]
    rfl

/-- **The first exchange with a reference makes an anchor of it.** -/
theorem observeReference_new (me server : NodeId) {cfg : TrackConfig F} (warmup : 1 ≤ cfg.warmup)
    {e : Exchange} (positive : e.Positive) (rootDistanceNs : F) (stratum : UInt8) (sigmaDrift : F)
    (nowNs : ℕ) : ∃ relation after track,
      (new me cfg).observeReference server e rootDistanceNs stratum sigmaDrift nowNs =
        some (.accepted (.fromExchange e) relation false, after) ∧
      after.tracks[server]? = some track ∧ 0 < track.accepted ∧
      after.anchors[server]? =
        some (referenceAnchor server track rootDistanceNs stratum sigmaDrift nowNs) := by
  obtain ⟨obs, track, observed, eq⟩ := (new me cfg).exists_observeReference server e rootDistanceNs
    stratum sigmaDrift nowNs
  have empty : (new me cfg).trackOf server = PeerTrack.new cfg := by
    simp [trackOf, new]
  obtain ⟨relation, accepted, _⟩ := PeerTrack.observe_new (F := F) warmup positive
  rw [empty] at observed
  cases accepted.symm.trans observed
  have counted : 0 < ((PeerTrack.new cfg).absorbed ((PeerTrack.new cfg).settle e) e).accepted := by
    rw [PeerTrack.absorbed, PeerTrack.absorb_accepted]
    exact Nat.succ_pos _
  refine ⟨relation, _, _, eq, ?_, counted, ?_⟩
  · dsimp only
    rw [keep_tracks, Std.ExtTreeMap.getElem?_insert_self]
  · dsimp only
    rw [if_pos counted, Std.ExtTreeMap.getElem?_insert_self]

/-- The table of raw measurements is left as it was. -/
structure SameTable (clock after : RelationalClock F) : Prop where
  me : after.me = clock.me
  cfg : after.cfg = clock.cfg
  lut : after.lut = clock.lut
  inserts : after.inserts = clock.inserts

theorem sameTable_hear (clock : RelationalClock F) (edge : EdgeEstimate F) (nowNs : ℕ) :
    SameTable clock (clock.hear edge nowNs) := by
  unfold hear
  split <;> exact ⟨rfl, rfl, rfl, rfl⟩

theorem sameTable_hearAnchor (clock : RelationalClock F) (anchor : Anchor F) (nowNs : ℕ) :
    SameTable clock (clock.hearAnchor anchor nowNs) := by
  unfold hearAnchor
  dsimp only
  split <;> exact ⟨rfl, rfl, rfl, rfl⟩

/-- **What does not observe leaves the table alone**, and never fails. -/
theorem sameTable_respond (clock : RelationalClock F) {op : Op F} (quiet : op.exchange = none) :
    ∃ after, clock.respond op = some (none, after) ∧ SameTable clock after := by
  cases op with
  | observe peer e => cases quiet
  | observeReference server e rootDistanceNs stratum sigmaDrift nowNs => cases quiet
  | hear edge nowNs => exact ⟨_, rfl, clock.sameTable_hear edge nowNs⟩
  | hearAnchor anchor nowNs => exact ⟨_, rfl, clock.sameTable_hearAnchor anchor nowNs⟩
  | forget peer => exact ⟨_, rfl, rfl, rfl, rfl, rfl⟩
  | expire nowNs maxAgeNs => exact ⟨_, rfl, rfl, rfl, rfl, rfl⟩
  | expireAnchors nowNs maxAgeNs => exact ⟨_, rfl, rfl, rfl, rfl, rfl⟩

/-- **What observes keeps its exchange**, and never fails. -/
theorem keep_respond (clock : RelationalClock F) {op : Op F} {peer : NodeId} {e : Exchange}
    (observes : op.exchange = some (peer, e)) : ∃ obs track after,
      (clock.trackOf peer).observe e = some (obs, track) ∧
      clock.respond op = some (some obs, after) ∧ SameTable (clock.keep peer obs track) after := by
  cases op with
  | observe peer' e' =>
    obtain ⟨rfl, rfl⟩ : peer' = peer ∧ e' = e := by simpa [Op.exchange] using observes
    obtain ⟨obs, track, observed, eq⟩ := clock.exists_observe peer' e'
    exact ⟨obs, track, _, observed, Option.map_eq_some_iff.mpr ⟨_, eq, rfl⟩, rfl, rfl, rfl, rfl⟩
  | observeReference server e' rootDistanceNs stratum sigmaDrift nowNs =>
    obtain ⟨rfl, rfl⟩ : server = peer ∧ e' = e := by simpa [Op.exchange] using observes
    obtain ⟨obs, track, observed, eq⟩ :=
      clock.exists_observeReference server e' rootDistanceNs stratum sigmaDrift nowNs
    exact ⟨obs, track, _, observed, Option.map_eq_some_iff.mpr ⟨_, eq, rfl⟩, rfl, rfl, rfl, rfl⟩
  | _ => cases observes

end RelationalClock

end Rtfsn
