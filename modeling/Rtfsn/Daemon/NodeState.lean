/-
The state of one daemon, and what an epoch does to it.

* `solveAndAdvance`: the solve of an epoch from the twists measured so far; the raw exchanges become
  the epoch's Layer 0 entry.
* `buildAndPublishBeacon`: the entry's beacon, kept in the daemon's own Layer 1 store.
* `runGeoidAndEmitTick`: the two upper valves. The geoid it also feeds is not modelled here.

`Chance` is what an epoch draws from outside: the clock, random points and scalars, and the orders
in which hash maps are listed. Sums of round trips wrap, as in a release build.
-/
import Rtfsn.Holonomy.Solver
import Rtfsn.Layers.Valve
import Rtfsn.Layers.ValveRuns
import Rtfsn.Lib.Maps
import Rtfsn.Sync.Geometry
import Rtfsn.Sync.Kalman

set_option linter.unusedSectionVars false

namespace Rtfsn.Daemon

structure SocketAddr where
  ip : List UInt8
  port : UInt16

/-- The peer and the four timestamps of one exchange. -/
structure RawExchange where
  peer : NodeId
  t1 : UInt64
  t2 : UInt64
  t3 : UInt64
  t4 : UInt64

structure NodeState (F : Type) where
  nodeId : NodeId
  listenPort : UInt16
  /-- Where the peers listen. -/
  peers : Std.ExtTreeMap NodeId SocketAddr
  /-- The requests in flight: `t1` and the epoch, by peer. -/
  pendingT1 : Std.ExtTreeMap NodeId (UInt64 × UInt64)
  twistLut : TwistLUT
  rawExchanges : List RawExchange
  l0Store : Layer0Store F
  l1Store : Layer1Store F
  l2Aggregator : ClusterAggregator
  clockStream : ClockStream
  geometry : GeometryEngine F
  peerCoords : Std.ExtTreeMap NodeId (CoordinateState F)
  clockState : ClockState F
  kalman : ClockKalman F
  lastOffsetNanos : ℤ
  lastDriftPpb : ℤ
  lastEpochStartSecs : F
  epochDurationSecs : F
  currentEpoch : UInt64

structure SolveOutput where
  offsetNanos : ℤ
  uncertaintyNanos : ℕ
  driftPpb : ℤ
  peerCount : ℕ
  converged : Bool
  iters : ℕ
  maxDefectNanos : ℕ

/-- What an epoch draws from outside. -/
structure Chance (F Scalar : Type) where
  currentSecs : F
  lutOrder : HashOrder (NodeId ×ₗ NodeId)
  nodeOrder : HashOrder NodeId
  edgeOrder : HashOrder (NodeId ×ₗ NodeId)
  coordinateWords : NodeId → Vector UInt32 6
  blindingFactor : Scalar
  k1 : Scalar
  k2 : Scalar

variable {F Point Scalar : Type} [F64Coord F] [AddCommGroup Point] [CommRing Scalar]
  [Module Scalar Point] [DecidableEq Point] (curve : Ristretto Point Scalar) (hGenerator : Point)
  (blake3 : List UInt8 → Bytes32) (toLeBytes : F → List UInt8)

/-- The record of an exchange, with a synthetic exchange in seconds in its place. -/
def measurementRecord (currentSecs : F) (raw : RawExchange) : MeasurementRecord F :=
  let t1 : F := F64.ofNat raw.t1.toNat
  let t2 : F := F64.ofNat raw.t2.toNat
  let t3 : F := F64.ofNat raw.t3.toNat
  let t4 : F := F64.ofNat raw.t4.toNat
  let rttSecs := (t4 - t1) / F64.lit 1000000000 - (t3 - t2) / F64.lit 1000000000
  let offsetS := ((t2 - t1) + (t3 - t4)) / F64.lit 2
  { peer := raw.peer
    exchange := ⟨0, rttSecs / F64.lit 2 + offsetS, rttSecs / F64.lit 2, rttSecs⟩
    measuredRtt := rttSecs
    localTime := currentSecs }

namespace NodeState

def new (nodeId : NodeId) (listenPort : UInt16) (epochSecs : F) (words : Vector UInt32 6) :
    NodeState F where
  nodeId := nodeId
  listenPort := listenPort
  peers := ∅
  pendingT1 := ∅
  twistLut := .new
  rawExchanges := []
  l0Store := .new nodeId
  l1Store := .new
  l2Aggregator := .new
  clockStream := .new
  geometry := .new words
  peerCoords := ∅
  clockState := .new
  kalman := .new
  lastOffsetNanos := 0
  lastDriftPpb := 0
  lastEpochStartSecs := 0
  epochDurationSecs := epochSecs
  currentEpoch := 0

/-! ### Solve -/

/-- The latest twist to each neighbour. -/
def ownTwists (s : NodeState F) (order : HashOrder (NodeId ×ₗ NodeId)) :
    List (NodeId × TwistIndex) :=
  (s.twistLut.neighbors order s.nodeId).filterMap fun peerId =>
    (s.twistLut.latest s.nodeId peerId).map fun twist => (peerId, twist)

/-- The solver of the epoch: the node itself, its peers, and the twists between. -/
def epochSolver (s : NodeState F) (twists : List (NodeId × TwistIndex)) : HolonomySolver F :=
  let solver := HolonomySolver.new.addNode s.nodeId (.new s.lastOffsetNanos s.lastDriftPpb 90)
  let solver := s.peers.keys.foldl (fun solver peerId =>
    solver.addNode peerId (.new 0 0 50)) solver
  twists.foldl (fun solver p => solver.addMeasurement s.nodeId p.1 p.2) solver

/-- The loop that observes each neighbour's round trip. -/
def observePeers (s : NodeState F) (words : NodeId → Vector UInt32 6)
    (twists : List (NodeId × TwistIndex)) :
    GeometryEngine F × Std.ExtTreeMap NodeId (CoordinateState F) :=
  twists.foldl (fun (geometry, peerCoords) (peerId, twist) =>
    let rttSecs : F := F64.ofNat twist.rttNanos / F64.lit 1000000000
    let coords := (peerCoords[peerId]?).getD (.new (words peerId))
    ((geometry.observePeer peerId coords rttSecs).2, peerCoords.insert peerId coords))
    (s.geometry, s.peerCoords)

/-- Solve the epoch and record it. -/
def solveAndAdvance (s : NodeState F) (epoch : Epoch) (chance : Chance F Scalar) :
    SolveOutput × NodeState F :=
  let currentSecs := chance.currentSecs
  let dt :=
    if F64.lt s.lastEpochStartSecs 1 then s.epochDurationSecs
    else F64.max (currentSecs - s.lastEpochStartSecs) 1
  let twists := s.ownTwists chance.lutOrder
  let (solver, result) := (s.epochSolver twists).solve chance.nodeOrder chance.edgeOrder 500 1000
  let offsetNanos :=
    ((solver.nodes[s.nodeId]?).map fun f => f.offsetNanos).getD s.lastOffsetNanos
  let driftPpb := ((solver.nodes[s.nodeId]?).map fun f => f.driftPpb).getD s.lastDriftPpb
  let rttValues := twists.map fun p => p.2.rttNanos
  let rttMean := if rttValues.isEmpty then 0 else rttValues.sum % 2 ^ 64 / rttValues.length
  let (geometry, peerCoords) := s.observePeers chance.coordinateWords twists
  let offsetSecs : F := F64.ofInt offsetNanos / F64.lit 1000000000
  let var : F :=
    if 0 < rttMean then
      let rttSecs := F64.ofNat rttMean / F64.lit 1000000000
      rttSecs * rttSecs * F64.lit 0.25
    else F64.lit 1e-6
  let kalman := s.kalman.step dt offsetSecs var
  let peerCount := s.rawExchanges.length
  let measurements := s.rawExchanges.map (measurementRecord currentSecs)
  let clockState := measurements.foldl (fun clockState record =>
    clockState.addExchange record.exchange currentSecs) s.clockState
  let solve : LocalSolve F :=
    { coordinates := geometry.localState
      clockOffset := offsetSecs
      clockDrift := kalman.driftRate
      uncertainty := kalman.uncertainty
      peerCount := peerCount }
  ({ offsetNanos := offsetNanos
     uncertaintyNanos := F64.toU64 (kalman.uncertainty * F64.lit 1000000000)
     driftPpb := driftPpb
     peerCount := peerCount
     converged := result.converged
     iters := result.iterations
     maxDefectNanos := result.maxDefectNanos },
   { s with
     geometry := geometry
     peerCoords := peerCoords
     kalman := kalman
     clockState := clockState
     l0Store := s.l0Store.recordEpoch epoch measurements solve
     lastOffsetNanos := offsetNanos
     lastDriftPpb := driftPpb
     lastEpochStartSecs := currentSecs
     rawExchanges := [] })

/-- The entry a solve records: the raw exchanges, counted one by one. -/
structure Records (s : NodeState F) (epoch : Epoch) (chance : Chance F Scalar)
    (entry : Layer0Entry F) : Prop where
  nodeId : entry.nodeId = s.l0Store.nodeId
  ofEpoch : entry.epoch = epoch
  measurements : entry.measurements = s.rawExchanges.map (measurementRecord chance.currentSecs)
  peerCount : entry.solve.peerCount = s.rawExchanges.length
  clockOffset : entry.solve.clockOffset =
    F64.ofInt (s.solveAndAdvance epoch chance).1.offsetNanos / F64.lit 1000000000

/-- **The raw exchanges become the entry of the epoch.** -/
theorem solveAndAdvance_records (s : NodeState F) (epoch : Epoch) (chance : Chance F Scalar) :
    ∃ entry, s.Records epoch chance entry ∧ (s.solveAndAdvance epoch chance).2.l0Store =
      { s.l0Store with entries := s.l0Store.entries ++ [entry] } :=
  ⟨_, ⟨rfl, rfl, rfl, rfl, rfl⟩, rfl⟩

theorem foldl_addNode (keys : List NodeId) (frame : ChiralFrame) (solver : HolonomySolver F) :
    (keys.foldl (fun solver k => solver.addNode k frame) solver).lut = solver.lut ∧
      ∀ id ∉ keys, (keys.foldl (fun solver k => solver.addNode k frame) solver).nodes[id]? =
        solver.nodes[id]? := by
  induction keys generalizing solver with
  | nil => exact ⟨rfl, fun _ _ => rfl⟩
  | cons k keys ih =>
    obtain ⟨lut, nodes⟩ := ih (solver.addNode k frame)
    refine ⟨lut, fun id other => ?_⟩
    rw [List.mem_cons, not_or] at other
    rw [List.foldl_cons, nodes id other.2]
    show (solver.nodes.insert k frame)[id]? = _
    rw [Maps.getElem?_insert_of_ne (Ne.symm other.1)]

/-- **Without twists the offset stays what it was.** -/
theorem solveAndAdvance_offset_of_new {s : NodeState F} (noTwists : s.twistLut = TwistLUT.new)
    (notOwn : s.nodeId ∉ s.peers.keys) (epoch : Epoch) (chance : Chance F Scalar) :
    (s.solveAndAdvance epoch chance).1.offsetNanos = s.lastOffsetNanos := by
  have none : s.ownTwists chance.lutOrder = [] := by
    unfold ownTwists
    rw [noTwists, HolonomySolver.neighbors_new, List.filterMap_nil]
  have solver := foldl_addNode s.peers.keys (.new 0 0 50)
    ((HolonomySolver.new : HolonomySolver F).addNode s.nodeId
      (.new s.lastOffsetNanos s.lastDriftPpb 90))
  have nodes := HolonomySolver.solve_nodes_of_new chance.nodeOrder chance.edgeOrder
    (show (s.epochSolver []).lut = TwistLUT.new from solver.1) 500 1000
  have own : (s.epochSolver []).nodes[s.nodeId]? =
      some (.new s.lastOffsetNanos s.lastDriftPpb 90) :=
    (solver.2 s.nodeId notOwn).trans Std.ExtTreeMap.getElem?_insert_self
  show (((((s.epochSolver (s.ownTwists chance.lutOrder)).solve chance.nodeOrder chance.edgeOrder 500
    1000).1.nodes[s.nodeId]?).map fun f => f.offsetNanos).getD s.lastOffsetNanos) = _
  rw [none, nodes, own]
  rfl

/-! ### Publish -/

/-- The beacon of `epoch`, which the daemon's own store takes in. -/
def buildAndPublishBeacon (s : NodeState F) (epoch : Epoch) (chance : Chance F Scalar) :
    Option (Layer1Beacon F) × NodeState F :=
  let blinding := BlindingSecret.new curve s.nodeId epoch chance.blindingFactor
  match valveL0ToL1 curve blake3 s.l0Store epoch blinding chance.k1 chance.k2 with
  | none => (none, s)
  | some beacon =>
    (some beacon, { s with l1Store := (s.l1Store.insert curve blake3 beacon).2 })

/-- Publishing touches the Layer 1 store only. -/
theorem buildAndPublishBeacon_snd (s : NodeState F) (epoch : Epoch) (chance : Chance F Scalar) :
    ∃ l1Store, (s.buildAndPublishBeacon curve blake3 epoch chance).2 =
      { s with l1Store := l1Store } := by
  unfold buildAndPublishBeacon
  dsimp only
  split
  · exact ⟨s.l1Store, rfl⟩
  · exact ⟨_, rfl⟩

/-- **The beacon of a recorded epoch.** -/
theorem buildAndPublishBeacon_of_entry {s : NodeState F} {epoch : Epoch} {entry : Layer0Entry F}
    (recorded : s.l0Store.getEpoch epoch = some entry) (chance : Chance F Scalar) :
    ∃ beacon, (∃ secret k1 k2, beacon = beaconOfEntry curve blake3 entry epoch secret k1 k2) ∧
      s.buildAndPublishBeacon curve blake3 epoch chance =
        (some beacon, { s with l1Store := (s.l1Store.insert curve blake3 beacon).2 }) := by
  unfold buildAndPublishBeacon valveL0ToL1
  rw [recorded]
  exact ⟨_, ⟨_, _, _, rfl⟩, rfl⟩

/-! ### Tick -/

/-- The upper valves of `epoch`. -/
def runGeoidAndEmitTick (s : NodeState F) (epoch : Epoch) (order : HashOrder (List ℤ))
    (blindings : List ℤ → Scalar × Scalar) (now : UInt64) : Option (NodeState F) :=
  (Valve.valveRound curve hGenerator blake3 toLeBytes (s.l2Aggregator, s.clockStream)
    { order := order
      blindings := blindings
      l1Store := s.l1Store
      epoch := epoch
      gridSize := F64.lit 0.01
      referenceTimeNanos := now
      minClusters := 1 }).map fun r =>
    { s with l2Aggregator := r.2.1, clockStream := r.2.2 }

variable {curve hGenerator blake3 toLeBytes}

/-- A tick touches the upper layers only. -/
theorem runGeoidAndEmitTick_eq {s s' : NodeState F} {epoch : Epoch} {order : HashOrder (List ℤ)}
    {blindings : List ℤ → Scalar × Scalar} {now : UInt64}
    (goes : s.runGeoidAndEmitTick curve hGenerator blake3 toLeBytes epoch order blindings now =
      some s') : ∃ l2Aggregator clockStream,
      s' = { s with l2Aggregator := l2Aggregator, clockStream := clockStream } := by
  obtain ⟨r, _, made⟩ := Option.map_eq_some_iff.mp goes
  exact ⟨r.2.1, r.2.2, made.symm⟩

variable (curve hGenerator blake3) in
/-- **The first tick goes through** when the only beacon there is, if any, is at offset zero. -/
theorem exists_runGeoidAndEmitTick (toLeBytes : ℝ → List UInt8) {s : NodeState ℝ} {epoch : Epoch}
    (noClusters : s.l2Aggregator = .new) (genesis : s.clockStream = .new)
    (lone : s.l1Store.beacons = [] ∨
      ∃ beacon, s.l1Store.beacons = [beacon] ∧ beacon.epoch = epoch ∧ beacon.clockOffset = 0)
    (order : HashOrder (List ℤ)) (blindings : List ℤ → Scalar × Scalar) (now : UInt64) :
    ∃ s', s.runGeoidAndEmitTick curve hGenerator blake3 toLeBytes epoch order blindings now =
      some s' := by
  unfold runGeoidAndEmitTick
  rw [noClusters, genesis]
  rcases lone with none | ⟨beacon, only, ofEpoch, zero⟩
  · rw [Valve.valveRound_silent (by simp [Layer1Store.getEpoch, none]) rfl]
    exact ⟨_, rfl⟩
  · have present : Layer1Store.getEpoch (Valve.Round.mk order blindings s.l1Store epoch
        (F64.lit 0.01) now 1).l1Store epoch = [beacon] := by
      simp [Layer1Store.getEpoch, only, ofEpoch]
    obtain ⟨state, emits⟩ := Valve.valveRound_lone curve hGenerator blake3 toLeBytes present zero
    exact ⟨_, Option.map_eq_some_iff.mpr ⟨_, emits, rfl⟩⟩

end NodeState

end Rtfsn.Daemon
