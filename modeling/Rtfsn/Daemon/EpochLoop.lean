/-
The two tasks of the daemon: the epoch loop and the receive loop.

They share one `NodeState` behind a lock. A step is what one of them does between taking the lock
and giving it up, with the messages it sends after; an `Event` says which task moves and what it
meets. Any list of events that `step` lets through is an interleaving of the two.

* `handleMessage`: a message that came in.
* `Stage`: where the epoch loop stands. It asks its peers one after the other, in any order, solves,
  publishes and ticks.

A beacon is sent as it is: its JSON is read back as it was written. Messages that leave the state as
it is are `other`.
-/
import Rtfsn.Daemon.NodeState

set_option linter.unusedSectionVars false

namespace Rtfsn.Daemon

inductive ProtocolMessage (F : Type) where
  | peerAnnounce (nodeId : NodeId) (listenPort : UInt16)
  | timeRequest (sender : NodeId) (t1Nanos : UInt64) (epoch : Epoch)
  | timeResponse (sender : NodeId) (t1Nanos t2Nanos t3Nanos : UInt64) (epoch : Epoch)
  | beacon (data : Layer1Beacon F) (epoch : Epoch)
  | other

/-- A message on its way to a peer at its address. -/
structure Packet (F : Type) where
  peer : NodeId
  addr : SocketAddr
  message : ProtocolMessage F

/-- Where the epoch loop stands. -/
inductive Stage (F : Type) where
  /-- At the top of the loop. -/
  | begin
  /-- Measuring, with these peers still to ask. -/
  | measure (todo : Std.ExtTreeMap NodeId SocketAddr)
  /-- The request to `peer` is noted and not yet sent. -/
  | send (peer : NodeId) (addr : SocketAddr) (t1 : UInt64) (todo : Std.ExtTreeMap NodeId SocketAddr)
  /-- Solved, with the beacon to publish. -/
  | publish (beacon : Option (Layer1Beacon F))
  /-- Published. -/
  | tick

/-- The daemon: the shared state, and the epoch loop's own. -/
structure State (F : Type) where
  node : NodeState F
  epochNum : UInt64
  stage : Stage F

inductive Event (F Scalar : Type) where
  | begin
  | request (peer : NodeId) (t1 : UInt64)
  | send
  | solve (chance : Chance F Scalar)
  | publish
  | tick (order : HashOrder (List ℤ)) (blindings : List ℤ → Scalar × Scalar) (now : UInt64)
  /-- A message comes in; the clock reads `arrival`, and `departure` at the reply. -/
  | receive (fromAddr : SocketAddr) (message : ProtocolMessage F) (arrival departure : UInt64)

variable {F Point Scalar : Type} [F64Coord F] [AddCommGroup Point] [CommRing Scalar]
  [Module Scalar Point] [DecidableEq Point] (curve : Ristretto Point Scalar) (hGenerator : Point)
  (blake3 : List UInt8 → Bytes32) (toLeBytes : F → List UInt8)

/-! ### The receive loop -/

namespace NodeState

/-- Note a peer's address unless there is one. -/
def register (s : NodeState F) (peer : NodeId) (addr : SocketAddr) : NodeState F :=
  { s with peers := if s.peers.contains peer then s.peers else s.peers.insert peer addr }

/-- The response is to the request in flight to its sender. -/
def answersPending (s : NodeState F) (sender : NodeId) (t1Nanos : UInt64) (epoch : Epoch) : Bool :=
  match s.pendingT1[sender]? with
  | none => false
  | some (storedT1, storedEpoch) => storedT1 = t1Nanos && storedEpoch = epoch.number

/-- The measurement of a response that came in at `t4`. -/
def responseTwist (t1 t2 t3 t4 : UInt64) (epoch : Epoch) : TwistIndex where
  rttNanos := ((t4 - t1) - (t3 - t2)).toNat
  offsetNanos := wrapI64 (Int.tdiv ((t2.toNat - t1.toNat : ℤ) + (t3.toNat - t4.toNat)) 2)
  asymmetryNanos := wrapI64 ((t2.toNat - t1.toNat : ℤ) - (t4.toNat - t3.toNat))
  quality := 90
  epochMeasured := epoch.number.toNat

/-- A `TimeResponse` comes in at `t4`. -/
def handleTimeResponse (s : NodeState F) (fromAddr : SocketAddr) (sender : NodeId)
    (t1 t2 t3 : UInt64) (epoch : Epoch) (t4 : UInt64) : NodeState F :=
  if s.answersPending sender t1 epoch then
    let s := { s with pendingT1 := s.pendingT1.erase sender }.register sender fromAddr
    { s with
      twistLut := s.twistLut.insert s.nodeId sender (responseTwist t1 t2 t3 t4 epoch)
      rawExchanges := s.rawExchanges ++ [⟨sender, t1, t2, t3, t4⟩] }
  else s

def handleMessage (s : NodeState F) (fromAddr : SocketAddr) (message : ProtocolMessage F)
    (arrival departure : UInt64) : List (Packet F) × NodeState F :=
  match message with
  | .peerAnnounce nodeId listenPort =>
    let listenAddr := ⟨fromAddr.ip, listenPort⟩
    ([⟨nodeId, listenAddr, .peerAnnounce s.nodeId s.listenPort⟩],
      { s with peers := s.peers.insert nodeId listenAddr })
  | .timeRequest sender t1Nanos epoch =>
    ([⟨sender, fromAddr, .timeResponse s.nodeId t1Nanos arrival departure epoch⟩],
      s.register sender fromAddr)
  | .timeResponse sender t1 t2 t3 epoch =>
    ([], s.handleTimeResponse fromAddr sender t1 t2 t3 epoch arrival)
  | .beacon data _ => ([], { s with l1Store := (s.l1Store.insert curve blake3 data).2 })
  | .other => ([], s)

/-- Replies are never beacons. -/
theorem handleMessage_no_beacon (s : NodeState F) (fromAddr : SocketAddr)
    (message : ProtocolMessage F) (arrival departure : UInt64) :
    ∀ packet ∈ (s.handleMessage curve blake3 fromAddr message arrival departure).1,
      ∀ beacon epoch, packet.message ≠ .beacon beacon epoch := by
  cases message <;> simp [handleMessage]

end NodeState

/-! ### The epoch loop -/

namespace State

def new (nodeId : NodeId) (listenPort : UInt16) (epochSecs : F) (words : Vector UInt32 6) :
    State F :=
  ⟨.new nodeId listenPort epochSecs words, 0, .begin⟩

def epoch (d : State F) : Epoch := ⟨d.epochNum⟩

/-- The clean-up of the tick: no request of this epoch stays in flight. -/
def retainPending (pendingT1 : Std.ExtTreeMap NodeId (UInt64 × UInt64)) (epochNum : UInt64) :
    Std.ExtTreeMap NodeId (UInt64 × UInt64) :=
  pendingT1.filter fun _ request => request.2 ≠ epochNum

/-- The top of the loop. -/
def begin (d : State F) : Option (List (Packet F) × State F) :=
  match d.stage with
  | .begin =>
    some ([], { d with
      node := { d.node with currentEpoch := d.epochNum }
      stage := .measure d.node.peers })
  | _ => none

/-- Note the request to `peer`, made at `t1`. -/
def request (d : State F) (peer : NodeId) (t1 : UInt64) : Option (List (Packet F) × State F) :=
  match d.stage with
  | .measure todo =>
    todo[peer]?.map fun addr =>
      ([], { d with
        node := { d.node with pendingT1 := d.node.pendingT1.insert peer (t1, d.epochNum) }
        stage := .send peer addr t1 (todo.erase peer) })
  | _ => none

/-- Send the request, and an announcement with it. -/
def send (d : State F) : Option (List (Packet F) × State F) :=
  match d.stage with
  | .send peer addr t1 todo =>
    some ([⟨peer, addr, .timeRequest d.node.nodeId t1 d.epoch⟩,
        ⟨peer, addr, .peerAnnounce d.node.nodeId d.node.listenPort⟩],
      { d with stage := .measure todo })
  | _ => none

/-- Solve, once all peers have been asked. -/
def solve (d : State F) (chance : Chance F Scalar) : Option (List (Packet F) × State F) :=
  match d.stage with
  | .measure todo =>
    if todo.isEmpty then
      let solved := (d.node.solveAndAdvance d.epoch chance).2
      let published := solved.buildAndPublishBeacon curve blake3 d.epoch chance
      some ([], { d with node := published.2, stage := .publish published.1 })
    else none
  | _ => none

/-- Send the beacon, if there is one, to every peer. -/
def publish (d : State F) : Option (List (Packet F) × State F) :=
  match d.stage with
  | .publish beacon =>
    let packets := match beacon with
      | none => []
      | some b => d.node.peers.toList.map fun p => ⟨p.1, p.2, .beacon b d.epoch⟩
    some (packets, { d with stage := .tick })
  | _ => none

/-- Tick, clean up, and go on to the next epoch. -/
def tick (d : State F) (order : HashOrder (List ℤ)) (blindings : List ℤ → Scalar × Scalar)
    (now : UInt64) : Option (List (Packet F) × State F) :=
  match d.stage with
  | .tick => do
    let node ← d.node.runGeoidAndEmitTick curve hGenerator blake3 toLeBytes d.epoch order blindings
      now
    let epochNum ← U64.checkedAdd d.epochNum 1
    return ([], ⟨{ node with pendingT1 := retainPending node.pendingT1 d.epochNum }, epochNum,
      .begin⟩)
  | _ => none

/-- One message received. -/
def receive (d : State F) (fromAddr : SocketAddr) (message : ProtocolMessage F)
    (arrival departure : UInt64) : Option (List (Packet F) × State F) :=
  let handled := d.node.handleMessage curve blake3 fromAddr message arrival departure
  some (handled.1, { d with node := handled.2 })

/-- One step of either task, with the messages it sends; `none` when it cannot be taken, or
overflows. -/
def step (d : State F) : Event F Scalar → Option (List (Packet F) × State F)
  | .begin => d.begin
  | .request peer t1 => d.request peer t1
  | .send => d.send
  | .solve chance => d.solve curve blake3 chance
  | .publish => d.publish
  | .tick order blindings now => d.tick curve hGenerator blake3 toLeBytes order blindings now
  | .receive fromAddr message arrival departure =>
    d.receive curve blake3 fromAddr message arrival departure

/-! ### What a step does -/

variable {curve hGenerator blake3 toLeBytes} {d d' : State F} {packets : List (Packet F)}

theorem begin_iff : d.begin = some (packets, d') ↔ d.stage = .begin ∧ packets = [] ∧ d' = { d with
      node := { d.node with currentEpoch := d.epochNum }
      stage := .measure d.node.peers } := by
  unfold begin
  cases d.stage <;> simp [eq_comm]

theorem request_iff {peer : NodeId} {t1 : UInt64} : d.request peer t1 = some (packets, d') ↔
    ∃ todo addr, d.stage = .measure todo ∧ todo[peer]? = some addr ∧ packets = [] ∧ d' = { d with
      node := { d.node with pendingT1 := d.node.pendingT1.insert peer (t1, d.epochNum) }
      stage := .send peer addr t1 (todo.erase peer) } := by
  unfold request
  cases d.stage with
  | measure todo => cases listed : todo[peer]? <;> simp [listed, eq_comm]
  | _ => simp

theorem send_iff : d.send = some (packets, d') ↔
    ∃ peer addr t1 todo, d.stage = .send peer addr t1 todo ∧
      packets = [⟨peer, addr, .timeRequest d.node.nodeId t1 d.epoch⟩,
        ⟨peer, addr, .peerAnnounce d.node.nodeId d.node.listenPort⟩] ∧
      d' = { d with stage := .measure todo } := by
  unfold send
  cases d.stage <;> simp [eq_comm]

theorem solve_iff {chance : Chance F Scalar} : d.solve curve blake3 chance = some (packets, d') ↔
    ∃ todo, d.stage = .measure todo ∧ todo.isEmpty = true ∧ packets = [] ∧ d' = { d with
      node := ((d.node.solveAndAdvance d.epoch chance).2.buildAndPublishBeacon curve blake3 d.epoch
        chance).2
      stage := .publish ((d.node.solveAndAdvance d.epoch chance).2.buildAndPublishBeacon curve
        blake3 d.epoch chance).1 } := by
  unfold solve
  cases d.stage with
  | measure todo =>
    dsimp only
    by_cases asked : todo.isEmpty = true
    · rw [if_pos asked, Option.some.injEq, Prod.mk.injEq]
      constructor
      · rintro ⟨rfl, rfl⟩
        exact ⟨todo, rfl, asked, rfl, rfl⟩
      · rintro ⟨_, _, _, rfl, rfl⟩
        exact ⟨rfl, rfl⟩
    · rw [if_neg asked]
      constructor
      · intro impossible
        cases impossible
      · rintro ⟨_, same, empty, _⟩
        cases same
        exact absurd empty asked
  | _ => simp

theorem publish_iff : d.publish = some (packets, d') ↔
    ∃ beacon, d.stage = .publish beacon ∧ d' = { d with stage := .tick } ∧
      packets = match beacon with
        | none => []
        | some b => d.node.peers.toList.map fun p => ⟨p.1, p.2, .beacon b d.epoch⟩ := by
  unfold publish
  cases d.stage <;> simp [eq_comm, and_comm]

theorem tick_iff {order : HashOrder (List ℤ)} {blindings : List ℤ → Scalar × Scalar}
    {now : UInt64} :
    d.tick curve hGenerator blake3 toLeBytes order blindings now = some (packets, d') ↔
    ∃ node epochNum, d.stage = .tick ∧ d.node.runGeoidAndEmitTick curve hGenerator blake3 toLeBytes
        d.epoch order blindings now = some node ∧ d.epochNum.toNat + 1 = epochNum.toNat ∧
      packets = [] ∧ d' = ⟨{ node with
        pendingT1 := retainPending node.pendingT1 d.epochNum }, epochNum, .begin⟩ := by
  unfold tick
  cases d.stage with
  | tick =>
    simp only [Option.bind_eq_bind, Option.bind_eq_some_iff, Option.pure_def, Option.some.injEq,
      Prod.mk.injEq, U64.checkedAdd_eq_some, true_and]
    constructor
    · rintro ⟨node, ticked, epochNum, count, rfl, rfl⟩
      exact ⟨node, epochNum, ticked, count, rfl, rfl⟩
    · rintro ⟨node, epochNum, ticked, count, rfl, rfl⟩
      exact ⟨node, ticked, epochNum, count, rfl, rfl⟩
  | _ => simp

end State

end Rtfsn.Daemon
