/-
**The measurements of a daemon, as a machine of their own.**

Of the state that the two tasks of a daemon share, requests and responses touch little: `Measuring`.

* `Measuring.Moves`: what may happen to it, and which time messages go out. Where the peers, the
  clocks and the beacons come from is left open.
* `State.step_moves`: every step of the daemon is such a move.
-/
import Rtfsn.Daemon.Attribution

set_option linter.unusedSectionVars false

namespace Rtfsn.Daemon

/-- What requests and responses touch, and where the epoch loop stands. -/
structure Measuring (F : Type) where
  nodeId : NodeId
  pendingT1 : Std.ExtTreeMap NodeId (UInt64 × UInt64)
  twistLut : TwistLUT
  rawExchanges : List RawExchange
  entries : List (Layer0Entry F)
  epochNum : UInt64
  stage : Stage F

variable {F Point Scalar : Type} [F64Coord F] [AddCommGroup Point] [CommRing Scalar]
  [Module Scalar Point] [DecidableEq Point] {curve : Ristretto Point Scalar} {hGenerator : Point}
  {blake3 : List UInt8 → Bytes32} {toLeBytes : F → List UInt8}

def State.measuring (d : State F) : Measuring F where
  nodeId := d.node.nodeId
  pendingT1 := d.node.pendingT1
  twistLut := d.node.twistLut
  rawExchanges := d.node.rawExchanges
  entries := d.node.l0Store.entries
  epochNum := d.epochNum
  stage := d.stage

/-- The message asks for the time or tells it. -/
def ProtocolMessage.isTime : ProtocolMessage F → Bool
  | .timeRequest .. => true
  | .timeResponse .. => true
  | _ => false

namespace Measuring

/-- Take in a response that came at `t4`. -/
def accept (m : Measuring F) (sender : NodeId) (t1 t2 t3 : UInt64) (epoch : Epoch) (t4 : UInt64) :
    Measuring F :=
  { m with
    pendingT1 := m.pendingT1.erase sender
    twistLut := m.twistLut.insert m.nodeId sender (NodeState.responseTwist t1 t2 t3 t4 epoch)
    rawExchanges := m.rawExchanges ++ [⟨sender, t1, t2, t3, t4⟩] }

/-- The entry holds the exchanges made since the last solve. -/
structure Records (m : Measuring F) (entry : Layer0Entry F) : Prop where
  ofEpoch : entry.epoch = ⟨m.epochNum⟩
  measurements : ∃ currentSecs : F,
    entry.measurements = m.rawExchanges.map (measurementRecord currentSecs)
  peerCount : entry.solve.peerCount = m.rawExchanges.length

/-- What an event does to the measurements, with the packets that go out. -/
inductive Moves : Measuring F → Event F Scalar → List (Packet F) → Measuring F → Prop
  | begin {m : Measuring F} (peers : Std.ExtTreeMap NodeId SocketAddr) (idle : m.stage = .begin) :
    Moves m .begin [] { m with stage := .measure peers }
  | request {m : Measuring F} {peer : NodeId} {addr : SocketAddr}
      {todo : Std.ExtTreeMap NodeId SocketAddr} (t1 : UInt64) (measuring : m.stage = .measure todo)
      (listed : todo[peer]? = some addr) :
    Moves m (.request peer t1) []
      { m with
        pendingT1 := m.pendingT1.insert peer (t1, m.epochNum)
        stage := .send peer addr t1 (todo.erase peer) }
  | send {m : Measuring F} {peer : NodeId} {addr : SocketAddr} {t1 : UInt64}
      {todo : Std.ExtTreeMap NodeId SocketAddr} (listenPort : UInt16)
      (sending : m.stage = .send peer addr t1 todo) :
    Moves m .send [⟨peer, addr, .timeRequest m.nodeId t1 ⟨m.epochNum⟩⟩,
      ⟨peer, addr, .peerAnnounce m.nodeId listenPort⟩] { m with stage := .measure todo }
  | solve {m : Measuring F} {todo : Std.ExtTreeMap NodeId SocketAddr} {entry : Layer0Entry F}
      (chance : Chance F Scalar) (beacon : Option (Layer1Beacon F))
      (measuring : m.stage = .measure todo) (records : m.Records entry) :
    Moves m (.solve chance) []
      { m with
        rawExchanges := []
        entries := m.entries ++ [entry]
        stage := .publish beacon }
  | publish {m : Measuring F} {beacon : Option (Layer1Beacon F)} {packets : List (Packet F)}
      (solved : m.stage = .publish beacon)
      (untimed : ∀ packet ∈ packets, packet.message.isTime = false) :
    Moves m .publish packets { m with stage := .tick }
  | tick {m : Measuring F} {epochNum : UInt64} (order : HashOrder (List ℤ))
      (blindings : List ℤ → Scalar × Scalar) (now : UInt64) (published : m.stage = .tick)
      (next : m.epochNum.toNat + 1 = epochNum.toNat) :
    Moves m (.tick order blindings now) []
      { m with
        pendingT1 := State.retainPending m.pendingT1 m.epochNum
        epochNum := epochNum
        stage := .begin }
  | answer (m : Measuring F) (fromAddr : SocketAddr) (sender : NodeId) (t1 : UInt64)
      (epoch : Epoch) (arrival departure : UInt64) :
    Moves m (.receive fromAddr (.timeRequest sender t1 epoch) arrival departure)
      [⟨sender, fromAddr, .timeResponse m.nodeId t1 arrival departure epoch⟩] m
  | accept {m : Measuring F} {sender : NodeId} {t1 : UInt64} {epoch : Epoch}
      (fromAddr : SocketAddr) (t2 t3 t4 departure : UInt64)
      (answers : m.pendingT1[sender]? = some (t1, epoch.number)) :
    Moves m (.receive fromAddr (.timeResponse sender t1 t2 t3 epoch) t4 departure) []
      (m.accept sender t1 t2 t3 epoch t4)
  | ignore {m : Measuring F} {packets : List (Packet F)} (fromAddr : SocketAddr)
      (message : ProtocolMessage F) (arrival departure : UInt64)
      (untimed : ∀ packet ∈ packets, packet.message.isTime = false) :
    Moves m (.receive fromAddr message arrival departure) packets m

end Measuring

open Measuring (Moves)

variable {d d' : State F} {packets : List (Packet F)} {event : Event F Scalar}

/-- A message moves the measurements. -/
theorem State.receive_moves (d : State F) (fromAddr : SocketAddr) (message : ProtocolMessage F)
    (arrival departure : UInt64) :
    Moves d.measuring (.receive fromAddr message arrival departure : Event F Scalar)
      (d.node.handleMessage curve blake3 fromAddr message arrival departure).1
      (State.measuring { d with
        node := (d.node.handleMessage curve blake3 fromAddr message arrival departure).2 }) := by
  cases message with
  | peerAnnounce nodeId listenPort =>
    exact .ignore _ _ _ _ (by simp [NodeState.handleMessage, ProtocolMessage.isTime])
  | timeRequest sender t1 epoch => exact .answer _ _ _ _ _ _ _
  | timeResponse sender t1 t2 t3 epoch =>
    show Moves _ _ [] (State.measuring { d with
      node := d.node.handleTimeResponse fromAddr sender t1 t2 t3 epoch arrival })
    unfold NodeState.handleTimeResponse
    by_cases answers : d.node.answersPending sender t1 epoch = true
    · rw [if_pos answers]
      exact .accept fromAddr t2 t3 arrival departure (answersPending_iff.mp answers)
    · rw [if_neg answers]
      exact .ignore _ _ _ _ (by simp)
  | beacon data epoch => exact .ignore _ _ _ _ (by simp [NodeState.handleMessage])
  | other => exact .ignore _ _ _ _ (by simp [NodeState.handleMessage])

/-- **Every step of the daemon moves the measurements.** -/
theorem State.step_moves (goes : d.step curve hGenerator blake3 toLeBytes event =
    some (packets, d')) : Moves d.measuring event packets d'.measuring := by
  cases event with
  | begin =>
    obtain ⟨idle, rfl, rfl⟩ := State.begin_iff.mp goes
    exact .begin _ idle
  | request peer t1 =>
    obtain ⟨todo, addr, measuring, listed, rfl, rfl⟩ := State.request_iff.mp goes
    exact .request t1 measuring listed
  | send =>
    obtain ⟨peer, addr, t1, todo, sending, rfl, rfl⟩ := State.send_iff.mp goes
    exact .send _ sending
  | solve chance =>
    obtain ⟨todo, measuring, _, rfl, rfl⟩ := State.solve_iff.mp goes
    obtain ⟨entry, records, store⟩ := d.node.solveAndAdvance_records d.epoch chance
    obtain ⟨l1Store, published⟩ := NodeState.buildAndPublishBeacon_snd curve blake3
      (d.node.solveAndAdvance d.epoch chance).2 d.epoch chance
    have recorded : d.measuring.Records entry :=
      ⟨records.ofEpoch, ⟨_, records.measurements⟩, records.peerCount⟩
    have moved := Moves.solve (m := d.measuring) chance
      ((d.node.solveAndAdvance d.epoch chance).2.buildAndPublishBeacon curve blake3 d.epoch
        chance).1 measuring recorded
    have entries : (d.node.solveAndAdvance d.epoch chance).2.l0Store.entries =
        d.node.l0Store.entries ++ [entry] := by
      rw [store]
    rw [published]
    unfold State.measuring at moved ⊢
    dsimp only at moved ⊢
    rw [entries]
    exact moved
  | publish =>
    obtain ⟨beacon, solved, rfl, rfl⟩ := State.publish_iff.mp goes
    refine .publish solved fun packet out => ?_
    cases beacon with
    | none => cases out
    | some b =>
      obtain ⟨p, _, rfl⟩ := List.mem_map.mp out
      rfl
  | tick order blindings now =>
    obtain ⟨node, epochNum, published, ticked, next, rfl, rfl⟩ := State.tick_iff.mp goes
    obtain ⟨l2Aggregator, clockStream, rfl⟩ := NodeState.runGeoidAndEmitTick_eq ticked
    exact .tick order blindings now published next
  | receive fromAddr message arrival departure =>
    cases goes
    exact d.receive_moves fromAddr message arrival departure

end Rtfsn.Daemon
