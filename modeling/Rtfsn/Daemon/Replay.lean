/-
**What replayed, delayed and forged messages can do to a daemon's measurements.**

No assumption is made of the messages that come in. A peer that has answered in an epoch is
`Settled`: nothing is in flight to it and it is not asked again before the next epoch.

* `Settled.moves`: a peer stays settled until the tick.
* `Inv`, `Inv.moves`: so the twists of a peer have increasing epochs, and the exchanges that wait
  for a solve hold each peer at most twice: once from after the last solve and once from this epoch.
* `run_history`: over every run, the table measures a peer at most once an epoch, by the answer to a
  request of that epoch.
* `run_twice`: over every run, an entry measures a peer at most twice, by answers to requests of its
  own epoch and of the one before.
-/
import Rtfsn.Daemon.Network

set_option linter.unusedSectionVars false

namespace Rtfsn.Daemon

variable {F Point Scalar : Type} [F64Coord F] [AddCommGroup Point] [CommRing Scalar]
  [Module Scalar Point] [DecidableEq Point] {curve : Ristretto Point Scalar} {hGenerator : Point}
  {blake3 : List UInt8 → Bytes32} {toLeBytes : F → List UInt8}

namespace Measuring

/-- A request of `epoch` went out to `peer`, or is about to. -/
def Asked (sent : List (Packet F)) (m : Measuring F) (epoch : Epoch) (peer : NodeId) (t1 : UInt64) :
    Prop :=
  Sent sent m.nodeId epoch peer t1 ∨
    epoch = ⟨m.epochNum⟩ ∧ ∃ addr todo, m.stage = .send peer addr t1 todo

/-- The peer is not to be asked again in this epoch, and nothing is in flight to it. -/
structure Settled (m : Measuring F) (peer : NodeId) : Prop where
  answered : m.pendingT1[peer]? = none
  asked : m.stage.todo[peer]? = none
  begun : m.stage ≠ .begin

/-- Requests in flight are of this epoch, and to peers no longer to ask. -/
structure InFlight (sent : List (Packet F)) (m : Measuring F) (peer : NodeId)
    (request : UInt64 × UInt64) : Prop where
  ofEpoch : request.2 = m.epochNum
  out : Asked sent m ⟨m.epochNum⟩ peer request.1
  asked : m.stage.todo[peer]? = none
  begun : m.stage ≠ .begin

variable {events : List (Event F Scalar)} {event : Event F Scalar} {sent packets : List (Packet F)}
  {m m' : Measuring F}

/-! ### Requests -/

/-- **A request about to be sent is sent**, whatever comes next. -/
theorem Asked.moves {epoch : Epoch} {peer : NodeId} {t1 : UInt64}
    (asked : Asked sent m epoch peer t1) (moves : m.Moves event packets m') :
    Asked (sent ++ packets) m' epoch peer t1 := by
  rcases asked with out | ⟨rfl, addr, todo, stage⟩
  · left
    rw [moves.nodeId]
    exact out.append packets
  cases moves with
  | send listenPort sending =>
    cases stage.symm.trans sending
    exact .inl ⟨addr, List.mem_append_right _ List.mem_cons_self⟩
  | begin _ idle => cases stage.symm.trans idle
  | request _ measuring _ => cases stage.symm.trans measuring
  | solve _ _ measuring _ => cases stage.symm.trans measuring
  | publish solved _ => cases stage.symm.trans solved
  | tick _ _ _ published _ => cases stage.symm.trans published
  | answer => exact .inr ⟨rfl, addr, todo, stage⟩
  | accept => exact .inr ⟨rfl, addr, todo, stage⟩
  | ignore => exact .inr ⟨rfl, addr, todo, stage⟩

/-- The epoch ends with the tick, and else stays. -/
theorem Moves.epochNum (moves : m.Moves event packets m') : m'.epochNum = m.epochNum ∨
    m.stage = .tick ∧ m'.stage = .begin ∧ m.epochNum.toNat + 1 = m'.epochNum.toNat := by
  cases moves with
  | tick _ _ _ published next => exact .inr ⟨published, rfl, next⟩
  | _ => exact .inl rfl

/-- **A peer stays settled until the tick.** -/
theorem Settled.moves {peer : NodeId} (settled : m.Settled peer)
    (moves : m.Moves event packets m') (same : m'.epochNum = m.epochNum) : m'.Settled peer := by
  obtain ⟨answered, asked, begun⟩ := settled
  cases moves with
  | begin _ idle => exact absurd idle begun
  | request t1 measuring listed =>
    rw [measuring] at asked
    refine ⟨?_, Maps.getElem?_erase_of_none asked _, by simp⟩
    rw [Maps.getElem?_insert_of_ne]
    · exact answered
    · rintro rfl
      cases listed.symm.trans asked
  | send _ sending =>
    rw [sending] at asked
    exact ⟨answered, asked, by simp⟩
  | solve _ _ measuring => exact ⟨answered, by simp [Stage.todo], by simp⟩
  | publish solved => exact ⟨answered, by simp [Stage.todo], by simp⟩
  | @tick epochNum _ _ _ _ next =>
    rw [show epochNum = m.epochNum from same] at next
    omega
  | answer => exact ⟨answered, asked, begun⟩
  | accept => exact ⟨Maps.getElem?_erase_of_none answered _, asked, begun⟩
  | ignore => exact ⟨answered, asked, begun⟩

/-- **What is in flight after a move** is in flight as it should be. -/
theorem InFlight.moves (flight : Maps.Entries (InFlight sent m) m.pendingT1)
    (moves : m.Moves event packets m') : Maps.Entries (InFlight (sent ++ packets) m')
      m'.pendingT1 := by
  intro peer request found
  have still : ∀ {epoch other t1}, Asked sent m epoch other t1 →
      Asked (sent ++ packets) m' epoch other t1 := fun asked => asked.moves moves
  cases moves with
  | begin _ idle => exact absurd idle (flight peer request found).begun
  | request t1 measuring listed =>
    refine Maps.Entries.insert (P := InFlight _ _) (fun other waiting different before => ?_) ?_
      peer request found
    · obtain ⟨ofEpoch, out, asked, begun⟩ := flight other waiting before
      rw [measuring] at asked
      exact ⟨ofEpoch, still out, Maps.getElem?_erase_of_none asked _, by simp⟩
    · exact ⟨rfl, .inr ⟨rfl, _, _, rfl⟩, Std.ExtTreeMap.getElem?_erase_self, by simp⟩
  | send listenPort sending =>
    obtain ⟨ofEpoch, out, asked, begun⟩ := flight peer request found
    rw [sending] at asked
    exact ⟨ofEpoch, still out, asked, by simp⟩
  | solve chance beacon measuring records =>
    obtain ⟨ofEpoch, out, asked, begun⟩ := flight peer request found
    exact ⟨ofEpoch, still out, by simp [Stage.todo], by simp⟩
  | publish solved untimed =>
    obtain ⟨ofEpoch, out, asked, begun⟩ := flight peer request found
    exact ⟨ofEpoch, still out, by simp [Stage.todo], by simp⟩
  | tick order blindings now published next =>
    -- All that is in flight is of this epoch, and goes.
    simp only [State.retainPending, Std.ExtTreeMap.getElem?_filter', Option.filter_eq_some_iff,
      decide_eq_true_eq] at found
    exact absurd (flight peer request found.1).ofEpoch found.2
  | answer =>
    obtain ⟨ofEpoch, out, asked, begun⟩ := flight peer request found
    exact ⟨ofEpoch, still out, asked, begun⟩
  | accept fromAddr t2 t3 t4 departure answers =>
    obtain ⟨ofEpoch, out, asked, begun⟩ := flight.erase _ peer request found
    exact ⟨ofEpoch, still out, asked, begun⟩
  | ignore fromAddr message arrival departure untimed =>
    obtain ⟨ofEpoch, out, asked, begun⟩ := flight peer request found
    exact ⟨ofEpoch, still out, asked, begun⟩

/-! ### Answers -/

/-- The exchange came in as a response of `epoch`, to a request of `epoch`. -/
structure Answered (events : List (Event F Scalar)) (sent : List (Packet F)) (m : Measuring F)
    (epoch : Epoch) (raw : RawExchange) : Prop where
  received : Received events epoch raw
  asked : Asked sent m epoch raw.peer raw.t1

theorem Answered.moves {epoch : Epoch} {raw : RawExchange}
    (answered : Answered events sent m epoch raw) (moves : m.Moves event packets m') :
    Answered (events ++ [event]) (sent ++ packets) m' epoch raw :=
  ⟨answered.received.append event, answered.asked.moves moves⟩

/-- The peer is done with `epoch`: no other response of it will be taken in. -/
def Done (m : Measuring F) (epoch : Epoch) (peer : NodeId) : Prop :=
  epoch.number.toNat < m.epochNum.toNat ∨ epoch = ⟨m.epochNum⟩ ∧ m.Settled peer

theorem Done.moves {epoch : Epoch} {peer : NodeId} (done : m.Done epoch peer)
    (moves : m.Moves event packets m') : m'.Done epoch peer := by
  rcases moves.epochNum with same | ⟨_, _, next⟩
  · rcases done with past | ⟨rfl, settled⟩
    · exact .inl (same ▸ past)
    · exact .inr ⟨by rw [same], settled.moves moves same⟩
  · rcases done with past | ⟨rfl, _⟩
    · exact .inl (by omega)
    · exact .inl (by rw [← next]; exact Nat.lt_succ_self _)

/-- The twists held of a peer. -/
def held (m : Measuring F) (peer : NodeId) : List TwistIndex :=
  (m.twistLut.get m.nodeId peer).getD []

/-- The twist is of an answer, of an epoch that the peer is done with. -/
def Measured (events : List (Event F Scalar)) (sent : List (Packet F)) (m : Measuring F)
    (peer : NodeId) (twist : TwistIndex) : Prop :=
  ∃ raw epoch, raw.peer = peer ∧ twist = storedTwist m.nodeId raw epoch ∧
    Answered events sent m epoch raw ∧ m.Done epoch peer

theorem Measured.moves {peer : NodeId} {twist : TwistIndex}
    (measured : Measured events sent m peer twist) (moves : m.Moves event packets m') :
    Measured (events ++ [event]) (sent ++ packets) m' peer twist := by
  obtain ⟨raw, epoch, ofPeer, made, answered, done⟩ := measured
  exact ⟨raw, epoch, ofPeer, moves.nodeId ▸ made, answered.moves moves, done.moves moves⟩

theorem epochMeasured_storedTwist (own : NodeId) (raw : RawExchange) (epoch : Epoch) :
    (storedTwist own raw epoch).epochMeasured = epoch.number.toNat := by
  unfold storedTwist
  by_cases ordered : own ≤ raw.peer <;> simp [ordered, NodeState.responseTwist, TwistIndex.reversed]

/-- The exchanges that wait for a solve: those that came in late, since the last solve and before
the tick, and those of this epoch. -/
structure Waits (events : List (Event F Scalar)) (sent : List (Packet F)) (m : Measuring F)
    (late now : List RawExchange) : Prop where
  all : m.rawExchanges = late ++ now
  lateOnce : (late.map fun raw => raw.peer).Nodup
  nowOnce : (now.map fun raw => raw.peer).Nodup
  ofBefore : ∀ raw ∈ late, ∃ epoch, epoch.number.toNat + 1 = m.epochNum.toNat ∧
    Answered events sent m epoch raw
  ofNow : ∀ raw ∈ now, Answered events sent m ⟨m.epochNum⟩ raw ∧ m.Settled raw.peer
  solved : m.stage.solved = true → late = []

/-- The records of `epoch`: each peer once, each from an answer to a request of `epoch`. -/
structure Once (events : List (Event F Scalar)) (sent : List (Packet F)) (own : NodeId) (epoch : ℕ)
    (records : List (MeasurementRecord F)) : Prop where
  nodup : (records.map fun record => record.peer).Nodup
  answers : ∀ record ∈ records, ∃ (raw : RawExchange) (e : Epoch), e.number.toNat = epoch ∧
    record = measurementRecord record.localTime raw ∧ Received events e raw ∧
    Sent sent own e raw.peer raw.t1

/-- The entry measures no peer more than twice: once in its own epoch and once in the one before. -/
structure Twice (events : List (Event F Scalar)) (sent : List (Packet F)) (own : NodeId)
    (entry : Layer0Entry F) : Prop where
  parts : ∃ late now, entry.measurements = late ++ now ∧
    (∀ record ∈ late, 0 < entry.epoch.number.toNat) ∧
    Once events sent own (entry.epoch.number.toNat - 1) late ∧
    Once events sent own entry.epoch.number.toNat now
  count : entry.solve.peerCount = entry.measurements.length

theorem Once.append {own : NodeId} {epoch : ℕ} {records : List (MeasurementRecord F)}
    (once : Once events sent own epoch records) (event : Event F Scalar)
    (packets : List (Packet F)) :
    Once (events ++ [event]) (sent ++ packets) own epoch records where
  nodup := once.nodup
  answers record measured := by
    obtain ⟨raw, e, ofEpoch, made, received, out⟩ := once.answers record measured
    exact ⟨raw, e, ofEpoch, made, received.append event, out.append packets⟩

theorem Twice.append {own : NodeId} {entry : Layer0Entry F}
    (twice : Twice events sent own entry) (event : Event F Scalar) (packets : List (Packet F)) :
    Twice (events ++ [event]) (sent ++ packets) own entry := by
  obtain ⟨⟨late, now, all, later, before, this⟩, count⟩ := twice
  exact ⟨⟨late, now, all, later, before.append event packets, this.append event packets⟩, count⟩

/-! ### The invariant -/

/-- What holds between any two steps, whatever came in. -/
structure Inv (events : List (Event F Scalar)) (sent : List (Packet F)) (m : Measuring F) :
    Prop where
  flight : Maps.Entries (InFlight sent m) m.pendingT1
  increasing : ∀ peer, (m.held peer).Pairwise fun a b => a.epochMeasured < b.epochMeasured
  measured : ∀ peer, ∀ twist ∈ m.held peer, Measured events sent m peer twist
  waits : ∃ late now, Waits events sent m late now
  entries : ∀ entry ∈ m.entries, Twice events sent m.nodeId entry

theorem Inv.new (nodeId : NodeId) (listenPort : UInt16) (epochSecs : F)
    (words : Vector UInt32 6) :
    Inv ([] : List (Event F Scalar)) []
      (State.new nodeId listenPort epochSecs words).measuring := by
  have none : ∀ peer, (State.new nodeId listenPort epochSecs words).measuring.held peer = [] := by
    intro peer
    simp [held, State.measuring, State.new, NodeState.new]
  refine ⟨Maps.Entries.empty _, fun peer => ?_, fun peer twist listed => ?_,
    ⟨[], [], rfl, ?_, ?_, ?_, ?_, ?_⟩, ?_⟩
  · rw [none]
    exact List.Pairwise.nil
  · rw [none] at listed
    cases listed
  all_goals simp [State.measuring, State.new, NodeState.new, Layer0Store.new]

/-- A move that leaves the exchanges and the epoch alone. -/
theorem Waits.moves {late now : List RawExchange} (waits : Waits events sent m late now)
    (moves : m.Moves event packets m') (raw : m'.rawExchanges = m.rawExchanges)
    (same : m'.epochNum = m.epochNum) (solved : m'.stage.solved = true → m.stage.solved = true) :
    Waits (events ++ [event]) (sent ++ packets) m' late now where
  all := raw.trans waits.all
  lateOnce := waits.lateOnce
  nowOnce := waits.nowOnce
  ofBefore raw waiting := by
    obtain ⟨epoch, before, answered⟩ := waits.ofBefore raw waiting
    exact ⟨epoch, same ▸ before, answered.moves moves⟩
  ofNow raw waiting := by
    obtain ⟨answered, settled⟩ := waits.ofNow raw waiting
    exact ⟨same ▸ answered.moves moves, settled.moves moves same⟩
  solved ended := waits.solved (solved ended)

/-- **A response that is accepted** is the first of its peer in this epoch. -/
theorem Inv.accept {fromAddr : SocketAddr} {sender : NodeId} {t1 t2 t3 t4 departure : UInt64}
    {epoch : Epoch} (inv : Inv events sent m)
    (answers : m.pendingT1[sender]? = some (t1, epoch.number)) :
    Inv (events ++ [.receive fromAddr (.timeResponse sender t1 t2 t3 epoch) t4 departure])
      (sent ++ []) (m.accept sender t1 t2 t3 epoch t4) := by
  have moves : m.Moves (.receive fromAddr (.timeResponse sender t1 t2 t3 epoch) t4 departure :
      Event F Scalar) [] (m.accept sender t1 t2 t3 epoch t4) :=
    .accept fromAddr t2 t3 t4 departure answers
  obtain ⟨ofEpoch, out, asked, begun⟩ := inv.flight sender _ answers
  obtain rfl : epoch = ⟨m.epochNum⟩ := congrArg Epoch.mk ofEpoch
  have answered : Answered (events ++ [.receive fromAddr
      (.timeResponse sender t1 t2 t3 ⟨m.epochNum⟩) t4 departure]) (sent ++ [])
      (m.accept sender t1 t2 t3 ⟨m.epochNum⟩ t4) ⟨m.epochNum⟩ ⟨sender, t1, t2, t3, t4⟩ :=
    ⟨⟨fromAddr, departure, List.mem_append_right _ (List.mem_singleton_self _)⟩, out.moves moves⟩
  have settled : (m.accept sender t1 t2 t3 ⟨m.epochNum⟩ t4).Settled sender :=
    ⟨Std.ExtTreeMap.getElem?_erase_self, asked, begun⟩
  have unsettled : ¬ m.Settled sender := fun settled => by
    cases answers.symm.trans settled.answered
  have grows : ∀ peer, (m.accept sender t1 t2 t3 ⟨m.epochNum⟩ t4).held peer =
      if sender = peer then
        m.held peer ++ [storedTwist m.nodeId ⟨sender, t1, t2, t3, t4⟩ ⟨m.epochNum⟩]
      else m.held peer := fun peer => m.twistLut.get_insert m.nodeId sender peer _
  refine ⟨InFlight.moves inv.flight moves, fun peer => ?_, fun peer twist listed => ?_, ?_,
    fun entry recorded => (inv.entries entry recorded).append _ _⟩
  · rw [grows]
    by_cases same : sender = peer
    · subst same
      rw [if_pos rfl, List.pairwise_append]
      refine ⟨inv.increasing sender, List.pairwise_singleton _ _, fun twist before new now => ?_⟩
      obtain ⟨raw, e, _, made, _, done⟩ := inv.measured sender twist before
      rw [List.mem_singleton.mp now, made, epochMeasured_storedTwist, epochMeasured_storedTwist]
      exact done.resolve_right fun this => unsettled this.2
    · rw [if_neg same]
      exact inv.increasing peer
  · rw [grows] at listed
    by_cases same : sender = peer
    · rw [if_pos same] at listed
      rcases List.mem_append.mp listed with before | now
      · exact (inv.measured peer twist before).moves moves
      · exact ⟨_, _, same, List.mem_singleton.mp now, answered, .inr ⟨rfl, same ▸ settled⟩⟩
    · rw [if_neg same] at listed
      exact (inv.measured peer twist listed).moves moves
  · obtain ⟨late, now, waits⟩ := inv.waits
    refine ⟨late, now ++ [⟨sender, t1, t2, t3, t4⟩], ?_, waits.lateOnce, ?_, fun raw waiting => ?_,
      fun raw waiting => ?_, waits.solved⟩
    · show m.rawExchanges ++ [_] = _
      rw [waits.all, List.append_assoc]
    · rw [List.map_append, List.nodup_append]
      refine ⟨waits.nowOnce, List.nodup_singleton _, fun peer before peer' new => ?_⟩
      obtain ⟨raw, waiting, rfl⟩ := List.mem_map.mp before
      rw [List.mem_singleton.mp new]
      exact fun same => unsettled
        ((show raw.peer = sender from same) ▸ (waits.ofNow raw waiting).2)
    · obtain ⟨e, before, was⟩ := waits.ofBefore raw waiting
      exact ⟨e, before, was.moves moves⟩
    · rcases List.mem_append.mp waiting with before | new
      · obtain ⟨was, done⟩ := waits.ofNow raw before
        exact ⟨was.moves moves, done.moves moves rfl⟩
      · rw [List.mem_singleton.mp new]
        exact ⟨answered, settled⟩

/-- While measuring, a request about to be sent is sent. -/
theorem Answered.sent_of_measure {epoch : Epoch} {raw : RawExchange}
    (answered : Answered events sent m epoch raw) {todo : Std.ExtTreeMap NodeId SocketAddr}
    (measuring : m.stage = .measure todo) : Sent sent m.nodeId epoch raw.peer raw.t1 := by
  refine answered.asked.resolve_right ?_
  rintro ⟨_, addr, todo', sending⟩
  cases measuring.symm.trans sending

/-- **What a solve records**: what came in late, and what came in since. -/
theorem Waits.twice {late now : List RawExchange} {entry : Layer0Entry F}
    (waits : Waits events sent m late now) (records : m.Records entry)
    {todo : Std.ExtTreeMap NodeId SocketAddr} (measuring : m.stage = .measure todo) :
    Twice events sent m.nodeId entry := by
  obtain ⟨secs, all⟩ := records.measurements
  have number : entry.epoch.number = m.epochNum := congrArg Epoch.number records.ofEpoch
  have peers : ∀ raws : List RawExchange, ((raws.map (measurementRecord secs)).map
      fun record => record.peer) = raws.map fun raw => raw.peer := by
    intro raws
    rw [List.map_map]
    rfl
  refine ⟨⟨late.map (measurementRecord secs), now.map (measurementRecord secs), ?_,
    fun record listed => ?_, ⟨?_, fun record listed => ?_⟩, ⟨?_, fun record listed => ?_⟩⟩, ?_⟩
  · rw [all, waits.all, List.map_append]
  · obtain ⟨raw, waiting, _⟩ := List.mem_map.mp listed
    obtain ⟨e, before, _⟩ := waits.ofBefore raw waiting
    rw [number, ← before]
    exact Nat.succ_pos _
  · rw [peers]
    exact waits.lateOnce
  · obtain ⟨raw, waiting, rfl⟩ := List.mem_map.mp listed
    obtain ⟨e, before, answered⟩ := waits.ofBefore raw waiting
    exact ⟨raw, e, by rw [number, ← before]; rfl, rfl, answered.received,
      answered.sent_of_measure measuring⟩
  · rw [peers]
    exact waits.nowOnce
  · obtain ⟨raw, waiting, rfl⟩ := List.mem_map.mp listed
    obtain ⟨answered, _⟩ := waits.ofNow raw waiting
    exact ⟨raw, ⟨m.epochNum⟩, by rw [number], rfl, answered.received,
      answered.sent_of_measure measuring⟩
  · rw [records.peerCount, all, List.length_map]

/-- **Every move keeps the invariant.** -/
theorem Inv.moves (inv : Inv events sent m) (moves : m.Moves event packets m') :
    Inv (events ++ [event]) (sent ++ packets) m' := by
  have flight := InFlight.moves inv.flight moves
  have entries : ∀ entry ∈ m.entries, Twice (events ++ [event]) (sent ++ packets) m'.nodeId entry :=
    fun entry recorded => moves.nodeId ▸ (inv.entries entry recorded).append event packets
  have measured : ∀ peer, ∀ twist ∈ m.held peer,
      Measured (events ++ [event]) (sent ++ packets) m' peer twist :=
    fun peer twist listed => (inv.measured peer twist listed).moves moves
  obtain ⟨late, now, waits⟩ := inv.waits
  cases moves with
  | begin peers idle =>
    exact ⟨flight, inv.increasing, measured,
      ⟨late, now, waits.moves (.begin peers idle) rfl rfl fun ended => by cases ended⟩, entries⟩
  | request t1 measuring listed =>
    exact ⟨flight, inv.increasing, measured,
      ⟨late, now, waits.moves (.request t1 measuring listed) rfl rfl fun ended => by cases ended⟩,
      entries⟩
  | send listenPort sending =>
    exact ⟨flight, inv.increasing, measured,
      ⟨late, now, waits.moves (.send listenPort sending) rfl rfl fun ended => by cases ended⟩,
      entries⟩
  | solve chance beacon measuring records =>
    refine ⟨flight, inv.increasing, measured, ⟨[], [], rfl, .nil, .nil, ?_, ?_, fun _ => rfl⟩,
      fun entry recorded => ?_⟩
    · intro raw waiting
      cases waiting
    · intro raw waiting
      cases waiting
    · rcases List.mem_append.mp recorded with before | new
      · exact entries entry before
      · rw [List.mem_singleton.mp new]
        exact (waits.twice records measuring).append _ _
  | publish solved untimed =>
    exact ⟨flight, inv.increasing, measured,
      ⟨late, now, waits.moves (.publish solved untimed) rfl rfl fun _ => by rw [solved]; rfl⟩,
      entries⟩
  | tick order blindings now' published next =>
    -- What came in since the solve was late.
    obtain rfl := waits.solved (by rw [published]; rfl)
    refine ⟨flight, inv.increasing, measured, ⟨now, [], ?_, waits.nowOnce, .nil,
      fun raw waiting => ?_, ?_, fun ended => by cases ended⟩, entries⟩
    · rw [List.append_nil]
      exact waits.all
    · exact ⟨⟨m.epochNum⟩, next, (waits.ofNow raw waiting).1.moves
        (.tick order blindings now' published next)⟩
    · intro raw waiting
      cases waiting
  | answer =>
    exact ⟨flight, inv.increasing, measured,
      ⟨late, now, waits.moves (.answer _ _ _ _ _ _ _) rfl rfl id⟩, entries⟩
  | accept fromAddr t2 t3 t4 departure answers => exact inv.accept answers
  | ignore fromAddr message arrival departure untimed =>
    exact ⟨flight, inv.increasing, measured,
      ⟨late, now, waits.moves (.ignore fromAddr message arrival departure untimed) rfl rfl id⟩,
      entries⟩

end Measuring

/-! ### Runs -/

open Measuring

section Runs

variable {nodeId : NodeId} {listenPort : UInt16} {epochSecs : F} {words : Vector UInt32 6}
  {events : List (Event F Scalar)} {outputs : List (List (Packet F))} {final : State F}

theorem run_replay (went : Machine.run (State.step curve hGenerator blake3 toLeBytes)
    (.new nodeId listenPort epochSecs words) events = some (outputs, final)) :
    final.measuring.nodeId = nodeId ∧
      Measuring.Inv events outputs.flatten final.measuring :=
  Machine.run_induction
    (fun events outputs d => (State.measuring d).nodeId = nodeId ∧
      Measuring.Inv events (List.flatten outputs) (State.measuring d))
    (fun events outputs d event packets d' ⟨own, inv⟩ goes => by
      have moves := State.step_moves goes
      exact ⟨moves.nodeId.trans own, by simpa using inv.moves moves⟩)
    [] [] ⟨rfl, Measuring.Inv.new nodeId listenPort epochSecs words⟩ went

/-- **A peer is measured at most once an epoch**, whatever comes in: the twists held of it have
increasing epochs, up to the present one, and each is of a response to a request of its epoch. -/
theorem run_history (went : Machine.run (State.step curve hGenerator blake3 toLeBytes)
    (.new nodeId listenPort epochSecs words) events = some (outputs, final)) (peer : NodeId) :
    ((final.node.twistLut.get nodeId peer).getD []).Pairwise
        (fun a b => a.epochMeasured < b.epochMeasured) ∧
      ∀ twist ∈ (final.node.twistLut.get nodeId peer).getD [], ∃ raw epoch,
        raw.peer = peer ∧ twist = storedTwist nodeId raw epoch ∧
        twist.epochMeasured = epoch.number.toNat ∧ epoch.number.toNat ≤ final.epochNum.toNat ∧
        Answered events outputs.flatten final.measuring epoch raw := by
  obtain ⟨own, inv⟩ := run_replay went
  have increasing := inv.increasing peer
  have measured := inv.measured peer
  unfold held at increasing measured
  rw [own] at increasing measured
  refine ⟨increasing, fun twist listed => ?_⟩
  obtain ⟨raw, epoch, ofPeer, made, answered, done⟩ := measured twist listed
  rw [own] at made
  refine ⟨raw, epoch, ofPeer, made, ?_, ?_, answered⟩
  · rw [made, epochMeasured_storedTwist]
  · rcases done with past | ⟨rfl, _⟩
    · exact past.le
    · exact le_rfl

/-- Either part of an entry measures no more peers than the entry. -/
theorem Measuring.Once.length_le {sent : List (Packet F)} {epoch : ℕ}
    {records : List (MeasurementRecord F)} {entry : Layer0Entry F}
    (once : Once events sent nodeId epoch records) (part : records ⊆ entry.measurements) :
    records.length ≤ distinctPeers entry := by
  rw [← List.length_map (f := fun m => m.peer), ← List.toFinset_card_of_nodup once.nodup]
  refine Finset.card_le_card fun peer measured => ?_
  rw [List.mem_toFinset, List.mem_map] at measured ⊢
  obtain ⟨record, listed, isPeer⟩ := measured
  exact ⟨record, part listed, isPeer⟩

end Runs

/-! ### One peer -/

section OnePeer

/-- The peer's answer comes in twice. -/
def replayed : List (Event ℝ (ZMod Layer1Store.groupOrder)) :=
  announce :: (asking 5 ++ [answer 5 ⟨0⟩ 25, answer 5 ⟨0⟩ 26])

/-- An answer that comes in twice is taken in once. -/
theorem run_history_replayed : ∃ outputs final,
    Machine.run (State.step Layer1Store.zeroCurve 3 peerDigests fun _ => List.replicate 8 0) started
      replayed = some (outputs, final) ∧
    ((final.node.twistLut.get (.replicate 0) peer).getD []).length = 1 ∧
    ∀ twist ∈ (final.node.twistLut.get (.replicate 0) peer).getD [], ∃ raw epoch,
      raw.peer = peer ∧ twist = storedTwist (.replicate 0) raw epoch ∧
      twist.epochMeasured = epoch.number.toNat ∧ epoch.number.toNat ≤ final.epochNum.toNat ∧
      Answered replayed outputs.flatten final.measuring epoch raw := by
  have flight : (asked acquainted 5).node.answersPending peer 5 ⟨0⟩ = true :=
    answersPending_iff.mpr Std.ExtTreeMap.getElem?_insert_self
  let once : State ℝ := { asked acquainted 5 with
    node := (asked acquainted 5).node.handleTimeResponse peerAddr peer 5 15 16 ⟨0⟩ 25 }
  have accepted : once.node = { (asked acquainted 5).node with
      pendingT1 := (asked acquainted 5).node.pendingT1.erase peer
      twistLut := TwistLUT.new.insert (.replicate 0) peer
        (NodeState.responseTwist 5 15 16 25 ⟨0⟩)
      rawExchanges := [⟨peer, 5, 15, 16, 25⟩] } := by
    show (asked acquainted 5).node.handleTimeResponse peerAddr peer 5 15 16 ⟨0⟩ 25 = _
    unfold NodeState.handleTimeResponse NodeState.register
    rw [if_pos flight]
    dsimp only
    rw [if_pos (show (asked acquainted 5).node.peers.contains peer = true from
      Std.ExtTreeMap.contains_insert_self)]
    rfl
  have again : once.step Layer1Store.zeroCurve 3 peerDigests (fun _ => List.replicate 8 0)
      (answer 5 ⟨0⟩ 26) = some ([], once) := by
    have none : once.node.answersPending peer 5 ⟨0⟩ = false := by
      rw [Bool.eq_false_iff, Ne, answersPending_iff, accepted, Std.ExtTreeMap.getElem?_erase_self]
      exact fun found => by cases found
    have same : once.node.handleTimeResponse peerAddr peer 5 15 16 ⟨0⟩ 26 = once.node := by
      unfold NodeState.handleTimeResponse
      rw [if_neg (by rw [none]; decide)]
    show some ([], { once with
      node := once.node.handleTimeResponse peerAddr peer 5 15 16 ⟨0⟩ 26 }) = _
    rw [same]
  obtain ⟨outs, ran⟩ := run_asking Layer1Store.zeroCurve 3 peerDigests (fun _ => List.replicate 8 0)
    (show acquainted.stage = .begin from rfl) rfl 5
  have rest : Machine.run (State.step Layer1Store.zeroCurve 3 peerDigests
      fun _ => List.replicate 8 0) (asked acquainted 5) [answer 5 ⟨0⟩ 25, answer 5 ⟨0⟩ 26] =
      some ([[], []], once) := by
    have taken : (asked acquainted 5).step Layer1Store.zeroCurve 3 peerDigests
        (fun _ => List.replicate 8 0) (answer 5 ⟨0⟩ 25) = some ([], once) := rfl
    rw [Machine.run_cons taken, Machine.run_cons again]
    rfl
  have went := (Machine.run_cons (step_announce Layer1Store.zeroCurve 3 peerDigests
    fun _ => List.replicate 8 0)).trans (congrArg (Option.map _) (Machine.run_append ran rest))
  refine ⟨_, once, went, ?_, (run_history went peer).2⟩
  rw [accepted]
  show (((TwistLUT.new.insert (.replicate 0) peer _).get (.replicate 0) peer).getD []).length = 1
  rw [TwistLUT.get_insert, if_pos rfl, TwistLUT.get_new]
  rfl

end OnePeer

end Rtfsn.Daemon
