/-
Which epoch a measurement counts for.

* `Attributed`: an entry measures each peer once, each by the answer to a request sent in the
  entry's own epoch, and counts its distinct peers.
* `Inv`, `Inv.step`: what every step of the two tasks keeps, as long as it is `Timely`.
* `run_attributed`: in a run of timely steps every entry is attributed and every beacon published
  claims its entry's distinct peers.
* `run_late_response`: a response that comes in after the solve is counted in the next epoch.
-/
import Rtfsn.Daemon.EpochLoop
import Rtfsn.Lib.Machine
import Rtfsn.Lib.Maps

set_option linter.unusedSectionVars false

namespace Rtfsn.Daemon

variable {F Point Scalar : Type} [F64Coord F] [AddCommGroup Point] [CommRing Scalar]
  [Module Scalar Point] [DecidableEq Point] {curve : Ristretto Point Scalar} {hGenerator : Point}
  {blake3 : List UInt8 → Bytes32} {toLeBytes : F → List UInt8}

/-- The peers an entry measured, each once. -/
def distinctPeers (entry : Layer0Entry F) : ℕ :=
  (entry.measurements.map fun m => m.peer).toFinset.card

/-- The exchange came in as a response of `epoch`. -/
def Received (events : List (Event F Scalar)) (epoch : Epoch) (raw : RawExchange) : Prop :=
  ∃ fromAddr departure, Event.receive fromAddr
    (.timeResponse raw.peer raw.t1 raw.t2 raw.t3 epoch) raw.t4 departure ∈ events

/-- A request of `epoch` went out to `peer`. -/
def Sent (sent : List (Packet F)) (nodeId : NodeId) (epoch : Epoch) (peer : NodeId) (t1 : UInt64) :
    Prop :=
  ∃ addr, (⟨peer, addr, .timeRequest nodeId t1 epoch⟩ : Packet F) ∈ sent

/-- The entry measures each peer once, by the answer to a request sent in the entry's epoch, and
counts its peers. -/
structure Attributed (events : List (Event F Scalar)) (sent : List (Packet F))
    (entry : Layer0Entry F) : Prop where
  nodup : (entry.measurements.map fun m => m.peer).Nodup
  answers : ∀ m ∈ entry.measurements, ∃ raw : RawExchange, m = measurementRecord m.localTime raw ∧
    Received events entry.epoch raw ∧ Sent sent entry.nodeId entry.epoch m.peer raw.t1
  count : entry.solve.peerCount = distinctPeers entry

/-- The beacon of `epoch` claims the peers that the epoch's entry measured. -/
def Claims (entries : List (Layer0Entry F)) (epoch : Epoch) (beacon : Layer1Beacon F) : Prop :=
  ∃ entry ∈ entries, entry.epoch = epoch ∧ beacon.epoch = epoch ∧
    beacon.peerCount.toNat = distinctPeers entry ∧
    ∀ proof, beacon.proofOfPeerCount = some proof →
      proof.claimedCount.toNat = distinctPeers entry

/-! ### Timely steps -/

namespace Stage

/-- Between the solve of an epoch and its tick. -/
def solved : Stage F → Bool
  | .publish _ => true
  | .tick => true
  | _ => false

def measuring : Stage F → Bool
  | .measure _ => true
  | .send .. => true
  | _ => false

/-- The peers still to ask. -/
def todo : Stage F → Std.ExtTreeMap NodeId SocketAddr
  | .measure todo => todo
  | .send _ _ _ todo => todo
  | _ => ∅

end Stage

/-- No response to a request in flight comes in between the solve and the tick, and the exchanges
of an epoch can be counted in a `u32`. -/
def Timely (d : State F) : Event F Scalar → Prop
  | .receive _ (.timeResponse sender t1 _ _ epoch) _ _ =>
    d.stage.solved = true → d.node.answersPending sender t1 epoch = false
  | .solve _ => d.node.rawExchanges.length < 2 ^ 32
  | _ => True

/-! ### The invariant -/

/-- A request of the present epoch went out to `peer`, or is about to. -/
def Requested (sent : List (Packet F)) (d : State F) (peer : NodeId) (t1 : UInt64) : Prop :=
  Sent sent d.node.nodeId d.epoch peer t1 ∨ ∃ addr todo, d.stage = .send peer addr t1 todo

/-- What holds between any two steps. -/
structure Inv (events : List (Event F Scalar)) (sent : List (Packet F)) (d : State F) : Prop where
  sameNode : d.node.l0Store.nodeId = d.node.nodeId
  attributed : ∀ entry ∈ d.node.l0Store.entries, Attributed events sent entry
  past : ∀ entry ∈ d.node.l0Store.entries,
    entry.epoch.number.toNat < d.epochNum.toNat + d.stage.solved.toNat
  /-- Requests in flight are of this epoch, and to peers no longer to ask. -/
  pending : ∀ peer request, d.node.pendingT1[peer]? = some request →
    request.2 = d.epochNum ∧ Requested sent d peer request.1 ∧ d.stage.todo[peer]? = none ∧
      d.stage ≠ .begin
  nodup : (d.node.rawExchanges.map fun raw => raw.peer).Nodup
  /-- Exchanges wait for a solve while measuring only; their peers are neither to ask nor asked. -/
  raw : ∀ raw ∈ d.node.rawExchanges, Received events d.epoch raw ∧
    Requested sent d raw.peer raw.t1 ∧ d.node.pendingT1[raw.peer]? = none ∧
      d.stage.todo[raw.peer]? = none ∧ d.stage.measuring = true
  unpublished : ∀ beacon, d.stage = .publish (some beacon) →
    Claims d.node.l0Store.entries d.epoch beacon
  published : ∀ packet ∈ sent, ∀ beacon epoch, packet.message = .beacon beacon epoch →
    Claims d.node.l0Store.entries epoch beacon

variable {events : List (Event F Scalar)} {event : Event F Scalar} {sent packets : List (Packet F)}
  {d d' : State F}

theorem Received.append {epoch : Epoch} {raw : RawExchange} (received : Received events epoch raw)
    (event : Event F Scalar) : Received (events ++ [event]) epoch raw := by
  obtain ⟨fromAddr, departure, came⟩ := received
  exact ⟨fromAddr, departure, List.mem_append_left _ came⟩

theorem Sent.append {nodeId peer : NodeId} {epoch : Epoch} {t1 : UInt64}
    (out : Sent sent nodeId epoch peer t1) (packets : List (Packet F)) :
    Sent (sent ++ packets) nodeId epoch peer t1 := by
  obtain ⟨addr, packet⟩ := out
  exact ⟨addr, List.mem_append_left _ packet⟩

theorem Attributed.append {entry : Layer0Entry F} (attributed : Attributed events sent entry)
    (event : Event F Scalar) (packets : List (Packet F)) :
    Attributed (events ++ [event]) (sent ++ packets) entry where
  nodup := attributed.nodup
  answers m measured := by
    obtain ⟨raw, made, received, out⟩ := attributed.answers m measured
    exact ⟨raw, made, received.append event, out.append packets⟩
  count := attributed.count

theorem Inv.new (nodeId : NodeId) (listenPort : UInt16) (epochSecs : F)
    (words : Vector UInt32 6) :
    Inv ([] : List (Event F Scalar)) [] (State.new nodeId listenPort epochSecs words) where
  sameNode := rfl
  attributed entry recorded := by cases recorded
  past entry recorded := by cases recorded
  pending peer request found := by simp [State.new, NodeState.new] at found
  nodup := List.nodup_nil
  raw raw waiting := by cases waiting
  unpublished beacon stage := by cases stage
  published packet out := by cases out

/-- **A step that leaves requests, exchanges and entries alone** keeps the invariant, when it sends
no beacon. -/
theorem Inv.frame (inv : Inv events sent d) {node : NodeState F}
    (nodeId : node.nodeId = d.node.nodeId) (l0Store : node.l0Store = d.node.l0Store)
    (pendingT1 : node.pendingT1 = d.node.pendingT1)
    (rawExchanges : node.rawExchanges = d.node.rawExchanges)
    (noBeacon : ∀ packet ∈ packets, ∀ beacon epoch, packet.message ≠ .beacon beacon epoch) :
    Inv (events ++ [event]) (sent ++ packets) { d with node := node } where
  sameNode := by
    show node.l0Store.nodeId = node.nodeId
    rw [l0Store, nodeId, inv.sameNode]
  attributed entry recorded := (inv.attributed entry (l0Store ▸ recorded)).append event packets
  past entry recorded := inv.past entry (l0Store ▸ recorded)
  pending peer request found := by
    obtain ⟨ofEpoch, requested, asked, busy⟩ := inv.pending peer request (pendingT1 ▸ found)
    refine ⟨ofEpoch, requested.imp_left fun out => ?_, asked, busy⟩
    show Sent _ node.nodeId _ _ _
    rw [nodeId]
    exact out.append packets
  nodup := by
    show (node.rawExchanges.map _).Nodup
    rw [rawExchanges]
    exact inv.nodup
  raw raw waiting := by
    obtain ⟨received, requested, done, asked, measuring⟩ := inv.raw raw (rawExchanges ▸ waiting)
    refine ⟨received.append event, requested.imp_left fun out => ?_, ?_, asked, measuring⟩
    · show Sent _ node.nodeId _ _ _
      rw [nodeId]
      exact out.append packets
    · show node.pendingT1[raw.peer]? = none
      rw [pendingT1, done]
  unpublished beacon stage := by
    show Claims node.l0Store.entries _ _
    rw [l0Store]
    exact inv.unpublished beacon stage
  published packet out beacon epoch carried := by
    show Claims node.l0Store.entries _ _
    rw [l0Store]
    rcases List.mem_append.mp out with before | now
    · exact inv.published packet before beacon epoch carried
    · exact absurd carried (noBeacon packet now beacon epoch)

theorem Requested.sent_of_idle {peer : NodeId} {t1 : UInt64} (requested : Requested sent d peer t1)
    (idle : ∀ addr todo, d.stage ≠ .send peer addr t1 todo) :
    Sent sent d.node.nodeId d.epoch peer t1 := by
  refine requested.resolve_right ?_
  rintro ⟨addr, todo, sending⟩
  exact idle addr todo sending

/-- Outside the measure phase no exchange waits. -/
theorem Inv.none_waits (inv : Inv events sent d) (idle : d.stage.measuring = false) :
    ∀ raw, raw ∉ d.node.rawExchanges := by
  intro raw waiting
  have measuring := (inv.raw raw waiting).2.2.2.2
  rw [idle] at measuring
  cases measuring

/-! ### The measure phase -/

theorem Inv.begin (inv : Inv events sent d) (goes : d.step curve hGenerator blake3 toLeBytes
    (.begin : Event F Scalar) = some (packets, d')) :
    Inv (events ++ [.begin]) (sent ++ packets) d' := by
  obtain ⟨stage, rfl, rfl⟩ := State.begin_iff.mp goes
  rw [List.append_nil]
  exact {
    sameNode := inv.sameNode
    attributed := fun entry recorded => by
      simpa using (inv.attributed entry recorded).append .begin []
    past := fun entry recorded => by
      have before := inv.past entry recorded
      rwa [stage] at before
    -- At the top of the loop nothing is in flight and nothing waits.
    pending := fun peer request found => absurd stage (inv.pending peer request found).2.2.2
    nodup := inv.nodup
    raw := fun raw waiting => absurd waiting (inv.none_waits (by rw [stage]; rfl) raw)
    unpublished := fun beacon published => by cases published
    published := inv.published }

theorem Inv.request {peer : NodeId} {t1 : UInt64} (inv : Inv events sent d)
    (goes : d.step curve hGenerator blake3 toLeBytes (.request peer t1 : Event F Scalar) =
      some (packets, d')) :
    Inv (events ++ [.request peer t1]) (sent ++ packets) d' := by
  obtain ⟨todo, addr, stage, listed, rfl, rfl⟩ := State.request_iff.mp goes
  rw [List.append_nil]
  exact {
    sameNode := inv.sameNode
    attributed := fun entry recorded => by
      simpa using (inv.attributed entry recorded).append (.request peer t1) []
    past := fun entry recorded => by
      have before := inv.past entry recorded
      rwa [stage] at before
    pending := fun other request found => by
      by_cases same : peer = other
      · subst same
        rw [Std.ExtTreeMap.getElem?_insert_self] at found
        cases found
        exact ⟨rfl, Or.inr ⟨addr, _, rfl⟩, Std.ExtTreeMap.getElem?_erase_self, by simp⟩
      · rw [Maps.getElem?_insert_of_ne same] at found
        obtain ⟨ofEpoch, requested, asked, _⟩ := inv.pending other request found
        rw [stage] at asked
        exact ⟨ofEpoch, Or.inl (requested.sent_of_idle fun _ _ => by simp [stage]),
          Maps.getElem?_erase_of_none asked peer, by simp⟩
    nodup := inv.nodup
    raw := fun raw waiting => by
      obtain ⟨received, requested, done, asked, _⟩ := inv.raw raw waiting
      rw [stage] at asked
      have other : peer ≠ raw.peer := by
        intro same
        rw [same, show todo[raw.peer]? = none from asked] at listed
        cases listed
      refine ⟨received.append _, Or.inl (requested.sent_of_idle fun _ _ => by simp [stage]), ?_,
        Maps.getElem?_erase_of_none asked peer, rfl⟩
      rw [Maps.getElem?_insert_of_ne other, done]
    unpublished := fun beacon published => by cases published
    published := inv.published }

theorem Inv.send (inv : Inv events sent d) (goes : d.step curve hGenerator blake3 toLeBytes
    (.send : Event F Scalar) = some (packets, d')) :
    Inv (events ++ [.send]) (sent ++ packets) d' := by
  obtain ⟨peer, addr, t1, todo, stage, rfl, rfl⟩ := State.send_iff.mp goes
  -- What was about to be sent has been sent.
  have out : ∀ {other now}, Requested sent d other now → Sent (sent ++
      [⟨peer, addr, .timeRequest d.node.nodeId t1 d.epoch⟩,
        ⟨peer, addr, .peerAnnounce d.node.nodeId d.node.listenPort⟩]) d.node.nodeId d.epoch other
      now := by
    rintro other now (before | ⟨addr', todo', sending⟩)
    · exact before.append _
    · rw [stage] at sending
      cases sending
      exact ⟨addr, by simp⟩
  exact {
    sameNode := inv.sameNode
    attributed := fun entry recorded => (inv.attributed entry recorded).append .send _
    past := fun entry recorded => by
      have before := inv.past entry recorded
      rwa [stage] at before
    pending := fun other request found => by
      obtain ⟨ofEpoch, requested, asked, _⟩ := inv.pending other request found
      rw [stage] at asked
      exact ⟨ofEpoch, Or.inl (out requested), asked, by simp⟩
    nodup := inv.nodup
    raw := fun raw waiting => by
      obtain ⟨received, requested, done, asked, _⟩ := inv.raw raw waiting
      rw [stage] at asked
      exact ⟨received.append _, Or.inl (out requested), done, asked, rfl⟩
    unpublished := fun beacon published => by cases published
    published := fun packet going beacon epoch carried => by
      rcases List.mem_append.mp going with before | now
      · exact inv.published packet before beacon epoch carried
      · simp only [List.mem_cons, List.not_mem_nil, or_false] at now
        rcases now with rfl | rfl <;> cases carried }

/-! ### Solve, publish, tick -/

/-- **The entry of an epoch is attributed**, when all its peers have been asked. -/
theorem Inv.entry (inv : Inv events sent d) {todo : Std.ExtTreeMap NodeId SocketAddr}
    (stage : d.stage = .measure todo) {chance : Chance F Scalar} {entry : Layer0Entry F}
    (records : d.node.Records d.epoch chance entry) : Attributed events sent entry := by
  have peers : (entry.measurements.map fun m => m.peer) =
      d.node.rawExchanges.map fun raw => raw.peer := by
    rw [records.measurements, List.map_map]
    rfl
  refine ⟨peers ▸ inv.nodup, fun m measured => ?_, ?_⟩
  · rw [records.measurements] at measured
    obtain ⟨raw, waiting, rfl⟩ := List.mem_map.mp measured
    obtain ⟨received, requested, _⟩ := inv.raw raw waiting
    rw [records.ofEpoch, records.nodeId, inv.sameNode]
    exact ⟨raw, rfl, received, requested.sent_of_idle fun _ _ => by simp [stage]⟩
  · unfold distinctPeers
    rw [peers, List.toFinset_card_of_nodup inv.nodup, List.length_map, records.peerCount]

variable (curve blake3) in
/-- A beacon claims what its entry counts. -/
theorem claims_beaconOfEntry {entries : List (Layer0Entry F)} {entry : Layer0Entry F}
    {epoch : Epoch} (recorded : entry ∈ entries) (ofEpoch : entry.epoch = epoch)
    (count : entry.solve.peerCount = distinctPeers entry)
    (few : entry.solve.peerCount < 2 ^ 32) (secret : BlindingSecret Scalar) (k1 k2 : Scalar) :
    Claims entries epoch (beaconOfEntry curve blake3 entry epoch secret k1 k2) := by
  have fits : (UInt32.ofNat entry.solve.peerCount).toNat = distinctPeers entry := by
    rw [UInt32.toNat_ofNat', Nat.mod_eq_of_lt few, count]
  refine ⟨entry, recorded, ofEpoch, rfl, fits, fun proof carried => ?_⟩
  simp only [beaconOfEntry, Option.ite_none_right_eq_some, Option.some.injEq] at carried
  rw [← carried.2]
  exact fits

theorem Inv.solve {chance : Chance F Scalar} (inv : Inv events sent d)
    (few : d.node.rawExchanges.length < 2 ^ 32)
    (goes : d.step curve hGenerator blake3 toLeBytes (.solve chance) = some (packets, d')) :
    Inv (events ++ [.solve chance]) (sent ++ packets) d' := by
  obtain ⟨todo, stage, _, rfl, rfl⟩ := State.solve_iff.mp goes
  obtain ⟨entry, records, store⟩ := d.node.solveAndAdvance_records d.epoch chance
  have before : ∀ e ∈ d.node.l0Store.entries, e.epoch.number.toNat < d.epochNum.toNat := by
    intro e recorded
    have past := inv.past e recorded
    rwa [stage] at past
  have fresh : ∀ e ∈ d.node.l0Store.entries, e.epoch ≠ entry.epoch := by
    intro e recorded same
    have past := before e recorded
    rw [same, records.ofEpoch] at past
    exact lt_irrefl _ past
  have attributed := inv.entry stage records
  have found : (d.node.solveAndAdvance d.epoch chance).2.l0Store.getEpoch d.epoch = some entry := by
    rw [store, ← records.ofEpoch]
    exact Layer0Store.getEpoch_of_fresh fresh
  obtain ⟨beacon, ⟨secret, k1, k2, made⟩, built⟩ :=
    NodeState.buildAndPublishBeacon_of_entry curve blake3 found chance
  rw [built, List.append_nil]
  have entries : (d.node.solveAndAdvance d.epoch chance).2.l0Store.entries =
      d.node.l0Store.entries ++ [entry] := by
    rw [store]
  exact {
    sameNode := by
      show (d.node.solveAndAdvance d.epoch chance).2.l0Store.nodeId = d.node.nodeId
      rw [store]
      exact inv.sameNode
    attributed := fun e recorded => by
      rw [entries, List.mem_append, List.mem_singleton] at recorded
      rcases recorded with old | rfl
      · simpa using (inv.attributed e old).append (.solve chance) []
      · simpa using attributed.append (.solve chance) []
    past := fun e recorded => by
      rw [entries, List.mem_append, List.mem_singleton] at recorded
      show e.epoch.number.toNat < d.epochNum.toNat + 1
      rcases recorded with old | rfl
      · exact Nat.lt_succ_of_lt (before e old)
      · rw [records.ofEpoch]
        exact Nat.lt_succ_self _
    pending := fun peer request found => by
      obtain ⟨ofEpoch, requested, _⟩ := inv.pending peer request found
      exact ⟨ofEpoch, Or.inl (requested.sent_of_idle fun _ _ => by simp [stage]),
        by simp [Stage.todo], by simp⟩
    nodup := List.nodup_nil
    raw := fun raw waiting => by cases waiting
    unpublished := fun b waiting => by
      cases waiting
      rw [made]
      exact claims_beaconOfEntry curve blake3
        (entries ▸ List.mem_append_right _ (List.mem_singleton_self _)) records.ofEpoch
        attributed.count (records.peerCount ▸ few) secret k1 k2
    published := fun packet out b epoch carried => by
      obtain ⟨e, recorded, claimed⟩ := inv.published packet out b epoch carried
      exact ⟨e, entries ▸ List.mem_append_left _ recorded, claimed⟩ }

theorem Inv.publish (inv : Inv events sent d) (goes : d.step curve hGenerator blake3 toLeBytes
    (.publish : Event F Scalar) = some (packets, d')) :
    Inv (events ++ [.publish]) (sent ++ packets) d' := by
  obtain ⟨beacon, stage, rfl, rfl⟩ := State.publish_iff.mp goes
  exact {
    sameNode := inv.sameNode
    attributed := fun entry recorded => (inv.attributed entry recorded).append .publish _
    past := fun entry recorded => by
      have before := inv.past entry recorded
      rwa [stage] at before
    pending := fun peer request found => by
      obtain ⟨ofEpoch, requested, _⟩ := inv.pending peer request found
      exact ⟨ofEpoch, Or.inl ((requested.sent_of_idle fun _ _ => by simp [stage]).append _),
        by simp [Stage.todo], by simp⟩
    nodup := inv.nodup
    raw := fun raw waiting => absurd waiting (inv.none_waits (by rw [stage]; rfl) raw)
    unpublished := fun b waiting => by cases waiting
    published := fun packet out b epoch carried => by
      rcases List.mem_append.mp out with before | now
      · exact inv.published packet before b epoch carried
      · cases beacon with
        | none => cases now
        | some b' =>
          obtain ⟨p, _, rfl⟩ := List.mem_map.mp now
          cases carried
          exact inv.unpublished b stage }

theorem Inv.tick {order : HashOrder (List ℤ)} {blindings : List ℤ → Scalar × Scalar}
    {now : UInt64} (inv : Inv events sent d)
    (goes : d.step curve hGenerator blake3 toLeBytes (.tick order blindings now) =
      some (packets, d')) :
    Inv (events ++ [.tick order blindings now]) (sent ++ packets) d' := by
  obtain ⟨node, epochNum, stage, ticked, count, rfl, rfl⟩ := State.tick_iff.mp goes
  obtain ⟨l2Aggregator, clockStream, rfl⟩ := NodeState.runGeoidAndEmitTick_eq ticked
  rw [List.append_nil]
  exact {
    sameNode := inv.sameNode
    attributed := fun entry recorded => by
      simpa using (inv.attributed entry recorded).append (.tick order blindings now) []
    past := fun entry recorded => by
      have before := inv.past entry recorded
      rw [stage] at before
      show entry.epoch.number.toNat < epochNum.toNat + 0
      rw [← count]
      exact before
    -- All that is in flight is of this epoch, and goes.
    pending := fun peer request found => by
      simp only [State.retainPending, Std.ExtTreeMap.getElem?_filter', Option.filter_eq_some_iff,
        decide_eq_true_eq] at found
      exact absurd (inv.pending peer request found.1).1 found.2
    nodup := inv.nodup
    raw := fun raw waiting => absurd waiting (inv.none_waits (by rw [stage]; rfl) raw)
    unpublished := fun b waiting => by cases waiting
    published := inv.published }

/-! ### Responses -/

theorem answersPending_iff {node : NodeState F} {sender : NodeId} {t1 : UInt64} {epoch : Epoch} :
    node.answersPending sender t1 epoch = true ↔
      node.pendingT1[sender]? = some (t1, epoch.number) := by
  unfold NodeState.answersPending
  cases node.pendingT1[sender]? with
  | none => simp
  | some request =>
    obtain ⟨storedT1, storedEpoch⟩ := request
    simp

/-- **A response that is accepted while measuring** is the first of its peer in this epoch. -/
theorem Inv.respond {fromAddr : SocketAddr} {sender : NodeId} {t1 t2 t3 t4 departure : UInt64}
    {epoch : Epoch} (inv : Inv events sent d)
    (answers : d.node.answersPending sender t1 epoch = true) (early : d.stage.solved = false) :
    Inv (events ++ [.receive fromAddr (.timeResponse sender t1 t2 t3 epoch) t4 departure]) sent
      { d with node := d.node.handleTimeResponse fromAddr sender t1 t2 t3 epoch t4 } := by
  have flight := answersPending_iff.mp answers
  obtain ⟨ofEpoch, requested, asked, busy⟩ := inv.pending sender _ flight
  have measuring : d.stage.measuring = true := by
    cases stage : d.stage with
    | begin => exact absurd stage busy
    | measure todo => rfl
    | send peer addr t1 todo => rfl
    | publish beacon =>
      rw [stage] at early
      cases early
    | tick =>
      rw [stage] at early
      cases early
  have other : ∀ raw ∈ d.node.rawExchanges, raw.peer ≠ sender := by
    intro raw waiting same
    have done := (inv.raw raw waiting).2.2.1
    rw [same, flight] at done
    cases done
  obtain rfl : epoch = d.epoch := congrArg Epoch.mk ofEpoch
  unfold NodeState.handleTimeResponse
  rw [if_pos answers]
  exact {
    sameNode := inv.sameNode
    attributed := fun entry recorded => by
      simpa using (inv.attributed entry recorded).append
        (.receive fromAddr (.timeResponse sender t1 t2 t3 d.epoch) t4 departure) []
    past := inv.past
    pending := fun peer request found => by
      refine inv.pending peer request ?_
      have kept : (d.node.pendingT1.erase sender)[peer]? = some request := found
      rw [Std.ExtTreeMap.getElem?_erase] at kept
      exact (Option.ite_none_left_eq_some.mp kept).2
    nodup := by
      show ((d.node.rawExchanges ++ [RawExchange.mk sender t1 t2 t3 t4]).map
        fun raw => raw.peer).Nodup
      rw [List.map_append, List.nodup_append]
      refine ⟨inv.nodup, List.nodup_singleton _, fun peer before peer' now => ?_⟩
      obtain ⟨raw, waiting, rfl⟩ := List.mem_map.mp before
      rw [List.mem_singleton.mp now]
      exact other raw waiting
    raw := fun raw waiting => by
      rcases List.mem_append.mp waiting with before | now
      · obtain ⟨received, requested, done, asked, measuring⟩ := inv.raw raw before
        exact ⟨received.append _, requested, Maps.getElem?_erase_of_none done sender, asked,
          measuring⟩
      · rw [List.mem_singleton.mp now]
        exact ⟨⟨fromAddr, departure, List.mem_append_right _ (List.mem_singleton_self _)⟩,
          requested, Std.ExtTreeMap.getElem?_erase_self, asked, measuring⟩
    unpublished := inv.unpublished
    published := inv.published }

theorem Inv.receive {fromAddr : SocketAddr} {message : ProtocolMessage F}
    {arrival departure : UInt64} (inv : Inv events sent d)
    (timely : Timely d (.receive fromAddr message arrival departure : Event F Scalar))
    (goes : d.step curve hGenerator blake3 toLeBytes
      (.receive fromAddr message arrival departure : Event F Scalar) = some (packets, d')) :
    Inv (events ++ [.receive fromAddr message arrival departure]) (sent ++ packets) d' := by
  cases goes
  have noBeacon := d.node.handleMessage_no_beacon curve blake3 fromAddr message arrival departure
  cases message with
  | peerAnnounce nodeId listenPort => exact inv.frame rfl rfl rfl rfl noBeacon
  | timeRequest sender t1 epoch => exact inv.frame rfl rfl rfl rfl noBeacon
  | beacon data epoch => exact inv.frame rfl rfl rfl rfl noBeacon
  | other => exact inv.frame rfl rfl rfl rfl noBeacon
  | timeResponse sender t1 t2 t3 epoch =>
    by_cases answers : d.node.answersPending sender t1 epoch = true
    · have early : d.stage.solved = false := by
        by_contra late
        rw [Bool.not_eq_false] at late
        rw [timely late] at answers
        cases answers
      show Inv _ (sent ++ []) _
      rw [List.append_nil]
      exact inv.respond answers early
    · have refused : d.node.handleTimeResponse fromAddr sender t1 t2 t3 epoch arrival = d.node := by
        unfold NodeState.handleTimeResponse
        rw [if_neg answers]
      exact inv.frame (congrArg NodeState.nodeId refused) (congrArg NodeState.l0Store refused)
        (congrArg NodeState.pendingT1 refused) (congrArg NodeState.rawExchanges refused) noBeacon

/-- **Every timely step keeps the invariant.** -/
theorem Inv.step (inv : Inv events sent d) (timely : Timely d event)
    (goes : d.step curve hGenerator blake3 toLeBytes event = some (packets, d')) :
    Inv (events ++ [event]) (sent ++ packets) d' := by
  cases event with
  | begin => exact inv.begin goes
  | request peer t1 => exact inv.request goes
  | send => exact inv.send goes
  | solve chance => exact inv.solve timely goes
  | publish => exact inv.publish goes
  | tick order blindings now => exact inv.tick goes
  | receive fromAddr message arrival departure => exact inv.receive timely goes

/-! ### Runs -/

/-- **Measurements count for the epoch they were asked in.** In a run of timely steps every entry
measures each peer once, by the answer to a request of its own epoch, and counts its distinct peers;
and every beacon published claims that number. -/
theorem run_attributed {nodeId : NodeId} {listenPort : UInt16} {epochSecs : F}
    {words : Vector UInt32 6} {events : List (Event F Scalar)} {outputs : List (List (Packet F))}
    {final : State F}
    (timely : Machine.Along (State.step curve hGenerator blake3 toLeBytes) Timely
      (.new nodeId listenPort epochSecs words) events)
    (went : Machine.run (State.step curve hGenerator blake3 toLeBytes)
      (.new nodeId listenPort epochSecs words) events = some (outputs, final)) :
    (∀ entry ∈ final.node.l0Store.entries, Attributed events outputs.flatten entry) ∧
      ∀ packet ∈ outputs.flatten, ∀ beacon epoch, packet.message = .beacon beacon epoch →
        Claims final.node.l0Store.entries epoch beacon := by
  have inv := Machine.run_induction_along
    (fun events outputs d => Inv events (List.flatten outputs) d)
    (fun events outputs d event packets d' inv timely goes => by
      simpa using Inv.step inv timely goes)
    [] [] (Inv.new nodeId listenPort epochSecs words) timely went
  exact ⟨inv.attributed, inv.published⟩

/-! ### One peer -/

section OnePeer

variable (curve hGenerator blake3) (toLeBytes : ℝ → List UInt8) {d : State ℝ}

def peer : NodeId := .replicate 1

def peerAddr : SocketAddr := ⟨[192, 168, 1, 100], 4242⟩

/-- A daemon that has just started. -/
noncomputable def started : State ℝ := .new (.replicate 0) 4242 30 (Vector.replicate 6 0)

/-- The peer announces itself. -/
def announce : Event ℝ Scalar := .receive peerAddr (.peerAnnounce peer 4242) 0 0

/-- An epoch's request to the peer. -/
def asking (t1 : UInt64) : List (Event ℝ Scalar) := [.begin, .request peer t1, .send]

/-- The peer's answer, which comes in at `t4`. -/
def answer (t1 : UInt64) (epoch : Epoch) (t4 : UInt64) : Event ℝ Scalar :=
  .receive peerAddr (.timeResponse peer t1 (t1 + 10) (t1 + 11) epoch) t4 t4

def chance : Chance ℝ Scalar where
  currentSecs := 20
  lutOrder := .asListed
  nodeOrder := .asListed
  edgeOrder := .asListed
  coordinateWords _ := Vector.replicate 6 0
  blindingFactor := 0
  k1 := 0
  k2 := 0

/-- The daemon knows the peer, and no one else. -/
def Alone (d : State ℝ) : Prop := d.node.peers = (∅ : Std.ExtTreeMap _ _).insert peer peerAddr

/-- The daemon that has begun to measure. -/
def begun (d : State ℝ) : State ℝ :=
  { d with
    node := { d.node with currentEpoch := d.epochNum }
    stage := .measure d.node.peers }

/-- The daemon that has asked its peer. -/
def asked (d : State ℝ) (t1 : UInt64) : State ℝ :=
  { d with
    node := { d.node with
      currentEpoch := d.epochNum
      pendingT1 := d.node.pendingT1.insert peer (t1, d.epochNum) }
    stage := .measure (d.node.peers.erase peer) }

/-- The daemon that is about to ask its peer. -/
def noted (d : State ℝ) (t1 : UInt64) : State ℝ :=
  { asked d t1 with stage := .send peer peerAddr t1 (d.node.peers.erase peer) }

theorem run_asking (stage : d.stage = .begin) (alone : Alone d) (t1 : UInt64) : ∃ outs,
    Machine.run (State.step curve hGenerator blake3 toLeBytes) d (asking t1) =
      some (outs, asked d t1) := by
  have listed : d.node.peers[peer]? = some peerAddr := by
    rw [alone]
    exact Std.ExtTreeMap.getElem?_insert_self
  have first : d.step curve hGenerator blake3 toLeBytes .begin = some ([], begun d) :=
    State.begin_iff.mpr ⟨stage, rfl, rfl⟩
  have second : (begun d).step curve hGenerator blake3 toLeBytes (.request peer t1) =
      some ([], noted d t1) :=
    (State.request_iff (d := begun d)).mpr ⟨d.node.peers, peerAddr, rfl, listed, rfl, rfl⟩
  have third : (noted d t1).step curve hGenerator blake3 toLeBytes .send =
      some (_, asked d t1) :=
    (State.send_iff (d := noted d t1)).mpr
      ⟨peer, peerAddr, t1, d.node.peers.erase peer, rfl, rfl, rfl⟩
  unfold asking
  rw [Machine.run_cons first, Machine.run_cons second, Machine.run_cons third]
  exact ⟨_, rfl⟩

/-- The answer to the request in flight is taken in. -/
theorem step_answer {t1 : UInt64} {epoch : Epoch} (alone : Alone d)
    (flight : d.node.pendingT1[peer]? = some (t1, epoch.number)) (t4 : UInt64) :
    ∃ node : NodeState ℝ,
    d.step curve hGenerator blake3 toLeBytes (answer t1 epoch t4) =
      some ([], { d with node := node }) ∧
    node.peers = d.node.peers ∧ node.l1Store = d.node.l1Store ∧
    node.l2Aggregator = d.node.l2Aggregator ∧ node.clockStream = d.node.clockStream ∧
    node.rawExchanges = d.node.rawExchanges ++ [⟨peer, t1, t1 + 10, t1 + 11, t4⟩] := by
  have known : d.node.peers.contains peer = true := by
    rw [alone]
    exact Std.ExtTreeMap.contains_insert_self
  refine ⟨d.node.handleTimeResponse peerAddr peer t1 (t1 + 10) (t1 + 11) epoch t4, rfl, ?_⟩
  unfold NodeState.handleTimeResponse
  rw [if_pos (answersPending_iff.mpr flight)]
  exact ⟨if_pos known, rfl, rfl, rfl, rfl⟩

/-- Solving when all are asked records what waits. -/
theorem step_solve {todo : Std.ExtTreeMap NodeId SocketAddr} (stage : d.stage = .measure todo)
    (none : todo.isEmpty = true) (chance : Chance ℝ Scalar) : ∃ d',
    d.step curve hGenerator blake3 toLeBytes (.solve chance) = some ([], d') ∧
      ∃ entry ∈ d'.node.l0Store.entries,
        (entry.measurements.map fun m => m.peer) = d.node.rawExchanges.map fun raw => raw.peer := by
  refine ⟨_, State.solve_iff.mpr ⟨todo, stage, none, rfl, rfl⟩, ?_⟩
  obtain ⟨entry, records, store⟩ := d.node.solveAndAdvance_records d.epoch chance
  obtain ⟨l1Store, built⟩ := NodeState.buildAndPublishBeacon_snd curve blake3
    (d.node.solveAndAdvance d.epoch chance).2 d.epoch chance
  refine ⟨entry, ?_, ?_⟩
  · show entry ∈ (NodeState.buildAndPublishBeacon curve blake3
      (d.node.solveAndAdvance d.epoch chance).2 d.epoch chance).2.l0Store.entries
    rw [built, store]
    exact List.mem_append_right _ (List.mem_singleton_self _)
  · rw [records.measurements, List.map_map]
    rfl

theorem Alone.all_asked (alone : Alone d) : (d.node.peers.erase peer).isEmpty = true := by
  rw [alone]
  simp [Std.ExtTreeMap.size_insert]

/-- The daemon once it knows its peer. -/
noncomputable def acquainted : State ℝ :=
  { started with node := { started.node with peers := started.node.peers.insert peer peerAddr } }

theorem step_announce : started.step curve hGenerator blake3 toLeBytes announce =
    some ([⟨peer, peerAddr, .peerAnnounce (.replicate 0) 4242⟩], acquainted) := rfl

/-- The daemon that has solved its first epoch and holds its beacon. -/
noncomputable def solvedWith (chance : Chance ℝ Scalar) (l1Store : Layer1Store ℝ)
    (beacon : Layer1Beacon ℝ) : State ℝ :=
  { asked acquainted 5 with
    node := { ((asked acquainted 5).node.solveAndAdvance ⟨0⟩ chance).2 with l1Store := l1Store }
    stage := .publish (some beacon) }

/-- Nothing has been measured at the first solve, so its beacon is at offset zero. -/
theorem step_solve_first (chance : Chance ℝ Scalar) : ∃ l1Store beacon,
    (asked acquainted 5).step curve hGenerator blake3 toLeBytes (.solve chance) =
      some ([], solvedWith chance l1Store beacon) ∧
    (l1Store.beacons = [] ∨ l1Store.beacons = [beacon]) ∧ beacon.epoch = ⟨0⟩ ∧
      beacon.clockOffset = 0 := by
  obtain ⟨entry, records, store⟩ := (asked acquainted 5).node.solveAndAdvance_records ⟨0⟩ chance
  have found : ((asked acquainted 5).node.solveAndAdvance ⟨0⟩ chance).2.l0Store.getEpoch ⟨0⟩ =
      some entry := by
    rw [store, ← records.ofEpoch]
    exact Layer0Store.getEpoch_of_fresh fun e recorded => by cases recorded
  obtain ⟨beacon, ⟨secret, k1, k2, made⟩, built⟩ :=
    NodeState.buildAndPublishBeacon_of_entry curve blake3 found chance
  have own : (asked acquainted 5).node.nodeId ∉ (asked acquainted 5).node.peers.keys := by
    rw [show (asked acquainted 5).node.peers = (∅ : Std.ExtTreeMap _ _).insert peer peerAddr from
      rfl, Maps.keys_singleton, List.mem_singleton]
    exact fun same => absurd (NodeId.replicate_inj.mp same) (by decide)
  have alone : Alone acquainted := rfl
  refine ⟨((asked acquainted 5).node.l1Store.insert curve blake3 beacon).2, beacon,
    (State.solve_iff (d := asked acquainted 5)).mpr ⟨_, rfl, alone.all_asked, rfl, ?_⟩,
    Layer1Store.insert_beacons _ beacon, by rw [made]; rfl, ?_⟩
  · rw [show (asked acquainted 5).epoch = ⟨0⟩ from rfl, built]
    rfl
  · rw [made, show (beaconOfEntry curve blake3 entry ⟨0⟩ secret k1 k2).clockOffset =
      entry.solve.clockOffset from rfl, records.clockOffset,
      NodeState.solveAndAdvance_offset_of_new rfl own]
    simp [asked, acquainted, started, State.new, NodeState.new]

/-- A tick over one beacon at offset zero, or none, goes through and ends the first epoch. -/
theorem step_tick_first {beacon : Layer1Beacon ℝ} (stage : d.stage = .tick)
    (epochNum : d.epochNum = 0) (aggregator : d.node.l2Aggregator = .new)
    (stream : d.node.clockStream = .new)
    (lone : d.node.l1Store.beacons = [] ∨ d.node.l1Store.beacons = [beacon])
    (ofEpoch : beacon.epoch = ⟨0⟩) (zero : beacon.clockOffset = 0) (now : UInt64) : ∃ d',
    d.step curve hGenerator blake3 toLeBytes
      (.tick .asListed (fun _ => (0, 0)) now : Event ℝ Scalar) = some ([], d') ∧
    d'.stage = .begin ∧ d'.epochNum = 1 ∧ d'.node.peers = d.node.peers ∧
      d'.node.rawExchanges = d.node.rawExchanges := by
  have one : d.node.l1Store.beacons = [] ∨
      ∃ b, d.node.l1Store.beacons = [b] ∧ b.epoch = d.epoch ∧ b.clockOffset = 0 :=
    lone.imp id fun stored => ⟨beacon, stored, by rw [ofEpoch, State.epoch, epochNum], zero⟩
  obtain ⟨ticked, tick⟩ := NodeState.exists_runGeoidAndEmitTick curve hGenerator blake3 toLeBytes
    aggregator stream one .asListed (fun _ => (0, 0)) now
  obtain ⟨l2Aggregator, clockStream, rfl⟩ := NodeState.runGeoidAndEmitTick_eq tick
  exact ⟨_, State.tick_iff.mpr ⟨_, 1, stage, tick, by rw [epochNum]; rfl, rfl, rfl⟩, rfl, rfl, rfl,
    rfl⟩

/-- **The first epoch, answered too late**: the exchange waits when the epoch is over. -/
theorem run_late (chance : Chance ℝ Scalar) : ∃ outs d,
    Machine.run (State.step curve hGenerator blake3 toLeBytes) started
      (announce :: (asking 5 ++ [.solve chance, answer 5 ⟨0⟩ 21000000000, .publish,
        .tick .asListed (fun _ => (0, 0)) 30000000000])) = some (outs, d) ∧
      d.stage = .begin ∧ d.epochNum = 1 ∧ Alone d ∧
      (d.node.rawExchanges.map fun raw => raw.peer) = [peer] := by
  have alone : Alone acquainted := rfl
  obtain ⟨outs, ran⟩ := run_asking curve hGenerator blake3 toLeBytes
    (show acquainted.stage = .begin from rfl) alone 5
  obtain ⟨store, beacon, solve, lone, ofEpoch, zero⟩ :=
    step_solve_first curve hGenerator blake3 toLeBytes chance
  -- The answer comes in, and waits.
  obtain ⟨node, answered, peers, l1Store, l2Aggregator, clockStream, raw⟩ :=
    step_answer curve hGenerator blake3 toLeBytes
      (show Alone (solvedWith chance store beacon) from alone)
      (show (solvedWith chance store beacon).node.pendingT1[peer]? =
        some (5, (⟨0⟩ : Epoch).number) from Std.ExtTreeMap.getElem?_insert_self) 21000000000
  let tardy : State ℝ := { solvedWith chance store beacon with node := node }
  let done : State ℝ := { tardy with stage := .tick }
  have publish : tardy.step curve hGenerator blake3 toLeBytes .publish = some (_, done) :=
    (State.publish_iff (d := tardy)).mpr ⟨some beacon, rfl, rfl, rfl⟩
  obtain ⟨after, ended, top, count, samePeers, sameRaw⟩ :=
    step_tick_first curve hGenerator blake3 toLeBytes (show done.stage = .tick from rfl) rfl
      l2Aggregator clockStream (l1Store ▸ lone) ofEpoch zero 30000000000
  obtain ⟨outs', rest⟩ : ∃ outs', Machine.run (State.step curve hGenerator blake3 toLeBytes)
      (asked acquainted 5) [.solve chance, answer 5 ⟨0⟩ 21000000000, .publish,
        .tick .asListed (fun _ => (0, 0)) 30000000000] = some (outs', after) := by
    rw [Machine.run_cons solve, Machine.run_cons answered, Machine.run_cons publish,
      Machine.run_cons ended]
    exact ⟨_, rfl⟩
  refine ⟨[⟨peer, peerAddr, .peerAnnounce (.replicate 0) 4242⟩] :: (outs ++ outs'), after, ?_, top,
    count, ?_, ?_⟩
  · rw [Machine.run_cons (step_announce curve hGenerator blake3 toLeBytes),
      Machine.run_append ran rest]
    rfl
  · show after.node.peers = _
    rw [samePeers, show done.node.peers = node.peers from rfl, peers]
    exact alone
  · rw [sameRaw, show done.node.rawExchanges = node.rawExchanges from rfl, raw]
    rfl

/-- The digests of the peer, of its digest, of the beacon's key and of its proof's challenge. -/
def peerDigests (bytes : List UInt8) : Bytes32 :=
  if bytes = List.replicate 32 1 then
    #v[149, 21, 4, 144, 113, 237, 145, 49, 73, 168, 13, 59, 183, 137, 31, 205, 76, 108, 30, 61, 20,
      173, 135, 137, 57, 168, 15, 155, 154, 145, 224, 140]
  else if bytes =
    #v[149, 21, 4, 144, 113, 237, 145, 49, 73, 168, 13, 59, 183, 137, 31, 205, 76, 108, 30, 61, 20,
      173, 135, 137, 57, 168, 15, 155, 154, 145, 224, 140].toList then
    #v[240, 104, 182, 183, 140, 185, 135, 16, 120, 76, 59, 171, 100, 222, 248, 83, 116, 165, 208, 6,
      3, 50, 28, 223, 212, 19, 30, 177, 58, 179, 161, 239]
  else if bytes = List.replicate 40 0 then
    #v[53, 43, 210, 102, 218, 229, 60, 110, 106, 41, 36, 64, 17, 207, 160, 41, 129, 61, 10, 184, 67,
      75, 42, 43, 131, 10, 72, 125, 136, 40, 50, 186]
  else
    Layer1Store.zerosDigest

/-- The peer answers before the solve. -/
def inTime : List (Event ℝ (ZMod Layer1Store.groupOrder)) :=
  announce :: (asking 5 ++ [answer 5 ⟨0⟩ 25, .solve chance])

/-- An epoch whose only peer answers in time. -/
theorem run_attributed_in_time : ∃ outputs final,
    Machine.run (State.step Layer1Store.zeroCurve 3 peerDigests fun _ => List.replicate 8 0) started
      inTime = some (outputs, final) ∧
    ∃ entry ∈ final.node.l0Store.entries, (entry.measurements.map fun m => m.peer) = [peer] ∧
      Attributed inTime outputs.flatten entry := by
  obtain ⟨outs, ran⟩ := run_asking Layer1Store.zeroCurve 3 peerDigests (fun _ => List.replicate 8 0)
    (show acquainted.stage = .begin from rfl) rfl 5
  obtain ⟨node, answered, _, _, _, _, raw⟩ := step_answer Layer1Store.zeroCurve 3 peerDigests
    (fun _ => List.replicate 8 0) (show Alone (asked acquainted 5) from rfl)
    (show (asked acquainted 5).node.pendingT1[peer]? = some (5, (⟨0⟩ : Epoch).number) from
      Std.ExtTreeMap.getElem?_insert_self) 25
  have alone : Alone acquainted := rfl
  obtain ⟨final, solved, entry, recorded, once⟩ := step_solve Layer1Store.zeroCurve 3 peerDigests
    (fun _ => List.replicate 8 0) (d := { asked acquainted 5 with node := node }) rfl
    alone.all_asked chance
  obtain ⟨outs', rest⟩ : ∃ outs', Machine.run (State.step Layer1Store.zeroCurve 3 peerDigests
      fun _ => List.replicate 8 0) (asked acquainted 5) [answer 5 ⟨0⟩ 25, .solve chance] =
        some (outs', final) := by
    rw [Machine.run_cons answered, Machine.run_cons solved]
    exact ⟨_, rfl⟩
  have went := (Machine.run_cons (step_announce Layer1Store.zeroCurve 3 peerDigests
    fun _ => List.replicate 8 0)).trans (congrArg (Option.map _) (Machine.run_append ran rest))
  have after : Machine.Along (State.step Layer1Store.zeroCurve 3 peerDigests
      fun _ => List.replicate 8 0) Timely (asked acquainted 5)
      [answer 5 ⟨0⟩ 25, .solve chance] := by
    refine ⟨fun late => Bool.noConfusion late, fun packets d goes => ⟨?_, fun _ _ _ => trivial⟩⟩
    cases answered.symm.trans goes
    show node.rawExchanges.length < 2 ^ 32
    rw [raw]
    decide
  have before : Machine.Along (State.step Layer1Store.zeroCurve 3 peerDigests
      fun _ => List.replicate 8 0) Timely acquainted (asking 5) :=
    ⟨trivial, fun _ _ _ => ⟨trivial, fun _ _ _ => ⟨trivial, fun _ _ _ => trivial⟩⟩⟩
  have timely : Machine.Along (State.step Layer1Store.zeroCurve 3 peerDigests
      fun _ => List.replicate 8 0) Timely started inTime := by
    refine ⟨trivial, fun packets d goes => ?_⟩
    cases (step_announce Layer1Store.zeroCurve 3 peerDigests _).symm.trans goes
    exact Machine.along_append ran before after
  refine ⟨_, final, went, entry, recorded, ?_, (run_attributed timely went).1 entry recorded⟩
  rw [once, show State.node { asked acquainted 5 with node := node } = node from rfl, raw]
  rfl

/-- **A response that comes in between the solve and the tick counts for the next epoch**, under
any curve and hash: the peer answers there again, and the entry measures it twice. -/
theorem run_late_response :
    ¬ ∃ (curve : Ristretto (ZMod Layer1Store.groupOrder) (ZMod Layer1Store.groupOrder))
        (hGenerator : ZMod Layer1Store.groupOrder) (blake3 : List UInt8 → Bytes32)
        (toLeBytes : ℝ → List UInt8),
      ∀ (events : List (Event ℝ (ZMod Layer1Store.groupOrder))) (outputs : List (List (Packet ℝ)))
        (final : State ℝ),
        Machine.run (State.step curve hGenerator blake3 toLeBytes) started events =
          some (outputs, final) →
        ∀ entry ∈ final.node.l0Store.entries, Attributed events outputs.flatten entry := by
  rintro ⟨curve, hGenerator, blake3, toLeBytes, always⟩
  obtain ⟨outs, d, late, stage, epochNum, alone, waiting⟩ :=
    run_late curve hGenerator blake3 toLeBytes chance
  obtain ⟨outs', ran⟩ := run_asking curve hGenerator blake3 toLeBytes stage alone 30000000005
  have flight : (asked d 30000000005).node.pendingT1[peer]? =
      some (30000000005, (⟨1⟩ : Epoch).number) := by
    show (d.node.pendingT1.insert peer (30000000005, d.epochNum))[peer]? = _
    rw [Std.ExtTreeMap.getElem?_insert_self, epochNum]
  obtain ⟨node, answered, peers, _, _, _, raw⟩ :=
    step_answer curve hGenerator blake3 toLeBytes (show Alone (asked d 30000000005) from alone)
      flight 30000000025
  obtain ⟨d', solved, entry, recorded, twice⟩ := step_solve curve hGenerator blake3 toLeBytes
    (d := { asked d 30000000005 with node := node }) rfl alone.all_asked chance
  obtain ⟨outs'', rest⟩ : ∃ outs'', Machine.run (State.step curve hGenerator blake3 toLeBytes)
      (asked d 30000000005) [answer 30000000005 ⟨1⟩ 30000000025, .solve chance] =
        some (outs'', d') := by
    rw [Machine.run_cons answered, Machine.run_cons solved]
    exact ⟨_, rfl⟩
  have nodup := (always _ _ _ (Machine.run_append late (Machine.run_append ran rest)) entry
    recorded).nodup
  rw [twice, show State.node { asked d 30000000005 with node := node } = node from rfl, raw,
    List.map_append, show ((asked d 30000000005).node.rawExchanges.map fun raw => raw.peer) = [peer]
      from waiting] at nodup
  simp at nodup

end OnePeer

end Rtfsn.Daemon
