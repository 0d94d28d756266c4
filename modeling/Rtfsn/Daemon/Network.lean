/-
**Every measurement in a network of daemons took place.**

Many daemons run at once. A packet goes to an address, and comes in there late, often or never, and
out of order. Announcements and beacons may come from anywhere, with any contents; so may a daemon's
list of peers be wrong.

* `Network.step`: one daemon takes one step. `Network.Occurs`: what a network lets happen.
* `TookPlace`: the four stamps of an exchange were read on the clocks of its two ends, in order.
* `Genuine`: all that a daemon holds as a measurement is of an exchange that took place, oriented
  as its table orients it. `Genuine.moves`: what the daemon's moves keep.
* `Inv.step`, `run_genuine`: over every run, the daemons that answer are those that are named.
-/
import Rtfsn.Daemon.Measuring
import Rtfsn.Sync.RawHistory

set_option linter.unusedSectionVars false

namespace Rtfsn.Daemon

/-! ### The network -/

/-- The hosts that run a daemon: what each is told at its start, where it listens, and its clock. -/
structure Deployment (Host T F : Type) where
  nodeId : Host → NodeId
  listenPort : Host → UInt16
  epochSecs : Host → F
  words : Host → Vector UInt32 6
  address : Host → SocketAddr
  distinct : Function.Injective address
  clock : Host → T → UInt64

/-- A step of one daemon: its clock is first read, then the lock is taken, then the clock is read
for a reply. -/
structure Occurrence (Host T F Scalar : Type) [LE T] where
  host : Host
  event : Event F Scalar
  reads : T
  locks : T
  replies : T
  readsFirst : reads ≤ locks
  repliesLast : locks ≤ replies

/-- A packet under way. -/
structure Sending (Host T F : Type) where
  sender : Host
  sentAt : T
  packet : Packet F

/-- The daemons, all packets ever sent, and the moment of the last step. -/
structure Network (Host T F : Type) where
  daemons : Host → State F
  sent : List (Sending Host T F)
  now : T

variable {Host T F Point Scalar : Type} [DecidableEq Host] [Preorder T] [F64Coord F]
  [AddCommGroup Point] [CommRing Scalar] [Module Scalar Point] [DecidableEq Point]
  (curve : Ristretto Point Scalar) (hGenerator : Point) (blake3 : List UInt8 → Bytes32)
  (toLeBytes : F → List UInt8)

namespace Network

/-- The daemons as they start. -/
def start (hosts : Deployment Host T F) (now : T) : Network Host T F where
  daemons h := .new (hosts.nodeId h) (hosts.listenPort h) (hosts.epochSecs h) (hosts.words h)
  sent := []
  now := now

/-- One daemon takes a step, and its packets go out. -/
def step (net : Network Host T F) (o : Occurrence Host T F Scalar) :
    Option (List (Packet F) × Network Host T F) :=
  ((net.daemons o.host).step curve hGenerator blake3 toLeBytes o.event).map fun (packets, d) =>
    (packets,
     { daemons := Function.update net.daemons o.host d
       sent := net.sent ++ packets.map fun packet => ⟨o.host, o.replies, packet⟩
       now := o.locks })

end Network

/-- The stamps of a step are what the daemon's clock showed. -/
def Occurrence.Stamped (hosts : Deployment Host T F) (o : Occurrence Host T F Scalar) : Prop :=
  match o.event with
  | .request _ t1 => t1 = hosts.clock o.host o.reads
  | .receive _ _ arrival departure =>
    arrival = hosts.clock o.host o.reads ∧ departure = hosts.clock o.host o.replies
  | _ => True

/-- The step can be taken now: a time message comes in at the address it was sent to, from the
address of the daemon that sent it, no sooner than it was sent. -/
structure Network.Occurs (hosts : Deployment Host T F) (net : Network Host T F)
    (o : Occurrence Host T F Scalar) : Prop where
  later : net.now ≤ o.locks
  stamped : o.Stamped hosts
  delivered : ∀ fromAddr message arrival departure,
    o.event = .receive fromAddr message arrival departure → message.isTime = true →
    ∃ sending ∈ net.sent, sending.packet.message = message ∧
      sending.packet.addr = hosts.address o.host ∧ fromAddr = hosts.address sending.sender ∧
      sending.sentAt ≤ o.reads

/-! ### Measurements that took place -/

/-- The stamps of an exchange up to its reply: `h` read its clock, then `peer` its own, twice. -/
def Replied (hosts : Deployment Host T F) (now : T) (h peer : Host) (t1 t2 t3 : UInt64) : Prop :=
  ∃ asked arrived replied, asked ≤ arrived ∧ arrived ≤ replied ∧ replied ≤ now ∧
    t1 = hosts.clock h asked ∧ t2 = hosts.clock peer arrived ∧ t3 = hosts.clock peer replied

/-- The exchange of `h` took place: the daemon it names replied, and then `h` read its clock
again. -/
def TookPlace (hosts : Deployment Host T F) (now : T) (h : Host) (raw : RawExchange) : Prop :=
  ∃ peer returned, hosts.nodeId peer = raw.peer ∧
    Replied hosts returned h peer raw.t1 raw.t2 raw.t3 ∧ returned ≤ now ∧
    raw.t4 = hosts.clock h returned

theorem Replied.later {hosts : Deployment Host T F} {now now' : T} {h peer : Host}
    {t1 t2 t3 : UInt64} (replied : Replied hosts now h peer t1 t2 t3) (after : now ≤ now') :
    Replied hosts now' h peer t1 t2 t3 := by
  obtain ⟨asked, arrived, sent, first, second, third, stamps⟩ := replied
  exact ⟨asked, arrived, sent, first, second, third.trans after, stamps⟩

theorem TookPlace.later {hosts : Deployment Host T F} {now now' : T} {h : Host}
    {raw : RawExchange} (took : TookPlace hosts now h raw) (after : now ≤ now') :
    TookPlace hosts now' h raw := by
  obtain ⟨peer, returned, named, replied, past, isT4⟩ := took
  exact ⟨peer, returned, named, replied, past.trans after, isT4⟩

/-- The twist of an exchange, as the table of `id` holds it. -/
def storedTwist (id : NodeId) (raw : RawExchange) (epoch : Epoch) : TwistIndex :=
  let twist := NodeState.responseTwist raw.t1 raw.t2 raw.t3 raw.t4 epoch
  if id ≤ raw.peer then twist else twist.reversed

/-- All that a daemon holds as measured took place: the exchanges that wait for a solve, the records
of its entries, and the twists of its table. -/
structure Genuine (hosts : Deployment Host T F) (now : T) (h : Host) (m : Measuring F) : Prop where
  raw : ∀ raw ∈ m.rawExchanges, TookPlace hosts now h raw
  entries : ∀ entry ∈ m.entries, ∀ record ∈ entry.measurements, ∃ raw currentSecs,
    record = measurementRecord currentSecs raw ∧ TookPlace hosts now h raw
  twists : ∀ peer, ∀ twist ∈ (m.twistLut.get m.nodeId peer).getD [], ∃ raw epoch,
    raw.peer = peer ∧ twist = storedTwist m.nodeId raw epoch ∧ TookPlace hosts now h raw

variable {curve hGenerator blake3 toLeBytes} {hosts : Deployment Host T F}
  {now now' : T} {h : Host} {m m' : Measuring F} {event : Event F Scalar}
  {packets : List (Packet F)}

theorem Genuine.later (genuine : Genuine hosts now h m) (after : now ≤ now') :
    Genuine hosts now' h m where
  raw raw waiting := (genuine.raw raw waiting).later after
  entries entry recorded record measured := by
    obtain ⟨raw, secs, made, took⟩ := genuine.entries entry recorded record measured
    exact ⟨raw, secs, made, took.later after⟩
  twists peer twist held := by
    obtain ⟨raw, epoch, ofPeer, made, took⟩ := genuine.twists peer twist held
    exact ⟨raw, epoch, ofPeer, made, took.later after⟩

theorem Genuine.accept {sender : NodeId} {t1 t2 t3 t4 : UInt64} (genuine : Genuine hosts now h m)
    (took : TookPlace hosts now h ⟨sender, t1, t2, t3, t4⟩) (epoch : Epoch) :
    Genuine hosts now h (m.accept sender t1 t2 t3 epoch t4) where
  raw raw waiting := by
    rcases List.mem_append.mp waiting with before | new
    · exact genuine.raw raw before
    · rw [List.mem_singleton.mp new]
      exact took
  entries := genuine.entries
  twists peer twist held := by
    have inserted : twist ∈ ((m.twistLut.insert m.nodeId sender
      (NodeState.responseTwist t1 t2 t3 t4 epoch)).get m.nodeId peer).getD [] := held
    rw [TwistLUT.get_insert] at inserted
    by_cases same : sender = peer
    · rw [if_pos same] at inserted
      rcases List.mem_append.mp inserted with before | new
      · exact genuine.twists peer twist before
      · exact ⟨⟨sender, t1, t2, t3, t4⟩, epoch, same, List.mem_singleton.mp new, took⟩
    · rw [if_neg same] at inserted
      exact genuine.twists peer twist inserted

theorem Genuine.solve {entry : Layer0Entry F} {beacon : Option (Layer1Beacon F)}
    (genuine : Genuine hosts now h m) (records : m.Records entry) :
    Genuine hosts now h { m with
      rawExchanges := []
      entries := m.entries ++ [entry]
      stage := .publish beacon } where
  raw raw waiting := by cases waiting
  entries e recorded record measured := by
    rcases List.mem_append.mp recorded with before | new
    · exact genuine.entries e before record measured
    · obtain ⟨secs, all⟩ := records.measurements
      rw [List.mem_singleton.mp new, all] at measured
      obtain ⟨raw, waiting, rfl⟩ := List.mem_map.mp measured
      exact ⟨raw, secs, rfl, genuine.raw raw waiting⟩
  twists := genuine.twists

/-- **A move keeps what took place**, when the exchange it accepts, if any, did. -/
theorem Genuine.moves (genuine : Genuine hosts now h m) (moves : m.Moves event packets m')
    (accepted : ∀ fromAddr sender t1 t2 t3 epoch t4 departure,
      event = .receive fromAddr (.timeResponse sender t1 t2 t3 epoch) t4 departure →
      TookPlace hosts now h ⟨sender, t1, t2, t3, t4⟩) : Genuine hosts now h m' := by
  cases moves with
  | solve _ beacon _ records => exact genuine.solve records
  | accept fromAddr t2 t3 t4 departure _ =>
    exact genuine.accept (accepted _ _ _ _ _ _ _ _ rfl) _
  | _ => exact ⟨genuine.raw, genuine.entries, genuine.twists⟩

/-! ### What a move says and sends -/

namespace Measuring.Moves

theorem nodeId (moves : m.Moves event packets m') : m'.nodeId = m.nodeId := by
  cases moves <;> rfl

/-- A request about to be sent was just made, or was about to be sent before. -/
theorem sending (moves : m.Moves event packets m') {peer : NodeId} {addr : SocketAddr}
    {t1 : UInt64} {todo : Std.ExtTreeMap NodeId SocketAddr}
    (stage : m'.stage = .send peer addr t1 todo) :
    event = .request peer t1 ∨ m.stage = .send peer addr t1 todo := by
  cases moves with
  | request =>
    cases stage
    exact .inl rfl
  | answer => exact .inr stage
  | accept => exact .inr stage
  | ignore => exact .inr stage
  | _ => cases stage

/-- A request goes out as it was noted. -/
theorem timeRequest (moves : m.Moves event packets m') {packet : Packet F} (out : packet ∈ packets)
    {sender : NodeId} {t1 : UInt64} {epoch : Epoch}
    (message : packet.message = .timeRequest sender t1 epoch) :
    ∃ peer addr todo, m.stage = .send peer addr t1 todo := by
  cases moves with
  | send listenPort sending =>
    simp only [List.mem_cons, List.not_mem_nil, or_false] at out
    rcases out with rfl | rfl
    · cases message
      exact ⟨_, _, _, sending⟩
    · cases message
  | publish _ untimed =>
    exact absurd (untimed packet out) (by simp [message, ProtocolMessage.isTime])
  | ignore _ _ _ _ untimed =>
    exact absurd (untimed packet out) (by simp [message, ProtocolMessage.isTime])
  | answer =>
    rw [List.mem_singleton.mp out] at message
    cases message
  | _ => cases out

/-- A response goes back where the request came from. -/
theorem timeResponse (moves : m.Moves event packets m') {packet : Packet F}
    (out : packet ∈ packets) {sender : NodeId} {t1 t2 t3 : UInt64} {epoch : Epoch}
    (message : packet.message = .timeResponse sender t1 t2 t3 epoch) :
    sender = m.nodeId ∧ ∃ asker,
      event = .receive packet.addr (.timeRequest asker t1 epoch) t2 t3 := by
  cases moves with
  | send =>
    simp only [List.mem_cons, List.not_mem_nil, or_false] at out
    rcases out with rfl | rfl <;> cases message
  | publish _ untimed =>
    exact absurd (untimed packet out) (by simp [message, ProtocolMessage.isTime])
  | ignore _ _ _ _ untimed =>
    exact absurd (untimed packet out) (by simp [message, ProtocolMessage.isTime])
  | answer =>
    rw [List.mem_singleton.mp out] at message ⊢
    cases message
    exact ⟨rfl, _, rfl⟩
  | _ => cases out

end Measuring.Moves

/-! ### The invariant -/

namespace Network

/-- What holds of the network between any two steps. -/
structure Inv (hosts : Deployment Host T F) (net : Network Host T F) : Prop where
  sameNode : ∀ h, (net.daemons h).measuring.nodeId = hosts.nodeId h
  sending : ∀ h peer addr t1 todo, (net.daemons h).measuring.stage = .send peer addr t1 todo →
    ∃ asked ≤ net.now, t1 = hosts.clock h asked
  requests : ∀ s ∈ net.sent, ∀ sender t1 epoch, s.packet.message = .timeRequest sender t1 epoch →
    ∃ asked ≤ s.sentAt, t1 = hosts.clock s.sender asked
  /-- A response tells the daemon it goes to of a request of its own. -/
  responses : ∀ s ∈ net.sent, ∀ sender t1 t2 t3 epoch,
    s.packet.message = .timeResponse sender t1 t2 t3 epoch → sender = hosts.nodeId s.sender ∧
      ∀ h, s.packet.addr = hosts.address h → Replied hosts s.sentAt h s.sender t1 t2 t3
  genuine : ∀ h, Genuine hosts net.now h (net.daemons h).measuring

variable {net net' : Network Host T F} {o : Occurrence Host T F Scalar}

theorem Inv.start (hosts : Deployment Host T F) (now : T) :
    Inv hosts (Network.start hosts now) where
  sameNode _ := rfl
  sending _ _ _ _ _ stage := by cases stage
  requests _ out := by cases out
  responses _ out := by cases out
  genuine h :=
    { raw := fun raw waiting => by cases waiting
      entries := fun entry recorded => by cases recorded
      twists := fun peer twist held => by
        simp [Network.start, State.measuring, State.new, NodeState.new] at held }

/-- A step of the network is a move of one daemon. -/
theorem step_moves (goes : net.step curve hGenerator blake3 toLeBytes o = some (packets, net')) :
    (net.daemons o.host).measuring.Moves o.event packets (net'.daemons o.host).measuring ∧
      (∀ h, h ≠ o.host → net'.daemons h = net.daemons h) ∧
      net'.sent = net.sent ++ packets.map (fun packet => ⟨o.host, o.replies, packet⟩) ∧
      net'.now = o.locks := by
  obtain ⟨r, went, made⟩ := Option.map_eq_some_iff.mp goes
  obtain ⟨out, d⟩ := r
  cases made
  refine ⟨?_, fun h other => Function.update_of_ne other _ _, rfl, rfl⟩
  show Measuring.Moves _ _ _ (Function.update net.daemons o.host d o.host).measuring
  rw [Function.update_self]
  exact State.step_moves went

/-- **The exchange that a response completes took place.** -/
theorem Inv.took (inv : Inv hosts net) (occurs : net.Occurs hosts o) {fromAddr : SocketAddr}
    {sender : NodeId} {t1 t2 t3 t4 departure : UInt64} {epoch : Epoch}
    (comes : o.event = .receive fromAddr (.timeResponse sender t1 t2 t3 epoch) t4 departure) :
    TookPlace hosts o.locks o.host ⟨sender, t1, t2, t3, t4⟩ := by
  obtain ⟨s, out, message, addr, _, before⟩ := occurs.delivered _ _ _ _ comes rfl
  obtain ⟨named, replied⟩ := inv.responses s out _ _ _ _ _ message
  have stamped := occurs.stamped
  rw [Occurrence.Stamped, comes] at stamped
  exact ⟨s.sender, o.reads, named.symm, (replied o.host addr).later before, o.readsFirst,
    stamped.1⟩

/-- **A response goes out with the stamps of its exchange so far.** -/
theorem Inv.replied (inv : Inv hosts net) (occurs : net.Occurs hosts o) {fromAddr : SocketAddr}
    {asker : NodeId} {t1 t2 t3 : UInt64} {epoch : Epoch}
    (comes : o.event = .receive fromAddr (.timeRequest asker t1 epoch) t2 t3)
    (back : fromAddr = hosts.address h) : Replied hosts o.replies h o.host t1 t2 t3 := by
  obtain ⟨s, out, message, _, origin, before⟩ := occurs.delivered _ _ _ _ comes rfl
  obtain ⟨asked, first, isT1⟩ := inv.requests s out _ _ _ message
  obtain rfl : s.sender = h := hosts.distinct (origin.symm.trans back)
  have stamped := occurs.stamped
  rw [Occurrence.Stamped, comes] at stamped
  exact ⟨asked, o.reads, o.replies, first.trans before, o.readsFirst.trans o.repliesLast, le_rfl,
    isT1, stamped.1, stamped.2⟩

/-- **Every step of the network keeps the invariant.** -/
theorem Inv.step (inv : Inv hosts net) (occurs : net.Occurs hosts o)
    (goes : net.step curve hGenerator blake3 toLeBytes o = some (packets, net')) :
    Inv hosts net' := by
  obtain ⟨moves, still, sent, now⟩ := step_moves goes
  refine ⟨fun h => ?_, fun h peer addr t1 todo stage => ?_, fun s out sender t1 epoch message => ?_,
    fun s out sender t1 t2 t3 epoch message => ?_, fun h => ?_⟩
  · by_cases same : h = o.host
    · rw [same, moves.nodeId, inv.sameNode]
    · rw [still h same, inv.sameNode]
  · rw [now]
    by_cases same : h = o.host
    · subst same
      rcases moves.sending stage with asks | before
      · have stamped := occurs.stamped
        rw [Occurrence.Stamped, asks] at stamped
        exact ⟨o.reads, o.readsFirst, stamped⟩
      · obtain ⟨asked, past, isT1⟩ := inv.sending _ _ _ _ _ before
        exact ⟨asked, past.trans occurs.later, isT1⟩
    · rw [still h same] at stage
      obtain ⟨asked, past, isT1⟩ := inv.sending _ _ _ _ _ stage
      exact ⟨asked, past.trans occurs.later, isT1⟩
  · rw [sent] at out
    rcases List.mem_append.mp out with before | new
    · exact inv.requests s before sender t1 epoch message
    · obtain ⟨packet, goesOut, rfl⟩ := List.mem_map.mp new
      obtain ⟨peer, addr, todo, stage⟩ := moves.timeRequest goesOut message
      obtain ⟨asked, past, isT1⟩ := inv.sending _ _ _ _ _ stage
      exact ⟨asked, past.trans (occurs.later.trans o.repliesLast), isT1⟩
  · rw [sent] at out
    rcases List.mem_append.mp out with before | new
    · exact inv.responses s before sender t1 t2 t3 epoch message
    · obtain ⟨packet, goesOut, rfl⟩ := List.mem_map.mp new
      obtain ⟨own, asker, comes⟩ := moves.timeResponse goesOut message
      exact ⟨own.trans (inv.sameNode _), fun h back => inv.replied occurs comes back⟩
  · have before := (inv.genuine h).later occurs.later
    rw [now]
    by_cases same : h = o.host
    · subst same
      exact before.moves moves fun _ _ _ _ _ _ _ _ comes => inv.took occurs comes
    · rw [still h same]
      exact before

/-! ### Runs -/

theorem run_inv {now : T} {occurrences : List (Occurrence Host T F Scalar)}
    {outputs : List (List (Packet F))} {final : Network Host T F}
    (possible : Machine.Along (Network.step curve hGenerator blake3 toLeBytes) (Occurs hosts)
      (start hosts now) occurrences)
    (went : Machine.run (Network.step curve hGenerator blake3 toLeBytes) (start hosts now)
      occurrences = some (outputs, final)) : Inv hosts final :=
  Machine.run_induction_along (fun _ _ net => Inv hosts net)
    (fun _ _ _ _ _ _ held occurs goes => held.step occurs goes) [] [] (Inv.start hosts now)
    possible went

/-- **Every measurement took place.** In a network of daemons, over every run in which the time
messages that come in were sent by its daemons, every exchange, record and twist that a daemon holds
of a peer carries stamps that the two read on their clocks, in the order of an exchange. -/
theorem run_genuine {now : T} {occurrences : List (Occurrence Host T F Scalar)}
    {outputs : List (List (Packet F))} {final : Network Host T F}
    (possible : Machine.Along (Network.step curve hGenerator blake3 toLeBytes) (Occurs hosts)
      (start hosts now) occurrences)
    (went : Machine.run (Network.step curve hGenerator blake3 toLeBytes) (start hosts now)
      occurrences = some (outputs, final)) (h : Host) :
    (final.daemons h).node.nodeId = hosts.nodeId h ∧
      Genuine hosts final.now h (final.daemons h).measuring := by
  have inv := run_inv possible went
  exact ⟨inv.sameNode h, inv.genuine h⟩

/-! ### Two daemons -/

section Two

def twoAddress (h : Bool) : SocketAddr :=
  if h then peerAddr else ⟨[192, 168, 1, 101], 4242⟩

theorem twoAddress_injective : Function.Injective twoAddress := by
  have other : peerAddr.ip ≠ [192, 168, 1, 101] := by decide
  intro h h' same
  cases h <;> cases h'
  · rfl
  · exact absurd (congrArg SocketAddr.ip same).symm other
  · exact absurd (congrArg SocketAddr.ip same) other
  · rfl

/-- Two daemons, the second one's clock eight nanoseconds ahead. -/
noncomputable def two : Deployment Bool ℕ ℝ where
  nodeId h := if h then peer else .replicate 0
  listenPort _ := 4242
  epochSecs _ := started.node.epochDurationSecs
  words _ := Vector.replicate 6 0
  address := twoAddress
  distinct := twoAddress_injective
  clock h now := UInt64.ofNat (if h then now + 8 else now)

/-- A step taken at one moment. -/
def once {Scalar : Type} (host : Bool) (now : ℕ) (event : Event ℝ Scalar) :
    Occurrence Bool ℕ ℝ Scalar :=
  ⟨host, event, now, now, now, le_rfl, le_rfl⟩

/-- The second daemon's reply, a nanosecond after the request came in. -/
def reply : Occurrence Bool ℕ ℝ (ZMod Layer1Store.groupOrder) :=
  ⟨true, .receive ⟨[192, 168, 1, 101], 4242⟩ (.timeRequest (.replicate 0) 2 ⟨0⟩) 12 13, 4, 4, 5,
    le_rfl, by decide⟩

/-- The first daemon hears of the second, and asks it for the time. -/
def asksOnce : List (Occurrence Bool ℕ ℝ (ZMod Layer1Store.groupOrder)) :=
  [once false 0 announce, once false 1 .begin, once false 2 (.request peer 2), once false 3 .send,
    reply, once false 7 (answer 2 ⟨0⟩ 7)]

/-- The first daemon, once it has its answer. -/
noncomputable def measured : State ℝ :=
  { asked acquainted 2 with
    node := (asked acquainted 2).node.handleTimeResponse peerAddr peer 2 12 13 ⟨0⟩ 7 }

theorem measured_node : measured.node.rawExchanges = [⟨peer, 2, 12, 13, 7⟩] ∧
    measured.node.twistLut =
      TwistLUT.new.insert (.replicate 0) peer (NodeState.responseTwist 2 12 13 7 ⟨0⟩) := by
  have flight : (asked acquainted 2).node.answersPending peer 2 ⟨0⟩ = true :=
    answersPending_iff.mpr Std.ExtTreeMap.getElem?_insert_self
  unfold measured NodeState.handleTimeResponse
  dsimp only
  rw [if_pos flight]
  exact ⟨rfl, rfl⟩

/-- The two daemons, each in its state. -/
def both (d d' : State ℝ) (sent : List (Sending Bool ℕ ℝ)) (now : ℕ) : Network Bool ℕ ℝ :=
  ⟨fun h => if h then d' else d, sent, now⟩

section Steps

variable {Scalar : Type} [CommRing Scalar] [Module Scalar Point] {curve : Ristretto Point Scalar}
  {toLeBytes : ℝ → List UInt8} {packets : List (Packet ℝ)} {o : Occurrence Bool ℕ ℝ Scalar}

theorem step_first {d d₁ : State ℝ} (host : o.host = false)
    (goes : d.step curve hGenerator blake3 toLeBytes o.event = some (packets, d₁)) (d' : State ℝ)
    (sent : List (Sending Bool ℕ ℝ)) (now : ℕ) :
    (both d d' sent now).step curve hGenerator blake3 toLeBytes o =
      some (packets, both d₁ d' (sent ++ packets.map fun packet => ⟨false, o.replies, packet⟩)
        o.locks) := by
  have daemons : Function.update (both d d' sent now).daemons false d₁ =
      (both d₁ d' sent now).daemons := by
    funext h
    cases h <;> rfl
  unfold Network.step
  rw [host, show ((both d d' sent now).daemons false).step curve hGenerator blake3 toLeBytes
    o.event = _ from goes, Option.map_some]
  dsimp only
  rw [daemons]
  rfl

theorem step_second {d' d₁ : State ℝ} (host : o.host = true)
    (goes : d'.step curve hGenerator blake3 toLeBytes o.event = some (packets, d₁)) (d : State ℝ)
    (sent : List (Sending Bool ℕ ℝ)) (now : ℕ) :
    (both d d' sent now).step curve hGenerator blake3 toLeBytes o =
      some (packets, both d d₁ (sent ++ packets.map fun packet => ⟨true, o.replies, packet⟩)
        o.locks) := by
  have daemons : Function.update (both d d' sent now).daemons true d₁ =
      (both d d₁ sent now).daemons := by
    funext h
    cases h <;> rfl
  unfold Network.step
  rw [host, show ((both d d' sent now).daemons true).step curve hGenerator blake3 toLeBytes
    o.event = _ from goes, Option.map_some]
  dsimp only
  rw [daemons]
  rfl

end Steps

/-- **One exchange of the two**, which the network lets happen. -/
theorem run_asksOnce : ∃ final,
    (Machine.Along (Network.step Layer1Store.zeroCurve 3 peerDigests fun _ => List.replicate 8 0)
        (Occurs two) (start two 0) asksOnce ∧
      ∃ outputs, Machine.run (Network.step Layer1Store.zeroCurve 3 peerDigests
        fun _ => List.replicate 8 0) (start two 0) asksOnce = some (outputs, final)) ∧
    final.daemons false = measured ∧ final.now = 7 := by
  let idle : State ℝ := .new peer 4242 30 (Vector.replicate 6 0)
  have listed : acquainted.node.peers[peer]? = some peerAddr :=
    Std.ExtTreeMap.getElem?_insert_self
  have atStart : start two 0 = both started idle [] 0 := by
    unfold start both
    congr 1
    funext h
    cases h <;> rfl
  have begins : acquainted.step Layer1Store.zeroCurve 3 peerDigests (fun _ => List.replicate 8 0)
      .begin = some ([], begun acquainted) :=
    (State.begin_iff (d := acquainted)).mpr ⟨rfl, rfl, rfl⟩
  have requests : (begun acquainted).step Layer1Store.zeroCurve 3 peerDigests
      (fun _ => List.replicate 8 0) (.request peer 2) = some ([], noted acquainted 2) :=
    (State.request_iff (d := begun acquainted)).mpr ⟨_, _, rfl, listed, rfl, rfl⟩
  have sends : (noted acquainted 2).step Layer1Store.zeroCurve 3 peerDigests
      (fun _ => List.replicate 8 0) .send = some (_, asked acquainted 2) :=
    (State.send_iff (d := noted acquainted 2)).mpr ⟨_, _, _, _, rfl, rfl, rfl⟩
  rw [atStart]
  refine ⟨both measured _ _ 7,
    Machine.along_run_cons ⟨le_rfl, ⟨rfl, rfl⟩, ?_⟩
      (step_first rfl (step_announce _ _ _ _) idle [] 0) <|
    Machine.along_run_cons ⟨by decide, trivial, ?_⟩ (step_first rfl begins idle _ 0) <|
    Machine.along_run_cons ⟨by decide, rfl, ?_⟩ (step_first rfl requests idle _ 1) <|
    Machine.along_run_cons ⟨by decide, trivial, ?_⟩ (step_first rfl sends idle _ 2) <|
    Machine.along_run_cons ⟨by decide, ⟨rfl, rfl⟩, ?_⟩
      (step_second rfl rfl (asked acquainted 2) _ 3) <|
    Machine.along_run_cons ⟨by decide, ⟨rfl, rfl⟩, ?_⟩ (step_first rfl rfl _ _ 4)
      ⟨trivial, [], rfl⟩, rfl, rfl⟩
  · intro _ _ _ _ comes timed
    cases comes
    cases timed
  · intro _ _ _ _ comes
    cases comes
  · intro _ _ _ _ comes
    cases comes
  · intro _ _ _ _ comes
    cases comes
  · intro _ _ _ _ comes _
    cases comes
    exact ⟨⟨false, 3, ⟨peer, peerAddr, .timeRequest (.replicate 0) 2 ⟨0⟩⟩⟩, .tail _ (.head _), rfl,
      rfl, rfl, by decide⟩
  · intro _ _ _ _ comes _
    cases comes
    exact ⟨⟨true, 5, ⟨.replicate 0, ⟨[192, 168, 1, 101], 4242⟩, .timeResponse peer 2 12 13 ⟨0⟩⟩⟩,
      .tail _ (.tail _ (.tail _ (.head _))), rfl, rfl, rfl, by decide⟩

/-- What the first of the two measured took place. -/
theorem run_genuine_two : ∃ outputs final,
    Machine.run (Network.step Layer1Store.zeroCurve 3 peerDigests fun _ => List.replicate 8 0)
      (start two 0) asksOnce = some (outputs, final) ∧
    (final.daemons false).node.rawExchanges = [⟨peer, 2, 12, 13, 7⟩] ∧
    (final.daemons false).node.nodeId = .replicate 0 ∧
    Genuine two final.now false (final.daemons false).measuring := by
  obtain ⟨final, ⟨possible, outputs, went⟩, first, _⟩ := run_asksOnce
  exact ⟨outputs, final, went, first ▸ measured_node.1, run_genuine possible went false⟩

end Two

end Network

end Rtfsn.Daemon
