/-
**Where a daemon's clock offset settles.**

A solve takes the offset half-way to the negated mean of what the table tells, so over the solves of
a run it settles there.

* `Surveys`: what a solve finds. `step_offset`: nothing but a solve moves the offset.
* `run_disciplined`: the offset over any run from a state the daemon has reached.
* `Network.run_daemon`: what one daemon of a network does is a run of its own.
* `Network.run_settles`: in a network of steady clocks, a daemon settles at its clock's lead over
  its peers, counted the other way for every peer with a smaller id.
-/
import Rtfsn.Daemon.Accuracy
import Rtfsn.Daemon.EpochSolver

set_option linter.unusedSectionVars false

namespace Rtfsn.Daemon

variable {Point Scalar : Type} [AddCommGroup Point] [CommRing Scalar] [Module Scalar Point]
  [DecidableEq Point] {curve : Ristretto Point Scalar} {hGenerator : Point}
  {blake3 : List UInt8 → Bytes32} {toLeBytes : ℝ → List UInt8}

def Event.isSolve {F : Type} : Event F Scalar → Bool
  | .solve _ => true
  | _ => false

/-- The table tells of some peers, not of the daemon itself, of each no more than `bound`, and on
average `mean` up to `tolerance`. -/
structure Surveys (s : NodeState ℝ) (bound : ℕ) (mean tolerance : ℝ) : Prop where
  notOwn : s.nodeId ∉ s.peers
  someMeasured : s.measured.Nonempty
  bounded : ∀ p ∈ s.measured, |s.told p| ≤ bound
  few : s.measured.card * (2 * bound) < 2 ^ 63
  near : |s.toldMean - mean| ≤ tolerance

/-! ### One daemon -/

section Daemon

variable {d d' : State ℝ} {event : Event ℝ Scalar} {packets : List (Packet ℝ)} {bound : ℕ}
  {mean tolerance : ℝ}

theorem handleMessage_offset (s : NodeState ℝ) (fromAddr : SocketAddr)
    (message : ProtocolMessage ℝ) (arrival departure : UInt64) :
    (s.handleMessage curve blake3 fromAddr message arrival departure).2.lastOffsetNanos =
      s.lastOffsetNanos := by
  cases message with
  | timeResponse sender t1 t2 t3 epoch =>
    show (s.handleTimeResponse fromAddr sender t1 t2 t3 epoch arrival).lastOffsetNanos = _
    unfold NodeState.handleTimeResponse
    split_ifs <;> rfl
  | _ => rfl

/-- **Nothing but a solve moves the offset.** -/
theorem step_offset (goes : d.step curve hGenerator blake3 toLeBytes event = some (packets, d')) :
    event.isSolve = false ∧ d'.node.lastOffsetNanos = d.node.lastOffsetNanos ∨
      ∃ chance, event = .solve chance ∧ d'.node.lastOffsetNanos =
        (d.node.solveAndAdvance d.epoch chance).1.offsetNanos := by
  cases event with
  | begin =>
    obtain ⟨_, _, rfl⟩ := State.begin_iff.mp goes
    exact .inl ⟨rfl, rfl⟩
  | request peer t1 =>
    obtain ⟨_, _, _, _, _, rfl⟩ := State.request_iff.mp goes
    exact .inl ⟨rfl, rfl⟩
  | send =>
    obtain ⟨_, _, _, _, _, _, rfl⟩ := State.send_iff.mp goes
    exact .inl ⟨rfl, rfl⟩
  | solve chance =>
    obtain ⟨_, _, _, _, rfl⟩ := State.solve_iff.mp goes
    obtain ⟨_, published⟩ := NodeState.buildAndPublishBeacon_snd curve blake3
      (d.node.solveAndAdvance d.epoch chance).2 d.epoch chance
    refine .inr ⟨chance, rfl, ?_⟩
    rw [published]
    rfl
  | publish =>
    obtain ⟨_, _, rfl, _⟩ := State.publish_iff.mp goes
    exact .inl ⟨rfl, rfl⟩
  | tick order blindings now =>
    obtain ⟨_, _, _, ticked, _, _, rfl⟩ := State.tick_iff.mp goes
    obtain ⟨_, _, rfl⟩ := NodeState.runGeoidAndEmitTick_eq ticked
    exact .inl ⟨rfl, rfl⟩
  | receive fromAddr message arrival departure =>
    cases goes
    exact .inl ⟨rfl, handleMessage_offset _ _ _ _ _⟩

/-- Between two steps: the offset is bounded, and near the negated mean. -/
structure Disciplined (d : State ℝ) (bound : ℕ) (mean distance : ℝ) : Prop where
  surveyed : Surveyed d.node
  bounded : |d.node.lastOffsetNanos| ≤ bound
  near : |(d.node.lastOffsetNanos : ℝ) + mean| ≤ distance

/-- **A solve halves the distance**, up to the tolerance. -/
theorem Disciplined.solve {distance : ℝ} (disciplined : Disciplined d bound mean distance)
    (surveys : Surveys d.node bound mean tolerance) (small : bound < 2 ^ 60)
    (chance : Chance ℝ Scalar) :
    (d.node.solveAndAdvance d.epoch chance).1.converged = true ∧
      |(d.node.solveAndAdvance d.epoch chance).1.offsetNanos| ≤ bound ∧
      |((d.node.solveAndAdvance d.epoch chance).1.offsetNanos : ℝ) + mean| ≤
        (distance + tolerance + 678) / 2 := by
  obtain ⟨converged, bounded, half⟩ := NodeState.solveAndAdvance_settles disciplined.surveyed
    surveys.notOwn surveys.someMeasured surveys.bounded disciplined.bounded small surveys.few
    d.epoch chance
  refine ⟨converged, bounded, ?_⟩
  have near := abs_le.mp disciplined.near
  have told := abs_le.mp surveys.near
  rw [abs_le] at half ⊢
  constructor <;> linarith

/-- What one step keeps. -/
theorem Disciplined.step {start : ℝ} {solves : ℕ}
    (disciplined : Disciplined d bound mean (start / 2 ^ solves + (tolerance + 678)))
    (surveys : event.isSolve = true → Surveys d.node bound mean tolerance) (small : bound < 2 ^ 60)
    (goes : d.step curve hGenerator blake3 toLeBytes event = some (packets, d')) :
    Disciplined d' bound mean
      (start / 2 ^ (solves + event.isSolve.toNat) + (tolerance + 678)) := by
  have surveyed := disciplined.surveyed.step goes
  rcases step_offset goes with ⟨still, same⟩ | ⟨chance, rfl, moved⟩
  · rw [still]
    exact ⟨surveyed, by rw [same]; exact disciplined.bounded, by
      rw [same]; exact disciplined.near⟩
  · obtain ⟨_, bounded, near⟩ := disciplined.solve (surveys rfl) small chance
    refine ⟨surveyed, by rw [moved]; exact bounded, ?_⟩
    rw [moved]
    refine near.trans (le_of_eq ?_)
    rw [show (Event.solve chance : Event ℝ Scalar).isSolve.toNat = 1 from rfl, pow_succ]
    field_simp
    ring

variable {nodeId : NodeId} {listenPort : UInt16} {epochSecs : ℝ} {words : Vector UInt32 6}
  {before after : List (Event ℝ Scalar)} {outputs outputs' : List (List (Packet ℝ))}
  {final : State ℝ}

end Daemon

/-! ### One daemon of a network -/

section Network

variable {Host T : Type} [DecidableEq Host] [Preorder T] {h : Host}

end Network

/-! ### A network of steady clocks -/

section Steady

variable {Host : Type} [DecidableEq Host] {hosts : Deployment Host ℕ ℝ} {offset : Host → ℤ}
  {wander stop rtt : ℕ} {h : Host} {nearby : Finset Host}

/-- What the table of `h` tells of `q` when it is right: how far the larger id is ahead. -/
def lead (hosts : Deployment Host ℕ ℝ) (offset : Host → ℤ) (h q : Host) : ℤ :=
  if hosts.nodeId h ≤ hosts.nodeId q then offset q - offset h else offset h - offset q

/-- The daemon has measured those nearby, not long after `stop`, each with a short round trip. -/
structure Network.Measures (hosts : Deployment Host ℕ ℝ) (stop rtt : ℕ) (h : Host)
    (nearby : Finset Host) (net : Network Host ℕ ℝ) : Prop where
  inTime : net.now ≤ stop
  notOwn : hosts.nodeId h ∉ (net.daemons h).node.peers
  measured : (net.daemons h).node.measured = nearby.image hosts.nodeId
  short : ∀ p twist, (net.daemons h).node.twistLut.latest (hosts.nodeId h) p = some twist →
    twist.rttNanos ≤ rtt

theorem Steady.before {now : ℕ} (steady : Steady hosts offset wander stop) (early : now ≤ stop) :
    Steady hosts offset wander now :=
  ⟨fun h t past => steady.near h t (past.trans early),
    fun h t past => steady.early h t (past.trans early)⟩

/-- **What the table tells is the lead**, within half of the round trip. -/
theorem Network.Inv.told_near {net : Network Host ℕ ℝ} (inv : Network.Inv hosts net)
    (steady : Steady hosts offset wander stop) (injective : Function.Injective hosts.nodeId)
    (measures : net.Measures hosts stop rtt h nearby) {q : Host} (near : q ∈ nearby) :
    2 * |(net.daemons h).node.told (hosts.nodeId q) - lead hosts offset h q| ≤
      rtt + 8 * wander + 1 := by
  have own : (net.daemons h).node.nodeId = hosts.nodeId h := inv.sameNode h
  have listed : hosts.nodeId q ∈ (net.daemons h).node.measured :=
    measures.measured ▸ Finset.mem_image_of_mem _ near
  obtain ⟨twist, latest⟩ := NodeState.mem_measured.mp listed
  have held : twist ∈ ((net.daemons h).measuring.twistLut.get (net.daemons h).measuring.nodeId
      (hosts.nodeId q)).getD [] := by
    obtain ⟨history, found, last⟩ := Option.bind_eq_some_iff.mp latest
    have stored : (net.daemons h).measuring.twistLut.get (net.daemons h).measuring.nodeId
        (hosts.nodeId q) = some history := found
    rw [stored]
    exact List.mem_of_getLast? last
  obtain ⟨⟨q', named, accurate⟩, _⟩ := (inv.genuine h).accurate own
    (steady.before measures.inTime) (hosts.nodeId q) twist held
  obtain rfl : q' = q := injective named
  have short := measures.short _ twist (own ▸ latest)
  rw [NodeState.told_of_latest latest]
  unfold ahead at accurate
  unfold lead
  have sameError : |twist.offsetNanos - (if hosts.nodeId h ≤ hosts.nodeId q' then
      offset q' - offset h else offset h - offset q')| =
      |(if hosts.nodeId h ≤ hosts.nodeId q' then twist.offsetNanos else -twist.offsetNanos) -
        (offset q' - offset h)| := by
    split_ifs
    · rfl
    · rw [← abs_neg]
      congr 1
      ring
  rw [sameError]
  have shortInt : (twist.rttNanos : ℤ) ≤ rtt := by exact_mod_cast short
  linarith

/-- What the solves of such a daemon find. -/
theorem Network.Measures.surveys {net : Network Host ℕ ℝ}
    (measures : net.Measures hosts stop rtt h nearby) (inv : Network.Inv hosts net)
    (steady : Steady hosts offset wander stop) (injective : Function.Injective hosts.nodeId)
    (some : nearby.Nonempty) {bound : ℕ}
    (apart : ∀ q ∈ nearby, |offset q - offset h| + (rtt + 8 * wander + 1) ≤ (bound : ℤ))
    (few : nearby.card * (2 * bound) < 2 ^ 63) :
    Surveys (net.daemons h).node bound (Star.mean nearby fun q => (lead hosts offset h q : ℝ))
      ((rtt + 8 * wander + 1) / 2) := by
  have own : (net.daemons h).node.nodeId = hosts.nodeId h := inv.sameNode h
  have each : ∀ q ∈ nearby, |(((net.daemons h).node.told (hosts.nodeId q) : ℤ) : ℝ) -
      lead hosts offset h q| ≤ (rtt + 8 * wander + 1) / 2 := by
    intro q near
    have told := inv.told_near steady injective measures near
    have real : (2 : ℝ) * |(((net.daemons h).node.told (hosts.nodeId q) : ℤ) : ℝ) -
        lead hosts offset h q| ≤ rtt + 8 * wander + 1 := by exact_mod_cast told
    linarith
  refine ⟨own ▸ measures.notOwn, ?_, ?_, ?_, ?_⟩
  · rw [measures.measured]
    exact some.image _
  · intro p measured
    rw [measures.measured] at measured
    obtain ⟨q, near, rfl⟩ := Finset.mem_image.mp measured
    have told := inv.told_near steady injective measures near
    have far := apart q near
    have size : |lead hosts offset h q| = |offset q - offset h| := by
      unfold lead
      split_ifs
      · rfl
      · exact abs_sub_comm _ _
    have triangle := abs_sub_abs_le_abs_sub ((net.daemons h).node.told (hosts.nodeId q))
      (lead hosts offset h q)
    have nonneg := abs_nonneg ((net.daemons h).node.told (hosts.nodeId q) - lead hosts offset h q)
    linarith
  · rw [measures.measured, Finset.card_image_of_injective nearby injective]
    exact few
  · unfold NodeState.toldMean
    rw [measures.measured, Star.mean_image injective]
    exact Star.abs_mean_sub_le some each

namespace Network

variable {start : ℕ} {before after : List (Occurrence Host ℕ ℝ Scalar)}
  {outputs outputs' : List (List (Packet ℝ))} {net final : Network Host ℕ ℝ} {bound : ℕ}

end Network

end Steady

end Rtfsn.Daemon
