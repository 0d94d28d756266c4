/-
**What a daemon solves** in an epoch: a star.

The solver of an epoch holds the daemon, its peers, and the latest twist of each neighbour, which
the table holds oriented by the ids and the solver orients once more.

* `told`: what the table says of a peer, as it says it. `measured`: the peers it says something of.
* `Surveyed`, `Surveyed.step`: what a daemon has measured it knows, at quality 90.
* `epochSolver_star`: so the solver's network is a star, in which each peer belongs at what is told
  of it, whichever of the two ids is the larger.
* `solveAndAdvance_settles`: a solve takes the daemon half-way from its last offset to the negated
  mean of what is told.
-/
import Rtfsn.Daemon.Attribution
import Rtfsn.Holonomy.StarSolve
import Rtfsn.Sync.RawHistory

set_option linter.unusedSectionVars false

namespace Rtfsn.Daemon

variable {F Point Scalar : Type} [F64Coord F] [AddCommGroup Point] [CommRing Scalar]
  [Module Scalar Point] [DecidableEq Point] {curve : Ristretto Point Scalar} {hGenerator : Point}
  {blake3 : List UInt8 → Bytes32} {toLeBytes : F → List UInt8}

namespace NodeState

/-- What the table says of a peer, oriented as the table is. -/
def told (s : NodeState F) (p : NodeId) : ℤ :=
  ((s.twistLut.latest s.nodeId p).map TwistIndex.offsetNanos).getD 0

/-- The peers the daemon has measured. -/
def measured (s : NodeState F) : Finset NodeId :=
  ((s.ownTwists .asListed).map Prod.fst).toFinset

variable {s : NodeState F} {order : HashOrder (NodeId ×ₗ NodeId)}

theorem mem_ownTwists {p : NodeId} {twist : TwistIndex} :
    (p, twist) ∈ s.ownTwists order ↔ s.twistLut.latest s.nodeId p = some twist := by
  unfold ownTwists
  rw [List.mem_filterMap]
  constructor
  · rintro ⟨q, _, found⟩
    obtain ⟨_, latest, made⟩ := Option.map_eq_some_iff.mp found
    cases made
    exact latest
  · intro latest
    exact ⟨p, HolonomySolver.mem_neighbors latest, by rw [latest]; rfl⟩

theorem mem_measured {p : NodeId} :
    p ∈ s.measured ↔ ∃ twist, s.twistLut.latest s.nodeId p = some twist := by
  unfold measured
  rw [List.mem_toFinset, List.mem_map]
  constructor
  · rintro ⟨⟨_, twist⟩, listed, rfl⟩
    exact ⟨twist, mem_ownTwists.mp listed⟩
  · rintro ⟨twist, latest⟩
    exact ⟨(p, twist), mem_ownTwists.mpr latest, rfl⟩

theorem told_of_latest {p : NodeId} {twist : TwistIndex}
    (latest : s.twistLut.latest s.nodeId p = some twist) : s.told p = twist.offsetNanos := by
  rw [told, latest]
  rfl

theorem told_of_not_measured {p : NodeId} (not : p ∉ s.measured) : s.told p = 0 := by
  have none : s.twistLut.latest s.nodeId p = none :=
    Option.eq_none_iff_forall_ne_some.mpr fun twist found =>
      not (mem_measured.mpr ⟨twist, found⟩)
  rw [told, none]
  rfl

end NodeState

/-! ### What is measured is known -/

/-- What a daemon has measured it knows, at quality 90. -/
structure Surveyed (s : NodeState F) : Prop where
  known : ∀ p ∈ s.measured, p ∈ s.peers
  quality : ∀ p twist, s.twistLut.latest s.nodeId p = some twist → twist.quality = 90

section Surveyed

variable {s s' : NodeState F}

/-- Nothing is measured, and nothing forgotten. -/
theorem Surveyed.frame (surveyed : Surveyed s) (nodeId : s'.nodeId = s.nodeId)
    (twistLut : s'.twistLut = s.twistLut) (peers : ∀ p ∈ s.peers, p ∈ s'.peers) : Surveyed s' where
  known p measured := by
    rw [NodeState.mem_measured, nodeId, twistLut, ← NodeState.mem_measured] at measured
    exact peers p (surveyed.known p measured)
  quality p twist latest := by
    rw [nodeId, twistLut] at latest
    exact surveyed.quality p twist latest

theorem mem_insert_peers {peers : Std.ExtTreeMap NodeId SocketAddr} {p : NodeId} (q : NodeId)
    (addr : SocketAddr) (known : p ∈ peers) : p ∈ peers.insert q addr :=
  Std.ExtTreeMap.mem_insert.mpr (.inr known)

theorem mem_register {p : NodeId} (q : NodeId) (addr : SocketAddr)
    (known : p ∈ s.peers ∨ p = q) : p ∈ (s.register q addr).peers := by
  unfold NodeState.register
  dsimp only
  split_ifs with there
  · rcases known with before | rfl
    · exact before
    · exact Std.ExtTreeMap.mem_iff_contains.mpr there
  · rcases known with before | rfl
    · exact mem_insert_peers _ _ before
    · exact Std.ExtTreeMap.mem_insert_self

/-- **A response measures a peer that is known by then.** -/
theorem Surveyed.respond (surveyed : Surveyed s) (fromAddr : SocketAddr) (sender : NodeId)
    (t1 t2 t3 : UInt64) (epoch : Epoch) (t4 : UInt64) :
    Surveyed (s.handleTimeResponse fromAddr sender t1 t2 t3 epoch t4) := by
  unfold NodeState.handleTimeResponse
  split_ifs with answers
  · have latest (p : NodeId) : (s.twistLut.insert s.nodeId sender
        (NodeState.responseTwist t1 t2 t3 t4 epoch)).latest s.nodeId p =
          if p = sender then some (if s.nodeId ≤ sender then
            NodeState.responseTwist t1 t2 t3 t4 epoch
            else (NodeState.responseTwist t1 t2 t3 t4 epoch).reversed)
          else s.twistLut.latest s.nodeId p := by
      rw [TwistLUT.latest_insert]
      exact if_congr TwistLUT.edgeKey_inj rfl rfl
    constructor
    · intro p measured
      obtain ⟨twist, found⟩ := NodeState.mem_measured.mp measured
      refine mem_register sender fromAddr ?_
      by_cases same : p = sender
      · exact .inr same
      · exact .inl (surveyed.known p (NodeState.mem_measured.mpr
          ⟨twist, ((latest p).trans (if_neg same)).symm.trans found⟩))
    · intro p twist found
      have found := (latest p).symm.trans found
      split_ifs at found with same ordered
      · cases found
        rfl
      · cases found
        rfl
      · exact surveyed.quality p twist found
  · exact surveyed

theorem Surveyed.message (surveyed : Surveyed s) (fromAddr : SocketAddr)
    (message : ProtocolMessage F) (arrival departure : UInt64) :
    Surveyed (s.handleMessage curve blake3 fromAddr message arrival departure).2 := by
  cases message with
  | peerAnnounce nodeId listenPort =>
    exact surveyed.frame rfl rfl fun p known => mem_insert_peers _ _ known
  | timeRequest sender t1 epoch =>
    exact surveyed.frame rfl rfl fun p known => mem_register _ _ (.inl known)
  | timeResponse sender t1 t2 t3 epoch => exact surveyed.respond _ _ _ _ _ _ _
  | beacon data epoch => exact surveyed.frame rfl rfl fun _ known => known
  | other => exact surveyed

/-- **Every step keeps it.** -/
theorem Surveyed.step {d d' : State F} {event : Event F Scalar} {packets : List (Packet F)}
    (surveyed : Surveyed d.node)
    (goes : d.step curve hGenerator blake3 toLeBytes event = some (packets, d')) :
    Surveyed d'.node := by
  cases event with
  | begin =>
    obtain ⟨_, _, rfl⟩ := State.begin_iff.mp goes
    exact surveyed.frame rfl rfl fun _ known => known
  | request peer t1 =>
    obtain ⟨_, _, _, _, _, rfl⟩ := State.request_iff.mp goes
    exact surveyed.frame rfl rfl fun _ known => known
  | send =>
    obtain ⟨_, _, _, _, _, _, rfl⟩ := State.send_iff.mp goes
    exact surveyed
  | solve chance =>
    obtain ⟨_, _, _, _, rfl⟩ := State.solve_iff.mp goes
    obtain ⟨_, published⟩ := NodeState.buildAndPublishBeacon_snd curve blake3
      (d.node.solveAndAdvance d.epoch chance).2 d.epoch chance
    rw [published]
    exact surveyed.frame rfl rfl fun _ known => known
  | publish =>
    obtain ⟨_, _, rfl, _⟩ := State.publish_iff.mp goes
    exact surveyed
  | tick order blindings now =>
    obtain ⟨_, _, _, ticked, _, _, rfl⟩ := State.tick_iff.mp goes
    obtain ⟨_, _, rfl⟩ := NodeState.runGeoidAndEmitTick_eq ticked
    exact surveyed.frame rfl rfl fun _ known => known
  | receive fromAddr message arrival departure =>
    cases goes
    exact surveyed.message fromAddr message arrival departure

end Surveyed

/-! ### The solver of an epoch -/

namespace NodeState

section Solver

variable {solver : HolonomySolver F} {own : NodeId} {twists : List (NodeId × TwistIndex)}

/-- The edges of the twists added. -/
theorem mem_addMeasurements (own : NodeId) (twists : List (NodeId × TwistIndex))
    (solver : HolonomySolver F) {key : NodeId ×ₗ NodeId} :
    key ∈ (twists.foldl (fun solver t => solver.addMeasurement own t.1 t.2) solver).lut.entries ↔
      key ∈ solver.lut.entries ∨ ∃ t ∈ twists, key = toLex (TwistLUT.edgeKey own t.1) := by
  induction twists generalizing solver with
  | nil => simp
  | cons t rest ih =>
    rw [List.foldl_cons, ih]
    have added : key ∈ (solver.addMeasurement own t.1 t.2).lut.entries ↔
        key = toLex (TwistLUT.edgeKey own t.1) ∨ key ∈ solver.lut.entries := by
      show key ∈ solver.lut.entries.insert _ _ ↔ _
      rw [Std.ExtTreeMap.mem_insert, Std.LawfulEqCmp.compare_eq_iff_eq, eq_comm]
    rw [added, or_assoc, or_left_comm, List.exists_mem_cons_iff]

/-- **The latest of the twists added** is turned where the own id is the larger. -/
theorem latest_addMeasurements (given : NodeId → TwistIndex)
    (all : ∀ t ∈ twists, t.2 = given t.1) {p : NodeId} (listed : p ∈ twists.map Prod.fst) :
    (twists.foldl (fun solver t => solver.addMeasurement own t.1 t.2) solver).lut.latest own p =
      some (if own ≤ p then given p else (given p).reversed) := by
  induction twists using List.reverseRecOn with
  | nil => cases listed
  | append_singleton twists t ih =>
    obtain ⟨before, last⟩ := List.forall_mem_append.mp all
    rw [List.foldl_append]
    show (TwistLUT.insert _ own t.1 t.2).latest own p = _
    rw [TwistLUT.latest_insert, if_congr TwistLUT.edgeKey_inj rfl rfl]
    by_cases same : p = t.1
    · rw [if_pos same, last t (List.mem_singleton.mpr rfl), same]
    · rw [if_neg same]
      refine ih before ?_
      simpa [same] using listed

theorem nodes_addMeasurements (own : NodeId) (twists : List (NodeId × TwistIndex))
    (solver : HolonomySolver F) :
    (twists.foldl (fun solver t => solver.addMeasurement own t.1 t.2) solver).nodes =
        solver.nodes ∧
      (twists.foldl (fun solver t => solver.addMeasurement own t.1 t.2) solver).damping =
        solver.damping := by
  induction twists generalizing solver with
  | nil => exact ⟨rfl, rfl⟩
  | cons t rest ih => exact ih (solver.addMeasurement own t.1 t.2)

theorem addNodes_known (keys : List NodeId) (frame : ChiralFrame) (solver : HolonomySolver F) :
    (keys.foldl (fun solver k => solver.addNode k frame) solver).damping = solver.damping ∧
      ∀ id ∈ keys,
        (keys.foldl (fun solver k => solver.addNode k frame) solver).nodes[id]? = some frame := by
  induction keys generalizing solver with
  | nil => exact ⟨rfl, fun id listed => by cases listed⟩
  | cons k keys ih =>
    obtain ⟨damping, known⟩ := ih (solver.addNode k frame)
    refine ⟨damping, fun id listed => ?_⟩
    by_cases later : id ∈ keys
    · exact known id later
    · rw [List.foldl_cons, (foldl_addNode keys frame _).2 id later]
      obtain rfl : id = k := by simpa [later] using listed
      exact Std.ExtTreeMap.getElem?_insert_self

end Solver

variable {s : NodeState F} {order : HashOrder (NodeId ×ₗ NodeId)}

/-- The frames of the solver. -/
theorem epochSolver_nodes (s : NodeState F) (notOwn : s.nodeId ∉ s.peers)
    (twists : List (NodeId × TwistIndex)) :
    (s.epochSolver twists).damping = F64.lit 0.3 ∧
      (s.epochSolver twists).nodes[s.nodeId]? = some (.new s.lastOffsetNanos s.lastDriftPpb 90) ∧
      (∀ p ∈ s.peers, (s.epochSolver twists).nodes[p]? = some (.new 0 0 50)) ∧
      ∀ id frame, (s.epochSolver twists).nodes[id]? = some frame →
        id = s.nodeId ∨ id ∈ s.peers := by
  unfold epochSolver
  dsimp only
  obtain ⟨nodes, damping⟩ := nodes_addMeasurements s.nodeId twists
    (s.peers.keys.foldl (fun solver peerId => solver.addNode peerId (.new 0 0 50))
      ((HolonomySolver.new : HolonomySolver F).addNode s.nodeId
        (.new s.lastOffsetNanos s.lastDriftPpb 90)))
  obtain ⟨damping', known⟩ := addNodes_known s.peers.keys (.new 0 0 50)
    ((HolonomySolver.new : HolonomySolver F).addNode s.nodeId
      (.new s.lastOffsetNanos s.lastDriftPpb 90))
  have others := (foldl_addNode s.peers.keys (.new 0 0 50)
    ((HolonomySolver.new : HolonomySolver F).addNode s.nodeId
      (.new s.lastOffsetNanos s.lastDriftPpb 90))).2
  rw [nodes, damping, damping']
  refine ⟨rfl, ?_, fun p listed => known p (Std.ExtTreeMap.mem_keys.mpr listed), ?_⟩
  · rw [others s.nodeId fun listed => notOwn (Std.ExtTreeMap.mem_keys.mp listed)]
    exact Std.ExtTreeMap.getElem?_insert_self
  · intro id frame found
    by_cases listed : id ∈ s.peers
    · exact .inr listed
    · rw [others id fun key => listed (Std.ExtTreeMap.mem_keys.mp key)] at found
      by_cases same : id = s.nodeId
      · exact .inl same
      · have none : ((∅ : Std.ExtTreeMap NodeId ChiralFrame).insert s.nodeId
            (.new s.lastOffsetNanos s.lastDriftPpb 90))[id]? = none := by
          rw [Maps.getElem?_insert_of_ne (Ne.symm same), Std.ExtTreeMap.getElem?_empty]
        cases none.symm.trans found

/-- The edges of the solver. -/
theorem epochSolver_edges (s : NodeState F) {key : NodeId ×ₗ NodeId} :
    key ∈ (s.epochSolver (s.ownTwists order)).lut.entries ↔
      ∃ p ∈ s.measured, key = toLex (TwistLUT.edgeKey s.nodeId p) := by
  unfold epochSolver
  dsimp only
  rw [mem_addMeasurements, (foldl_addNode _ _ _).1]
  constructor
  · rintro (none | ⟨⟨p, twist⟩, listed, rfl⟩)
    · exact absurd none Std.ExtTreeMap.not_mem_empty
    · exact ⟨p, mem_measured.mpr ⟨twist, mem_ownTwists.mp listed⟩, rfl⟩
  · rintro ⟨p, measured, rfl⟩
    obtain ⟨twist, latest⟩ := mem_measured.mp measured
    exact .inr ⟨(p, twist), mem_ownTwists.mpr latest, rfl⟩

variable (order) in
/-- What the solver reads of a peer: the table's twist, turned where the own id is the larger. -/
theorem epochSolver_latest {p : NodeId} {twist : TwistIndex}
    (latest : s.twistLut.latest s.nodeId p = some twist) :
    (s.epochSolver (s.ownTwists order)).lut.latest s.nodeId p =
      some (if s.nodeId ≤ p then twist else twist.reversed) := by
  have given : (s.twistLut.latest s.nodeId p).getD twist = twist := by
    rw [latest]
    rfl
  rw [← given]
  refine latest_addMeasurements (fun q => (s.twistLut.latest s.nodeId q).getD twist)
    (fun t listed => ?_) (List.mem_map.mpr ⟨(p, twist), mem_ownTwists.mpr latest, rfl⟩)
  obtain ⟨q, twist'⟩ := t
  rw [mem_ownTwists.mp listed]
  rfl

/-! ### The star -/

section Star

variable {s : NodeState ℝ} {order : HashOrder (NodeId ×ₗ NodeId)} {bound : ℕ}

/-- Where a node belongs in the solver: the daemon at zero, a peer at what is told of it. -/
def place (s : NodeState ℝ) (id : NodeId) : ℤ := if id = s.nodeId then 0 else s.told id

variable (order) in
/-- **The solver's network is a star**, in place at what the table says. -/
theorem epochSolver_star (surveyed : Surveyed s) (notOwn : s.nodeId ∉ s.peers)
    (bounded : ∀ p ∈ s.measured, |s.told p| ≤ bound) (small : bound < 2 ^ 60) :
    (s.epochSolver (s.ownTwists order)).Star s.nodeId s.measured s.place := by
  obtain ⟨damping, hub, peers, _⟩ := s.epochSolver_nodes notOwn (s.ownTwists order)
  have other (p : NodeId) (measured : p ∈ s.measured) : p ≠ s.nodeId := fun same =>
    notOwn (same ▸ surveyed.known p measured)
  have fits : (bound : ℤ) < 2 ^ 60 := by exact_mod_cast small
  refine ⟨damping, by rw [hub]; rfl, fun p measured => ?_, fun measured => other _ measured rfl,
    fun key => s.epochSolver_edges, fun p measured => ?_, ?_, ?_⟩
  · rw [peers p (surveyed.known p measured)]
    rfl
  · obtain ⟨twist, latest⟩ := mem_measured.mp measured
    refine ⟨_, epochSolver_latest order latest, ?_⟩
    split_ifs
    · exact surveyed.quality p twist latest
    · exact surveyed.quality p twist latest
  · -- An edge of the solver is one of the daemon's.
    intro a b read ordered latest
    have listed : toLex (TwistLUT.edgeKey a b) ∈
        (s.epochSolver (s.ownTwists order)).lut.entries := by
      unfold TwistLUT.latest TwistLUT.get at latest
      obtain ⟨_, found, _⟩ := Option.bind_eq_some_iff.mp latest
      rw [Std.ExtTreeMap.mem_iff_isSome_getElem?, found]
      rfl
    obtain ⟨p, measured, key⟩ := s.epochSolver_edges.mp listed
    have sameEdge : TwistLUT.edgeKey a b = TwistLUT.edgeKey s.nodeId p := toLex_inj.mp key
    obtain ⟨twist, found⟩ := mem_measured.mp measured
    have ofEdge := epochSolver_latest order found
    unfold TwistLUT.latest TwistLUT.get at latest ofEdge
    rw [sameEdge, ofEdge, Option.some.injEq] at latest
    have told := told_of_latest found
    have far := bounded p measured
    rw [TwistLUT.edgeKey_of_le ordered] at sameEdge
    unfold place
    rw [← latest]
    by_cases smaller : s.nodeId ≤ p
    · rw [TwistLUT.edgeKey_of_le smaller] at sameEdge
      obtain ⟨rfl, rfl⟩ := Prod.mk.inj sameEdge
      rw [if_pos smaller, if_neg (other b measured), if_pos rfl, told, sub_zero]
    · rw [TwistLUT.edgeKey_of_not_le smaller] at sameEdge
      obtain ⟨rfl, rfl⟩ := Prod.mk.inj sameEdge
      rw [told, abs_le] at far
      rw [if_neg smaller, if_pos rfl, if_neg (other a measured), told, zero_sub,
        TwistIndex.reversed, TwistIndex.saturatingNeg, if_neg (by linarith)]
  · intro id frame _
    unfold place
    split_ifs with own
    · norm_num
    · by_cases measured : id ∈ s.measured
      · exact (bounded id measured).trans_lt fits
      · rw [told_of_not_measured measured]
        norm_num

variable (order) in
/-- How far the frames of the solver are from their places at first. -/
theorem epochSolver_errors (notOwn : s.nodeId ∉ s.peers)
    (bounded : ∀ p ∈ s.measured, |s.told p| ≤ bound) (last : |s.lastOffsetNanos| ≤ bound) :
    (s.epochSolver (s.ownTwists order)).ErrorsWithin s.place (-bound) bound ∧
      (s.epochSolver (s.ownTwists order)).errorOf s.place s.nodeId = s.lastOffsetNanos ∧
      ∀ p ∈ s.peers, (s.epochSolver (s.ownTwists order)).errorOf s.place p = -s.told p := by
  obtain ⟨_, hub, peers, known⟩ := s.epochSolver_nodes notOwn (s.ownTwists order)
  have ownError : (s.epochSolver (s.ownTwists order)).errorOf s.place s.nodeId =
      s.lastOffsetNanos := by
    rw [HolonomySolver.errorOf_of_known hub, place, if_pos rfl, sub_zero]
    rfl
  have peerError (p : NodeId) (listed : p ∈ s.peers) :
      (s.epochSolver (s.ownTwists order)).errorOf s.place p = -s.told p := by
    have other : p ≠ s.nodeId := fun same => notOwn (same ▸ listed)
    rw [HolonomySolver.errorOf_of_known (peers p listed), place, if_neg other]
    exact zero_sub _
  refine ⟨fun id frame found => ?_, ownError, peerError⟩
  rw [← abs_le, ← HolonomySolver.errorOf_of_known found]
  rcases known id frame found with rfl | listed
  · rw [ownError]
    exact last
  · rw [peerError id listed, abs_neg]
    by_cases measured : id ∈ s.measured
    · exact bounded id measured
    · rw [told_of_not_measured measured, abs_zero]
      exact Int.natCast_nonneg bound

/-- The mean of what is told of the peers measured. -/
noncomputable def toldMean (s : NodeState ℝ) : ℝ :=
  Star.mean s.measured fun p => (s.told p : ℝ)

/-- **A solve takes the daemon half-way** from its last offset to the negated mean of what is told,
and converges. -/
theorem solveAndAdvance_settles {Scalar : Type} [CommRing Scalar] (surveyed : Surveyed s)
    (notOwn : s.nodeId ∉ s.peers) (someMeasured : s.measured.Nonempty)
    (bounded : ∀ p ∈ s.measured, |s.told p| ≤ bound) (last : |s.lastOffsetNanos| ≤ bound)
    (small : bound < 2 ^ 60) (few : s.measured.card * (2 * bound) < 2 ^ 63) (epoch : Epoch)
    (chance : Chance ℝ Scalar) :
    (s.solveAndAdvance epoch chance).1.converged = true ∧
      |(s.solveAndAdvance epoch chance).1.offsetNanos| ≤ bound ∧
      |2 * ((s.solveAndAdvance epoch chance).1.offsetNanos : ℝ) -
        (s.lastOffsetNanos - s.toldMean)| ≤ 678 := by
  have star := epochSolver_star chance.lutOrder surveyed notOwn bounded small
  obtain ⟨within, ownError, peerError⟩ :=
    epochSolver_errors chance.lutOrder notOwn bounded last
  obtain ⟨converged, starEnd, withinEnd, settles⟩ := star.solve_settles chance.nodeOrder
    chance.edgeOrder someMeasured within small.le few
  obtain ⟨frame, found⟩ := Option.isSome_iff_exists.mp starEnd.hub
  have offset : (s.solveAndAdvance epoch chance).1.offsetNanos = frame.offsetNanos := by
    show ((((s.epochSolver (s.ownTwists chance.lutOrder)).solve chance.nodeOrder chance.edgeOrder
      500 1000).1.nodes[s.nodeId]?).map fun f => f.offsetNanos).getD s.lastOffsetNanos = _
    rw [found]
    rfl
  have atZero : s.place s.nodeId = 0 := if_pos rfl
  have mean : Star.mean s.measured (fun p =>
      (((s.epochSolver (s.ownTwists chance.lutOrder)).errorOf s.place p : ℤ) : ℝ)) =
        -s.toldMean := by
    unfold toldMean Star.mean
    rw [← neg_div, ← Finset.sum_neg_distrib]
    refine congrArg (· / _) (Finset.sum_congr rfl fun p measured => ?_)
    dsimp only
    rw [peerError p (surveyed.known p measured), Int.cast_neg]
  refine ⟨converged, ?_, ?_⟩
  · have between := withinEnd s.nodeId frame found
    rw [atZero, sub_zero, ← abs_le] at between
    rw [offset]
    exact between
  · rw [HolonomySolver.errorOf_of_known found, atZero, sub_zero, ownError, mean,
      ← sub_eq_add_neg] at settles
    rw [offset]
    exact settles

end Star

end NodeState

end Rtfsn.Daemon
