/-
**A consistent liar is invisible and merely shifted**, in exact reals.

* `EdgeEstimate.shift`: an edge whose two ends shift their clocks.
* `Coshifted`: the network of shifted edges. When no edge drifts, a reading does not depend on the
  instant, so one pass already gives the shifted offsets (`offset_shift`).
* `step_shift`: the merged reading of a pair moves by the difference of the shifts, and these
  differences cancel around a cycle (`around_shift`).
* `solveFrame_coboundary`: nothing in the frame moves but the offsets.
-/
import Rtfsn.Sync.Holonomy

namespace Rtfsn

variable {n : ℕ}

/-- The edge as it reads when each node's clock is ahead by `c`. -/
noncomputable def EdgeEstimate.shift (c : NodeId → ℝ) (e : EdgeEstimate ℝ) : EdgeEstimate ℝ :=
  { e with
    relation :=
      { e.relation with offsetNs := e.relation.offsetNs + (c e.toNode - c e.fromNode) } }

noncomputable def Placed.shift (c : NodeId → ℝ) (p : Placed ℝ n) : Placed ℝ n :=
  { p with edge := p.edge.shift c }

/-- Neither the rate nor its spread moves the reading. -/
def EdgeEstimate.Still (e : EdgeEstimate ℝ) : Prop :=
  e.relation.drift = 0 ∧ e.relation.sigmaDrift = 0

namespace Network

/-- The network of the shifted edges. -/
structure Coshifted (c : NodeId → ℝ) (name : Fin n → NodeId) (net net' : Network ℝ n) : Prop where
  r : net'.r = net.r
  me : net'.me = net.me
  atNs : net'.atNs = net.atNs
  placed : net'.placed = net.placed.map (Placed.shift c)
  ends : ∀ p ∈ net.placed, name p.a = p.edge.fromNode ∧ name p.b = p.edge.toNode
  still : ∀ p ∈ net.placed, p.edge.Still

namespace Coshifted

variable {c : NodeId → ℝ} {name : Fin n → NodeId} {net net' : Network ℝ n}

theorem component (shifted : Coshifted c name net net') : net'.component = net.component := by
  have adjacency_eq : adjacency net'.placed = adjacency net.placed := by
    rw [shifted.placed, adjacency, List.foldl_map]
    rfl
  have neighbours_eq : net'.neighbours = net.neighbours := by
    funext u
    rw [neighbours, neighbours, adjacency_eq]
  rw [Network.component, Network.component, neighbours_eq, shifted.r]

theorem members (shifted : Coshifted c name net net') : net'.members = net.members := by
  rw [Network.members, Network.members, shifted.component]

theorem inside (shifted : Coshifted c name net net') :
    net'.inside = net.inside.map (Placed.shift c) := by
  rw [Network.inside, Network.inside, shifted.placed, shifted.members, List.filter_map]
  rfl

theorem instantMapped (shifted : Coshifted c name net net') :
    net'.instantMapped = net.instantMapped := by
  rw [Network.instantMapped, Network.instantMapped, shifted.members, shifted.me]

theorem driftObs (shifted : Coshifted c name net net') : net'.driftObs = net.driftObs := by
  rw [Network.driftObs, Network.driftObs, shifted.inside, List.map_map]
  rfl

theorem logRate (shifted : Coshifted c name net net') :
    net'.logRate = net.logRate ∧ net'.sigmaLogRate = net.sigmaLogRate := by
  unfold Network.logRate Network.sigmaLogRate
  rw [shifted.driftObs, shifted.members, shifted.r]
  exact ⟨rfl, rfl⟩

/-- A still edge reads the same at every instant. -/
theorem still_reading (rel : Relation ℝ) (drift : rel.drift = 0) (sigmaDrift : rel.sigmaDrift = 0)
    (instant instant' : ℝ) :
    rel.offsetAt instant = rel.offsetNs ∧ rel.sigmaAt instant = rel.sigmaAt instant' := by
  simp [Relation.offsetAt, Relation.sigmaAt, drift, sigmaDrift]

/-- **A shifted edge's reading**, at whatever instants. -/
theorem offsetOb_shift (shifted : Coshifted c name net net') (o o' : Fin n → ℝ) {p : Placed ℝ n}
    (member : p ∈ net.placed) : net'.offsetOb o' (p.shift c) =
      { net.offsetOb o p with
        m := (net.offsetOb o p).m + (c (name p.b) - c (name p.a)) } := by
  obtain ⟨drift, sigmaDrift⟩ := shifted.still p member
  obtain ⟨nameA, nameB⟩ := shifted.ends p member
  have before := still_reading p.edge.relation drift sigmaDrift (net.readAt o p) (net.readAt o p)
  have after := still_reading (p.edge.shift c).relation drift sigmaDrift
    (net'.readAt o' (p.shift c)) (net.readAt o p)
  simp only [offsetOb, Placed.shift, Obs.mk.injEq, true_and]
  refine ⟨?_, ?_⟩
  · rw [before.1, nameA, nameB]
    exact after.1
  · exact congrArg (F64.max · minSigmaNs) after.2

/-- The readings of the last pass, shifted one by one. -/
theorem obs_shift (shifted : Coshifted c name net net') : net'.reading.obs =
    net.reading.obs.map fun o => { o with m := o.m + (c (name o.b) - c (name o.a)) } := by
  rw [reading_obs, reading_obs, shifted.inside, List.map_map, List.map_map]
  exact List.map_congr_left fun p member =>
    shifted.offsetOb_shift net.settling net'.settling (mem_inside.mp member).1

/-- **The offsets move by the shift**, seen from the reference, with the same spread. -/
theorem offset_shift (shifted : Coshifted c name net net') :
    (∀ i ∈ net.members, net'.reading.offset i =
      net.reading.offset i + (c (name i) - c (name net.r))) ∧
    net'.reading.sigma = net.reading.sigma := by
  constructor
  · intro i member
    have fits : net.Fits _ (net.solve _) := solve_fits (reads_offsetOb net net.settling)
    have moved : net'.Fits (net'.offsetOb net'.settling)
        fun i => net.reading.offset i + c (name i) := by
      unfold Fits at fits ⊢
      rw [shifted.inside, List.map_map, List.map_map]
      rw [List.map_map] at fits
      refine fits.map_congr fun p inside => ?_
      have reading := shifted.offsetOb_shift net.settling net'.settling (mem_inside.mp inside).1
      simp only [Function.comp_apply, reading]
      refine ⟨rfl, rfl, rfl, ?_⟩
      rw [← reading_offset]
      simp only [LeastSquares.Measurement.misfit, Obs.measurement, offsetOb]
      ring
    rw [reading_offset net', solve_eq (reads_offsetOb net' _) moved (shifted.members ▸ member),
      shifted.r, reading_offset net, solve_root (reads_offsetOb net _)]
    ring
  · have lists := laplacianSolve_sigma net.r net.members net.inside
      (fun p => net'.offsetOb net'.settling (p.shift c)) (net.offsetOb net.settling)
      fun p inside => by
        rw [shifted.offsetOb_shift net.settling net'.settling (mem_inside.mp inside).1]
        exact ⟨rfl, rfl, rfl⟩
    have sigma : ∀ net : Network ℝ n, net.reading.sigma =
      (laplacianSolve net.r net.members (net.inside.map (net.offsetOb net.settling))).2 :=
      fun _ => rfl
    rw [sigma, sigma, shifted.inside, List.map_map, shifted.r, shifted.members]
    exact lists

/-- **The residuals do not move.** -/
theorem residuals (shifted : Coshifted c name net net') : net'.residuals = net.residuals := by
  rw [residuals_eq, residuals_eq, shifted.inside, List.map_map]
  refine List.map_congr_left fun p inside => ?_
  have reading := shifted.offsetOb_shift net.settling net'.settling (mem_inside.mp inside).1
  obtain ⟨memberA, memberB⟩ := inside_ends inside
  have offset : net'.reading.offset p.b - net'.reading.offset p.a =
      net.reading.offset p.b - net.reading.offset p.a + (c (name p.b) - c (name p.a)) := by
    rw [shifted.offset_shift.1 _ memberA, shifted.offset_shift.1 _ memberB]
    ring
  have misfit : ∀ m : ℝ, m + (c (name p.b) - c (name p.a)) -
      (net'.reading.offset p.b - net'.reading.offset p.a) =
      m - (net.reading.offset p.b - net.reading.offset p.a) := fun m => by
    rw [offset]
    ring
  simp only [Function.comp, residual, reading, shifted.logRate.1]
  simp only [offsetOb, misfit, Placed.shift, Placed.driftOb, EdgeEstimate.shift]

/-! ### Cycles -/

theorem measured_iff (shifted : Coshifted c name net net') {u v : Fin n} :
    net'.Measured u v ↔ net.Measured u v := by
  rw [Measured, Measured, shifted.inside]
  simp only [List.mem_map, exists_exists_and_eq_and]
  rfl

theorem loopless (shifted : Coshifted c name net net') (loopless : net.Loopless) :
    net'.Loopless := by
  intro p member
  rw [shifted.placed] at member
  obtain ⟨q, placed, rfl⟩ := List.mem_map.mp member
  exact loopless q placed

/-- The same pairs are merged, in the same order. -/
theorem keys (shifted : Coshifted c name net net') (loopless : net.Loopless) :
    net'.pairs.keys = net.pairs.keys := by
  have same : ∀ key, key ∈ net'.pairs.keys ↔ key ∈ net.pairs.keys := by
    intro key
    rw [Std.ExtTreeMap.mem_keys, Std.ExtTreeMap.mem_keys]
    constructor
    · intro merged
      obtain ⟨u, v, rfl, below, measured⟩ := exists_pair (shifted.loopless loopless) merged
      exact (mem_pairs_of_lt below).mpr (shifted.measured_iff.mp measured)
    · intro merged
      obtain ⟨u, v, rfl, below, measured⟩ := exists_pair loopless merged
      exact (mem_pairs_of_lt below).mpr (shifted.measured_iff.mpr measured)
  have permuted : net'.pairs.keys.Perm net.pairs.keys :=
    (List.perm_ext_iff_of_nodup net'.pairs.nodup_keys net.pairs.nodup_keys).mpr same
  refine permuted.eq_of_pairwise (fun a b _ _ first second => ?_) net'.pairs.ordered_keys
    net.pairs.ordered_keys
  have swap : compare a b = (compare b a).swap := Std.OrientedCmp.eq_swap
  rw [swap, second] at first
  cases first

theorem chords (shifted : Coshifted c name net net') (loopless : net.Loopless) :
    net'.chords = net.chords := by
  unfold Network.chords Network.isTreePair
  rw [shifted.keys loopless, shifted.component]

theorem cycleNodes (shifted : Coshifted c name net net') (u v : Fin n) :
    net'.cycleNodes u v = net.cycleNodes u v := by
  unfold Network.cycleNodes Network.depth
  rw [shifted.component]

theorem step_shift (shifted : Coshifted c name net net') (loopless : net.Loopless) {u v : Fin n}
    (measured : net.Measured u v) : net'.step u v =
      { net.step u v with offset := (net.step u v).offset + (c (name v) - c (name u)) } := by
  have distinct := measured.ne loopless
  obtain ⟨weight, mean⟩ := mergedMean_shift net.reading.obs (fun i => c (name i)) distinct
    (pairWeight_pos (reads_offsetOb net net.settling) measured).ne'
  rw [step_eq (shifted.measured_iff.mpr measured) distinct, step_eq measured distinct,
    shifted.obs_shift, weight, mean, shifted.driftObs]

/-- The shifts cancel around a closed walk. -/
theorem around_shift (shifted : Coshifted c name net net') (loopless : net.Loopless)
    {nodes : List (Fin n)} (measured : ∀ p ∈ Tree.closedPairs nodes, net.Measured p.1 p.2) :
    net'.around nodes = net.around nodes := by
  have sums : ∀ (l : List (Fin n × Fin n)) (_ : ∀ p ∈ l, net.Measured p.1 p.2) (s : Step ℝ) (δ : ℝ),
      l.foldl (fun s p => s.add (net'.step p.1 p.2)) { s with offset := s.offset + δ } =
        { l.foldl (fun s p => s.add (net.step p.1 p.2)) s with
          offset := (l.foldl (fun s p => s.add (net.step p.1 p.2)) s).offset +
            (δ + (l.map fun p => c (name p.2) - c (name p.1)).sum) } := by
    intro l
    induction l with
    | nil => simp
    | cons p l ih =>
      intro along s δ
      have first : Step.add { s with offset := s.offset + δ } (net'.step p.1 p.2) =
          { s.add (net.step p.1 p.2) with
            offset := (s.add (net.step p.1 p.2)).offset +
              (δ + (c (name p.2) - c (name p.1))) } := by
        rw [shifted.step_shift loopless (along p List.mem_cons_self)]
        simp only [Step.add, Step.mk.injEq, and_self, and_true]
        ring
      rw [List.foldl_cons, List.foldl_cons, first,
        ih (fun q member => along q (List.mem_cons_of_mem _ member)), List.map_cons, List.sum_cons,
        ← add_assoc δ]
  have total := sums (Tree.closedPairs nodes) measured Step.zero 0
  rw [Tree.sum_closedPairs nodes fun i => c (name i), add_zero, add_zero, add_zero] at total
  exact total

/-- **The defects do not move.** -/
theorem defects (shifted : Coshifted c name net net') (loopless : net.Loopless)
    {nodes nodes' : Fin n ×ₗ Fin n → List (Fin n)} (cycles : net.Cycles nodes)
    (cycles' : net'.Cycles nodes') : net'.defects name nodes' = net.defects name nodes := by
  rw [Network.defects, Network.defects, shifted.chords loopless]
  refine List.map_congr_left fun key chord => ?_
  have same : nodes' key = nodes key := by
    have stitched := cycles'.stitched key (shifted.chords loopless ▸ chord)
    rw [shifted.cycleNodes, cycles.stitched key chord] at stitched
    exact (Option.some.inj stitched).symm
  obtain ⟨u, v, rfl, _, measured, _⟩ := (mem_chords loopless).mp chord
  rw [same, shifted.around_shift loopless ((cycles.fundamental u v chord).measured measured)]

end Coshifted

end Network

/-! ### By ids -/

theorem frameIds_shift (c : NodeId → ℝ) (solver reference : NodeId)
    (edges : List (EdgeEstimate ℝ)) :
    frameIds solver reference (edges.map (EdgeEstimate.shift c)) =
      frameIds solver reference edges := by
  rw [frameIds, List.foldl_map]
  rfl

theorem place_shift (c : NodeId → ℝ) (ids : List NodeId) (e : EdgeEstimate ℝ) :
    place ids (e.shift c) = (place ids e).map (Placed.shift c) := by
  simp only [place, EdgeEstimate.shift]
  cases index ids e.fromNode <;> cases index ids e.toNode <;> rfl

/-- The network of shifted edges is the shifted network. -/
theorem Solves.coshifted {solver reference : NodeId} {atNs : ℕ} {edges : List (EdgeEstimate ℝ)}
    {ids : List NodeId} {net net' : Network ℝ ids.length} {frame frame' : NetworkFrame ℝ}
    (c : NodeId → ℝ) (still : ∀ e ∈ edges, e.Still)
    (solves : Solves solver reference atNs edges ids net frame)
    (solves' : Solves solver reference atNs (edges.map (EdgeEstimate.shift c)) ids net' frame') :
    Network.Coshifted c ids.get net net' := by
  obtain ⟨placed, r, me, instant⟩ := network_eq_some solves.numbered
  obtain ⟨placed', r', me', instant'⟩ := network_eq_some solves'.numbered
  refine ⟨Option.some.inj (r'.symm.trans r), Option.some.inj (me'.symm.trans me),
    instant'.trans instant.symm, ?_, solves.places.ends,
    fun p member => still _ (solves.places.usable member).1⟩
  have usable : (edges.map (EdgeEstimate.shift c)).filter EdgeEstimate.usable =
      (edges.filter EdgeEstimate.usable).map (EdgeEstimate.shift c) := by
    rw [List.filter_map]
    rfl
  rw [usable, Loop.mapM_map_comm (place_shift c ids), placed] at placed'
  exact (Option.some.inj placed').symm

/-- **A consistent liar is invisible and merely shifted.** When no edge drifts, shifting every
node's clock by `c` moves its offset by `c` less the reference's, and leaves everything else in the
frame as it was: the members, their spreads, every residual, every cycle. -/
theorem solveFrame_coboundary (solver reference : NodeId) (atNs : ℕ)
    (edges : List (EdgeEstimate ℝ)) (still : ∀ e ∈ edges, e.Still) (c : NodeId → ℝ) :
    ∃ frame frame', solveFrame solver reference atNs edges = some frame ∧
      solveFrame solver reference atNs (edges.map (EdgeEstimate.shift c)) = some frame' ∧
      frame'.nodes = frame.nodes.map (fun node =>
        { node with offsetNs := node.offsetNs + (c node.id - c reference) }) ∧
      frame'.edges = frame.edges ∧ frame'.rmsOffsetNs = frame.rmsOffsetNs ∧
      frame'.rmsDrift = frame.rmsDrift ∧ frame'.cycles = frame.cycles := by
  obtain ⟨net, frame, solves⟩ := exists_solves solver reference atNs edges
  obtain ⟨net', frame', solves'⟩ : ∃ net' frame', Solves solver reference atNs
      (edges.map (EdgeEstimate.shift c)) (frameIds solver reference edges) net' frame' := by
    rw [← frameIds_shift c]
    exact exists_solves solver reference atNs _
  have shifted := solves.coshifted c still solves'
  obtain ⟨nodes, cycles, rfl⟩ := solves.parts
  obtain ⟨nodes', cycles', rfl⟩ := solves'.parts
  obtain ⟨offset, sigma⟩ := shifted.offset_shift
  obtain ⟨rate, sigmaRate⟩ := shifted.logRate
  refine ⟨_, _, solves.solved, solves'.solved, ?_, ?_, ?_, ?_, ?_⟩
  · simp only [Network.assemble, shifted.component, List.map_map]
    refine List.map_congr_left fun i listed => ?_
    simp only [Function.comp, Network.nodeFrame, rate, sigmaRate, sigma,
      offset i (Network.mem_order.mp listed), solves.places.reference]
  · simp only [Network.assemble, shifted.residuals]
  · simp only [Network.assemble, shifted.residuals]
  · simp only [Network.assemble, shifted.residuals]
  · simp only [Network.assemble, shifted.defects solves.places.loopless cycles cycles']

/-- A node that sets its clock three nanoseconds ahead. -/
theorem solveFrame_coboundary_pair :
    let first := NodeId.replicate 1
    let second := NodeId.replicate 2
    let edges := [sampleEdge first second 5 0]
    let c : NodeId → ℝ := fun i => if i = second then 3 else 0
    ∃ frame frame', solveFrame first first 10 edges = some frame ∧
      solveFrame first first 10 (edges.map (EdgeEstimate.shift c)) = some frame' ∧
      frame'.nodes = frame.nodes.map (fun node =>
        { node with offsetNs := node.offsetNs + (c node.id - c first) }) ∧
      frame'.edges = frame.edges ∧ frame'.rmsOffsetNs = frame.rmsOffsetNs ∧
      frame'.rmsDrift = frame.rmsDrift ∧ frame'.cycles = frame.cycles :=
  solveFrame_coboundary _ _ 10 _ (by simp [EdgeEstimate.Still, sampleEdge]) _

end Rtfsn
