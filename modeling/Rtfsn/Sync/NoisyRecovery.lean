/-
**A noisy network is recovered up to its noise**, in exact reals.

* `offsetSlip`, `driftSlip`, `rateSlip`: how far an edge is from what its two clocks would have it
  say. `offsetAt_eq`: what it is off by where it is read.
* `solve_near`: readings that are all within `ε` of the differences of some values are solved within
  `ε` for each member but one, whatever their weights. `merged_near`: so are the merged readings,
  and around a cycle the errors add up.
* `pass_near`: one pass over the offsets. `solveFrame_near`: the whole frame.
-/
import Rtfsn.Sync.Gauge
import Rtfsn.Sync.Recovery

namespace Rtfsn

open LeastSquares

variable {n : ℕ}

/-! ### What an edge is off by -/

namespace Clocks

variable {clocks : Clocks} {e : EdgeEstimate ℝ}

/-- How far the edge's offset is from the clocks', at the instant it was taken. -/
noncomputable def offsetSlip (clocks : Clocks) (e : EdgeEstimate ℝ) : ℝ :=
  e.relation.offsetNs -
    (clocks.read e.toNode (clocks.instant e.fromNode e.relation.atNs) -
      clocks.read e.fromNode (clocks.instant e.fromNode e.relation.atNs))

/-- How far its drift is from theirs. -/
noncomputable def driftSlip (clocks : Clocks) (e : EdgeEstimate ℝ) : ℝ :=
  e.relation.drift - (clocks.rate e.toNode / clocks.rate e.fromNode - 1)

/-- How far it is in logs. -/
noncomputable def rateSlip (clocks : Clocks) (e : EdgeEstimate ℝ) : ℝ :=
  Real.log (1 + e.relation.drift) -
    (Real.log (clocks.rate e.toNode) - Real.log (clocks.rate e.fromNode))

/-- **Read at any instant**, an edge is off by its slips and by its drift times the error of the
instant. -/
theorem offsetAt_eq (clocks : Clocks) (e : EdgeEstimate ℝ) (t reading : ℝ) :
    e.relation.offsetAt reading = clocks.read e.toNode t - clocks.read e.fromNode t +
      (clocks.offsetSlip e + e.relation.drift * (reading - clocks.read e.fromNode t) +
        clocks.driftSlip e * (clocks.read e.fromNode t - e.relation.atNs)) := by
  have positive := (clocks.forward e.fromNode).ne'
  have taken := clocks.read_instant e.fromNode e.relation.atNs
  rw [Relation.offsetAt, offsetSlip, driftSlip, F64.ofNat_real]
  generalize clocks.instant e.fromNode e.relation.atNs = s at taken ⊢
  rw [← taken]
  unfold read
  field_simp
  ring

/-- What bounds the edges of a network. -/
structure Bounds (clocks : Clocks) (solver : NodeId) (atNs : ℕ) (offset rate drift age d : ℝ)
    (e : EdgeEstimate ℝ) : Prop where
  offset : |clocks.offsetSlip e| ≤ offset
  rate : |clocks.rateSlip e| ≤ rate
  drift : |clocks.driftSlip e| ≤ drift
  /-- How long ago the edge was taken, on its own clock. -/
  age : |clocks.read e.fromNode (clocks.instant solver atNs) - e.relation.atNs| ≤ age
  slow : |e.relation.drift| ≤ d

end Clocks

/-! ### Least squares -/

section Merged

variable {obs : List (Obs ℝ n)} {u v : Fin n} {ε : ℝ}

/-- Small readings have a small mean. -/
theorem abs_mergedMean_le (nonneg : 0 ≤ ε) (small : ∀ o ∈ obs, |o.m| ≤ ε) :
    |mergedMean id obs u v| ≤ ε := by
  have each : |orientedSum id obs u v| ≤ ε * pairWeight id obs u v ∧ 0 ≤ pairWeight id obs u v := by
    unfold orientedSum pairWeight
    induction obs with
    | nil => simp
    | cons o obs ih =>
      obtain ⟨first, rest⟩ := List.forall_mem_cons.mp small
      obtain ⟨sum, weight⟩ := ih rest
      have square : 0 ≤ o.sigma ^ 2 := sq_nonneg _
      have reading : |o.m / o.sigma ^ 2| ≤ ε * (1 / o.sigma ^ 2) := by
        rw [abs_div, abs_of_nonneg square, mul_one_div]
        exact div_le_div_of_nonneg_right first square
      have inverse : 0 ≤ 1 / o.sigma ^ 2 := by positivity
      simp only [List.map_cons, List.sum_cons, id] at sum weight ⊢
      rw [mul_add]
      refine ⟨(abs_add_le _ _).trans (add_le_add ?_ sum), add_nonneg ?_ weight⟩
      · by_cases along : o.a = u ∧ o.b = v
        · rw [if_pos along, if_pos (Or.inl along)]
          split_ifs
          · rw [sub_self, abs_zero]
            exact mul_nonneg nonneg inverse
          · rw [sub_zero]
            exact reading
        · by_cases against : o.a = v ∧ o.b = u
          · rw [if_neg along, if_pos against, if_pos (Or.inr against), zero_sub, abs_neg]
            exact reading
          · rw [if_neg along, if_neg against, if_neg fun either => either.elim along against,
              sub_self, abs_zero, mul_zero]
      · split_ifs
        · exact inverse
        · exact le_rfl
  rw [mergedMean, abs_div, abs_of_nonneg each.2]
  exact div_le_of_le_mul₀ each.2 nonneg each.1

/-- **Readings near the differences of a potential** have means near them. -/
theorem merged_near (nonneg : 0 ≤ ε) {x : Fin n → ℝ}
    (near : ∀ o ∈ obs, |o.m - (x o.b - x o.a)| ≤ ε) (distinct : u ≠ v)
    (weighs : pairWeight id obs u v ≠ 0) : |mergedMean id obs u v - (x v - x u)| ≤ ε := by
  let slips : List (Obs ℝ n) := obs.map fun o => { o with m := o.m - (x o.b - x o.a) }
  have shifted : obs = slips.map fun o => { o with m := o.m + (x o.b - x o.a) } := by
    rw [List.map_map]
    refine ((List.map_congr_left fun o _ => ?_).trans (List.map_id _)).symm
    simp only [Function.comp, sub_add_cancel, id]
  have weight : pairWeight id slips u v = pairWeight id obs u v := by
    rw [pairWeight, List.map_map]
    rfl
  have mean : mergedMean id obs u v = mergedMean id slips u v + (x v - x u) := by
    conv_lhs => rw [shifted]
    exact (mergedMean_shift slips x distinct (weight ▸ weighs)).2
  rw [mean, add_sub_cancel_right]
  refine abs_mergedMean_le nonneg fun o listed => ?_
  obtain ⟨o', member, rfl⟩ := List.mem_map.mp listed
  exact near o' member

end Merged

namespace Network

variable {net : Network ℝ n} {ε : ℝ}

/-- Between two members the errors of the solved values differ by at most `ε` for each member but
one. -/
theorem solve_spread {f : Placed ℝ n → Obs ℝ n} (reads : Reads f) (nonneg : 0 ≤ ε) {x : Fin n → ℝ}
    (near : ∀ p ∈ net.inside, |(f p).m - (x p.b - x p.a)| ≤ ε) {i j : Fin n}
    (first : i ∈ net.members) (second : j ∈ net.members) :
    |(net.solve f i - x i) - (net.solve f j - x j)| ≤ (net.members.card - 1) * ε := by
  let g : Placed ℝ n → Obs ℝ n := fun p => { f p with m := (f p).m - (x p.b - x p.a) }
  have readsG : Reads g := ⟨reads.a, reads.b, reads.positive⟩
  have fits : net.Fits g fun i => net.solve f i - x i := by
    refine (solve_fits reads).congr reads readsG fun p _ => ⟨rfl, ?_⟩
    simp only [g]
    ring
  have small : ∀ m ∈ (net.inside.map g).map Obs.measurement, |m.value| ≤ ε := by
    intro m listed
    rw [List.map_map] at listed
    obtain ⟨p, inside, rfl⟩ := List.mem_map.mp listed
    exact near p inside
  exact Balanced.spread_le fits (positive readsG).weighted (spans readsG) nonneg small first second

/-- **Noisy readings are solved up to their noise**, from the reference. -/
theorem solve_near {f : Placed ℝ n → Obs ℝ n} (reads : Reads f) (nonneg : 0 ≤ ε) {x : Fin n → ℝ}
    (near : ∀ p ∈ net.inside, |(f p).m - (x p.b - x p.a)| ≤ ε) {i : Fin n}
    (member : i ∈ net.members) :
    |net.solve f i - (x i - x net.r)| ≤ (net.members.card - 1) * ε := by
  have spread := solve_spread reads nonneg near member root_mem
  rwa [solve_root reads, zero_sub, sub_neg_eq_add, sub_add_eq_add_sub, ← sub_sub_eq_add_sub]
    at spread

/-- Around a closed walk of measured pairs the noise adds up, and nothing else. -/
theorem circulation_near {f : Placed ℝ n → Obs ℝ n} (reads : Reads f) (loopless : net.Loopless)
    (nonneg : 0 ≤ ε) {x : Fin n → ℝ} (near : ∀ p ∈ net.inside, |(f p).m - (x p.b - x p.a)| ≤ ε)
    {nodes : List (Fin n)} (measured : ∀ p ∈ Tree.closedPairs nodes, net.Measured p.1 p.2) :
    |circulation (mergedMean id (net.inside.map f)) nodes| ≤ nodes.length * ε := by
  have each : ∀ p ∈ Tree.closedPairs nodes,
      |mergedMean id (net.inside.map f) p.1 p.2 - (x p.2 - x p.1)| ≤ ε := by
    intro p listed
    refine merged_near nonneg (fun o inside => ?_) ((measured p listed).ne loopless)
      (pairWeight_pos reads (measured p listed)).ne'
    obtain ⟨q, member, rfl⟩ := List.mem_map.mp inside
    rw [reads.a, reads.b]
    exact near q member
  have sums : ∀ l : List (Fin n × Fin n), (∀ p ∈ l,
      |mergedMean id (net.inside.map f) p.1 p.2 - (x p.2 - x p.1)| ≤ ε) →
      |(l.map fun p => mergedMean id (net.inside.map f) p.1 p.2).sum -
        (l.map fun p => x p.2 - x p.1).sum| ≤ l.length * ε := by
    intro l
    induction l with
    | nil => simp
    | cons p l ih =>
      intro all
      obtain ⟨first, rest⟩ := List.forall_mem_cons.mp all
      rw [List.map_cons, List.map_cons, List.sum_cons, List.sum_cons, add_sub_add_comm,
        List.length_cons, Nat.cast_add, Nat.cast_one, add_mul, one_mul, add_comm (_ * ε)]
      exact (abs_add_le _ _).trans (add_le_add first (ih rest))
  have total := sums _ each
  have length : (Tree.closedPairs nodes).length = nodes.length := by simp [Tree.closedPairs]
  rwa [Tree.sum_closedPairs, sub_zero, length] at total

/-! ### The passes -/

open Truthful (truth truth_root)

/-- The numbers of a network whose edges are within bounds of the truth, and whose solver is
connected. -/
structure Noisy (clocks : Clocks) (name : Fin n → NodeId) (net : Network ℝ n)
    (offset rate drift age d : ℝ) : Prop where
  ends : ∀ p ∈ net.placed, name p.a = p.edge.fromNode ∧ name p.b = p.edge.toNode
  bounds : ∀ p ∈ net.placed,
    clocks.Bounds (name net.me) net.atNs offset rate drift age d p.edge
  mapped : net.me ∈ net.members

namespace Noisy

variable {clocks : Clocks} {name : Fin n → NodeId} {offset rate drift age d : ℝ}

theorem driftOb_near (noisy : Noisy clocks name net offset rate drift age d) :
    ∀ p ∈ net.inside, |p.driftOb.m - (Real.log (clocks.rate (name p.b)) -
      Real.log (clocks.rate (name p.a)))| ≤ rate := by
  intro p inside
  obtain ⟨nameA, nameB⟩ := noisy.ends p (mem_inside.mp inside).1
  rw [nameA, nameB]
  exact (noisy.bounds p (mem_inside.mp inside).1).rate

/-- **The rates are solved up to their noise.** -/
theorem logRate_near (noisy : Noisy clocks name net offset rate drift age d) (nonneg : 0 ≤ rate)
    {i : Fin n} (member : i ∈ net.members) :
    |net.logRate i - (Real.log (clocks.rate (name i)) - Real.log (clocks.rate (name net.r)))| ≤
      (net.members.card - 1) * rate :=
  solve_near (x := fun i => Real.log (clocks.rate (name i))) reads_driftOb nonneg
    noisy.driftOb_near member

/-- The residual of an edge's rate. -/
theorem residual_near (noisy : Noisy clocks name net offset rate drift age d) (nonneg : 0 ≤ rate) :
    ∀ e ∈ net.residuals, |e.drift| ≤ net.members.card * rate := by
  intro e listed
  rw [residuals_eq] at listed
  obtain ⟨p, inside, rfl⟩ := List.mem_map.mp listed
  obtain ⟨memberA, memberB⟩ := inside_ends inside
  have spread := solve_spread (x := fun i => Real.log (clocks.rate (name i))) reads_driftOb nonneg
    noisy.driftOb_near memberB memberA
  have reading := noisy.driftOb_near p inside
  show |p.driftOb.m - (net.logRate p.b - net.logRate p.a)| ≤ _
  have split : p.driftOb.m - (net.logRate p.b - net.logRate p.a) =
      (p.driftOb.m - (Real.log (clocks.rate (name p.b)) - Real.log (clocks.rate (name p.a)))) -
        ((net.solve Placed.driftOb p.b - Real.log (clocks.rate (name p.b))) -
          (net.solve Placed.driftOb p.a - Real.log (clocks.rate (name p.a)))) := by
    show _ = _ - ((net.logRate p.b - _) - (net.logRate p.a - _))
    ring
  rw [split]
  refine (abs_sub _ _).trans ?_
  linarith

/-- What a pass reads. -/
theorem offsetOb_near (noisy : Noisy clocks name net offset rate drift age d) (slow : 0 ≤ d)
    (nonneg : 0 ≤ drift) {o : Fin n → ℝ} {E : ℝ}
    (near : ∀ i ∈ net.members, |o i - truth clocks name net i| ≤ E) :
    ∀ p ∈ net.inside, |(net.offsetOb o p).m - (truth clocks name net p.b -
      truth clocks name net p.a)| ≤ offset + drift * age + d * (2 * E) := by
  intro p inside
  have placed := (mem_inside.mp inside).1
  obtain ⟨nameA, nameB⟩ := noisy.ends p placed
  have bounds := noisy.bounds p placed
  have mapped : net.instantMapped = true := decide_eq_true noisy.mapped
  have solver := clocks.read_instant (name net.me) net.atNs
  have reads := clocks.offsetAt_eq p.edge (clocks.instant (name net.me) net.atNs) (net.readAt o p)
  have instant : net.readAt o p -
      clocks.read p.edge.fromNode (clocks.instant (name net.me) net.atNs) =
      (o p.a - truth clocks name net p.a) - (o net.me - truth clocks name net net.me) := by
    rw [readAt, if_pos mapped, F64.ofNat_real, ← nameA]
    simp only [truth, Clocks.trueOffset, solver]
    ring
  have error : (net.offsetOb o p).m - (truth clocks name net p.b - truth clocks name net p.a) =
      clocks.offsetSlip p.edge +
        clocks.driftSlip p.edge * (clocks.read p.edge.fromNode
          (clocks.instant (name net.me) net.atNs) - p.edge.relation.atNs) +
        p.edge.relation.drift *
          ((o p.a - truth clocks name net p.a) - (o net.me - truth clocks name net net.me)) := by
    show p.edge.relation.offsetAt (net.readAt o p) - _ = _
    rw [reads, instant, ← nameA, ← nameB]
    simp only [truth, Clocks.trueOffset]
    ring
  have aged : |clocks.driftSlip p.edge * (clocks.read p.edge.fromNode
      (clocks.instant (name net.me) net.atNs) - p.edge.relation.atNs)| ≤ drift * age := by
    rw [abs_mul]
    exact mul_le_mul bounds.drift bounds.age (abs_nonneg _) nonneg
  have drifted : |p.edge.relation.drift * ((o p.a - truth clocks name net p.a) -
      (o net.me - truth clocks name net net.me))| ≤ d * (2 * E) := by
    rw [abs_mul]
    refine mul_le_mul bounds.slow ?_ (abs_nonneg _) slow
    have first := near p.a (inside_ends inside).1
    have second := near net.me noisy.mapped
    exact (abs_sub _ _).trans (by linarith)
  rw [error]
  exact (abs_add_three _ _ _).trans (by linarith [bounds.offset])

/-- **One pass**: an error of at most `E` becomes one of at most `2 (m - 1) d E` and the noise. -/
theorem pass_near (noisy : Noisy clocks name net offset rate drift age d) (slow : 0 ≤ d)
    (nonneg : 0 ≤ drift) (aged : 0 ≤ age) (exact : 0 ≤ offset) {o : Fin n → ℝ} {E : ℝ}
    (near : ∀ i ∈ net.members, |o i - truth clocks name net i| ≤ E) {i : Fin n}
    (member : i ∈ net.members) :
    |net.solve (net.offsetOb o) i - truth clocks name net i| ≤
      (net.members.card - 1) * (offset + drift * age) + 2 * (net.members.card - 1) * d * E := by
  have bound : 0 ≤ E := (abs_nonneg _).trans (near net.r root_mem)
  have solved := solve_near (reads_offsetOb net o) (by positivity)
    (noisy.offsetOb_near slow nonneg near) member
  rw [truth_root, sub_zero] at solved
  exact solved.trans (le_of_eq (by ring))

/-- **Three passes.** -/
theorem reading_near (noisy : Noisy clocks name net offset rate drift age d) (slow : 0 ≤ d)
    (nonneg : 0 ≤ drift) (aged : 0 ≤ age) (exact : 0 ≤ offset) {D : ℝ}
    (far : ∀ i ∈ net.members, |truth clocks name net i| ≤ D) {i : Fin n}
    (member : i ∈ net.members) :
    |net.reading.offset i - truth clocks name net i| ≤
      (1 + 2 * (net.members.card - 1) * d + (2 * (net.members.card - 1) * d) ^ 2) *
        ((net.members.card - 1) * (offset + drift * age)) +
          (2 * (net.members.card - 1) * d) ^ 3 * D := by
  have start : ∀ i ∈ net.members, |(0 : ℝ) - truth clocks name net i| ≤ D := fun i inside => by
    rw [zero_sub, abs_neg]
    exact far i inside
  have once := fun i (inside : i ∈ net.members) =>
    noisy.pass_near slow nonneg aged exact start inside
  have twice := fun i (inside : i ∈ net.members) =>
    noisy.pass_near slow nonneg aged exact once inside
  exact (noisy.pass_near slow nonneg aged exact twice member).trans (le_of_eq (by ring))

end Noisy

end Network

/-! ### By ids -/

/-- **A noisy network is recovered up to its noise.** When every usable edge is within bounds of how
two affine clocks compare, and the solver is connected to the reference, the `m` members' log rates
are within `m - 1` times the rates' noise of the clocks', no edge's rate is off by more than `m`
times it and no cycle's by more than its length times it, and every offset is within `m - 1` times
the offsets' noise and that of the drifts since the edges were taken, enlarged by what the passes
leave. The weights, the shape of the network and its cycles do not matter. -/
theorem solveFrame_near (clocks : Clocks) (solver reference : NodeId) (atNs : ℕ)
    (edges : List (EdgeEstimate ℝ)) (offset rate drift age d D : ℝ) (offsetNonneg : 0 ≤ offset)
    (rateNonneg : 0 ≤ rate) (driftNonneg : 0 ≤ drift) (ageNonneg : 0 ≤ age) (slow : 0 ≤ d)
    (bounds : ∀ e ∈ edges, e.usable = true →
      clocks.Bounds solver atNs offset rate drift age d e)
    (connected : Connected edges reference solver)
    (far : ∀ i, Connected edges reference i → |clocks.trueOffset solver reference atNs i| ≤ D) :
    ∃ frame, solveFrame solver reference atNs edges = some frame ∧
      (∀ node ∈ frame.nodes,
        |Real.log (1 + node.drift) -
            (Real.log (clocks.rate node.id) - Real.log (clocks.rate reference))| ≤
          (frame.nodes.length - 1) * rate ∧
        |node.offsetNs - clocks.trueOffset solver reference atNs node.id| ≤
          (1 + 2 * (frame.nodes.length - 1) * d + (2 * (frame.nodes.length - 1) * d) ^ 2) *
            ((frame.nodes.length - 1) * (offset + drift * age)) +
              (2 * (frame.nodes.length - 1) * d) ^ 3 * D) ∧
      (∀ e ∈ frame.edges, |e.drift| ≤ frame.nodes.length * rate) ∧
      ∀ c ∈ frame.cycles, |c.drift| ≤ c.nodes.length * rate := by
  obtain ⟨net, frame, solves⟩ := exists_solves solver reference atNs edges
  have places := solves.places
  have noisy : Network.Noisy clocks (frameIds solver reference edges).get net offset rate drift age
      d := by
    refine ⟨places.ends, fun p member => ?_, ?_⟩
    · obtain ⟨listed, usable⟩ := places.usable member
      rw [places.solver, places.instant]
      exact bounds _ listed usable
    · rw [← places.connected_name, places.solver]
      exact connected
  have truth_eq : ∀ i, Network.Truthful.truth clocks (frameIds solver reference edges).get net i =
      clocks.trueOffset solver reference atNs ((frameIds solver reference edges).get i) := by
    intro i
    rw [Network.Truthful.truth, places.solver, places.reference, places.instant]
  have near : ∀ i ∈ net.members,
      |Network.Truthful.truth clocks (frameIds solver reference edges).get net i| ≤ D :=
    fun i member => by
      rw [truth_eq]
      exact far _ (places.connected_name.mpr member)
  have count : (frame.nodes.length : ℝ) = net.members.card := by
    obtain ⟨tree, _, _⟩ := net.rooted
    rw [solves.nodes_eq, List.length_map, ← List.toFinset_card_of_nodup tree.nodup]
    refine congrArg _ (congrArg _ (Finset.ext fun i => ?_))
    rw [List.mem_toFinset, Network.mem_order]
  refine ⟨frame, solves.solved, ?_⟩
  rw [count]
  refine ⟨fun node listed => ?_, fun e listed => ?_, fun c listed => ?_⟩
  · rw [solves.nodes_eq] at listed
    obtain ⟨i, member, rfl⟩ := List.mem_map.mp listed
    rw [Network.mem_order] at member
    constructor
    · have rates := noisy.logRate_near rateNonneg member
      rw [places.reference] at rates
      rw [log_drift]
      exact rates
    · have error := noisy.reading_near slow driftNonneg ageNonneg offsetNonneg near member
      rw [truth_eq] at error
      exact error
  · obtain ⟨nodes, _, rfl⟩ := solves.parts
    exact noisy.residual_near rateNonneg e ((List.mergeSort_perm _ _).mem_iff.mp listed)
  · obtain ⟨u, v, nodes, measured, _, fundamental, rfl⟩ := solves.exists_chord listed
    have pairs := fundamental.measured measured
    have around := Network.circulation_near
      (x := fun i => Real.log (clocks.rate ((frameIds solver reference edges).get i)))
      Network.reads_driftOb places.loopless rateNonneg noisy.driftOb_near pairs
    rw [show (Network.defect _ nodes (net.around nodes)).drift = (net.around nodes).drift from rfl,
      (Network.around_mergedMean places.loopless pairs).2,
      show (Network.defect _ nodes (net.around nodes)).nodes = nodes.map _ from rfl,
      List.length_map]
    exact around

/-- Two clocks that start together, the second twice as fast, and an edge that is off by one. -/
theorem solveFrame_near_pair :
    let first := NodeId.replicate 1
    let second := NodeId.replicate 2
    ∃ frame, solveFrame second first 10 [sampleEdge first second 1 1] = some frame ∧
      (∀ node ∈ frame.nodes,
        |Real.log (1 + node.drift) -
            (Real.log (doubling.rate node.id) - Real.log (doubling.rate first))| ≤
          (frame.nodes.length - 1) * 0 ∧
        |node.offsetNs - doubling.trueOffset second first 10 node.id| ≤
          (1 + 2 * (frame.nodes.length - 1) * 1 + (2 * (frame.nodes.length - 1) * 1) ^ 2) *
            ((frame.nodes.length - 1) * (1 + 0 * 5)) +
              (2 * (frame.nodes.length - 1) * 1) ^ 3 * 5) ∧
      (∀ e ∈ frame.edges, |e.drift| ≤ frame.nodes.length * 0) ∧
      ∀ c ∈ frame.cycles, |c.drift| ≤ c.nodes.length * 0 := by
  have apart : NodeId.replicate 1 ≠ NodeId.replicate 2 := by decide
  refine solveFrame_near doubling _ _ 10 _ 1 0 0 5 1 5 zero_le_one le_rfl le_rfl (by norm_num)
    zero_le_one (fun e listed _ => ?_) (joined_sampleEdge apart 1 (by norm_num)) fun i _ => ?_
  · rw [List.mem_singleton.mp listed]
    constructor <;>
      simp [sampleEdge, Clocks.offsetSlip, Clocks.rateSlip, Clocks.driftSlip, Clocks.read,
        Clocks.instant, doubling, apart] <;> norm_num
  · simp only [Clocks.trueOffset, Clocks.read, Clocks.instant, doubling, apart]
    split_ifs <;> norm_num

end Rtfsn
