/-
**The choice of the reference is a gauge**, in exact reals.

* `Regauged`: the same network with another of its members as the reference. The component, the
  edges inside it and the mapping of the instant are the same.
* `pass_shift`: offsets that differ by a constant are read at the same instants, and solve to
  offsets that differ by a constant, so the two runs stay in step through the passes.
* `solveFrame_gauge`: every offset and log rate is shifted by the new reference's own, and every
  residual is the same.
-/
import Rtfsn.Sync.FrameSolution

set_option linter.unusedSectionVars false

namespace Rtfsn

variable {n : ℕ}

namespace Network

/-- The same network with another of its members as the reference. -/
structure Regauged {F : Type} (net net' : Network F n) [F64 F] : Prop where
  me : net'.me = net.me
  atNs : net'.atNs = net.atNs
  placed : net'.placed = net.placed
  joined : net'.r ∈ net.members

section Component

variable {F : Type} [F64 F] {net net' : Network F n}

theorem Adjacent.symm {u v : Fin n} (adjacent : net.Adjacent u v) : net.Adjacent v u :=
  adjacent.imp fun _ both => ⟨both.1, both.2.symm⟩

theorem reach_symm {u v : Fin n} (path : Relation.ReflTransGen net.Adjacent u v) :
    Relation.ReflTransGen net.Adjacent v u := by
  induction path with
  | refl => exact Relation.ReflTransGen.refl
  | tail _ adjacent ih => exact Relation.ReflTransGen.head adjacent.symm ih

theorem Regauged.members (regauged : net.Regauged net') : net'.members = net.members := by
  have adjacent : net'.Adjacent = net.Adjacent := by
    funext u v
    rw [Adjacent, Adjacent, regauged.placed]
  have joined := mem_members.mp regauged.joined
  ext v
  rw [mem_members, mem_members, adjacent]
  exact ⟨fun path => joined.trans path, fun path => (reach_symm joined).trans path⟩

theorem Regauged.inside (regauged : net.Regauged net') : net'.inside = net.inside := by
  unfold Network.inside
  rw [regauged.members, regauged.placed]

theorem Regauged.instantMapped (regauged : net.Regauged net') :
    net'.instantMapped = net.instantMapped := by
  unfold Network.instantMapped
  rw [regauged.members, regauged.me]

theorem Regauged.driftObs (regauged : net.Regauged net') : net'.driftObs = net.driftObs := by
  unfold Network.driftObs
  rw [regauged.inside]

end Component

variable {net net' : Network ℝ n}

/-- Two runs' values differ by a constant on the members. -/
def Shifted (net : Network ℝ n) (x x' : Fin n → ℝ) (c : ℝ) : Prop :=
  ∀ i ∈ net.members, x' i = x i - c

/-- Solving the same readings from another member shifts by its value. -/
theorem Regauged.solve_shift (regauged : net.Regauged net') {f f' : Placed ℝ n → Obs ℝ n}
    (reads : Reads f) (reads' : Reads f') (same : ∀ p ∈ net.inside, f' p = f p) :
    net.Shifted (net.solve f) (net'.solve f') (net.solve f net'.r) := by
  intro i member
  refine solve_eq reads' ?_ (regauged.members ▸ member)
  have fits : net.Fits f (net.solve f) := solve_fits reads
  unfold Fits at fits ⊢
  rw [regauged.inside, List.map_congr_left same]
  exact fits

/-- Shifted offsets read every edge alike. -/
theorem Regauged.offsetOb_eq (regauged : net.Regauged net') {o o' : Fin n → ℝ} {c : ℝ}
    (shifted : net.Shifted o o' c) {p : Placed ℝ n} (inside : p ∈ net.inside) :
    net'.offsetOb o' p = net.offsetOb o p := by
  have instant : net'.readAt o' p = net.readAt o p := by
    rw [readAt, readAt, regauged.instantMapped, regauged.atNs, regauged.me]
    split_ifs with mapped
    · rw [Network.instantMapped, decide_eq_true_eq] at mapped
      rw [shifted p.a (inside_ends inside).1, shifted net.me mapped]
      ring
    · rfl
  rw [offsetOb, offsetOb, instant]

/-- **One pass keeps the two runs in step.** -/
theorem Regauged.pass_shift (regauged : net.Regauged net') {s s' : Reading ℝ n} {c : ℝ}
    (shifted : net.Shifted s.offset s'.offset c) :
    net.Shifted (net.pass s).offset (net'.pass s').offset ((net.pass s).offset net'.r) :=
  regauged.solve_shift (reads_offsetOb net _) (reads_offsetOb net' _) fun _ inside =>
    regauged.offsetOb_eq shifted inside

theorem Regauged.settling_shift (regauged : net.Regauged net') :
    ∃ c, net.Shifted net.settling net'.settling c := by
  have start : net.Shifted (fun _ => 0) (fun _ => 0) 0 := fun _ _ => (sub_zero 0).symm
  exact ⟨_, regauged.pass_shift (regauged.pass_shift start)⟩

theorem Regauged.offset_shift (regauged : net.Regauged net') :
    net.Shifted net.reading.offset net'.reading.offset (net.reading.offset net'.r) := by
  obtain ⟨c, shifted⟩ := regauged.settling_shift
  exact regauged.pass_shift shifted

theorem Regauged.logRate_shift (regauged : net.Regauged net') :
    net.Shifted net.logRate net'.logRate (net.logRate net'.r) :=
  regauged.solve_shift reads_driftOb reads_driftOb fun _ _ => rfl

/-- **Every residual is the same.** -/
theorem Regauged.residuals (regauged : net.Regauged net') : net'.residuals = net.residuals := by
  obtain ⟨c, settled⟩ := regauged.settling_shift
  rw [residuals_eq, residuals_eq, regauged.inside]
  refine List.map_congr_left fun p inside => ?_
  obtain ⟨memberA, memberB⟩ := inside_ends inside
  rw [regauged.offsetOb_eq settled inside]
  have offset : net'.reading.offset p.b - net'.reading.offset p.a =
      net.reading.offset p.b - net.reading.offset p.a := by
    rw [regauged.offset_shift _ memberA, regauged.offset_shift _ memberB]
    ring
  have rate : net'.logRate p.b - net'.logRate p.a = net.logRate p.b - net.logRate p.a := by
    rw [regauged.logRate_shift _ memberA, regauged.logRate_shift _ memberB]
    ring
  simp only [residual, offsetOb, Placed.driftOb, offset, rate]

end Network

/-! ### By ids -/

/-- Two references joined by usable edges list the same nodes. -/
theorem frameIds_eq {F : Type} [F64 F] {solver r r' : NodeId} {edges : List (EdgeEstimate F)}
    (connected : Connected edges r r') : frameIds solver r' edges = frameIds solver r edges := by
  have endpoint : ∀ {i j : NodeId}, Joined edges i j →
      (∃ e ∈ edges, i = e.fromNode ∨ i = e.toNode) ∧
      ∃ e ∈ edges, j = e.fromNode ∨ j = e.toNode := by
    rintro i j ⟨e, member, _, ⟨rfl, rfl⟩ | ⟨rfl, rfl⟩⟩
    · exact ⟨⟨e, member, Or.inl rfl⟩, e, member, Or.inr rfl⟩
    · exact ⟨⟨e, member, Or.inr rfl⟩, e, member, Or.inl rfl⟩
  have same : ∀ id, id ∈ frameIds solver r' edges ↔ id ∈ frameIds solver r edges := by
    intro id
    rw [mem_frameIds, mem_frameIds]
    rcases Relation.ReflTransGen.cases_tail connected with rfl | ⟨_, _, last⟩
    · rfl
    · obtain rfl | ⟨_, first, _⟩ := Relation.ReflTransGen.cases_head connected
      · rfl
      · have ends := (endpoint first).1
        have ends' := (endpoint last).2
        constructor
        · rintro (solves | rfl | listed)
          · exact Or.inl solves
          · exact Or.inr (Or.inr ends')
          · exact Or.inr (Or.inr listed)
        · rintro (solves | rfl | listed)
          · exact Or.inl solves
          · exact Or.inr (Or.inr ends)
          · exact Or.inr (Or.inr listed)
  unfold frameIds at same ⊢
  refine congrArg (fun listed : Finset NodeId => listed.sort) (Finset.ext fun id => ?_)
  simpa only [Finset.mem_sort] using same id

/-- Two references joined by usable edges give the same network, regauged. -/
theorem Solves.regauged {F : Type} [F64 F] {solver r r' : NodeId} {atNs : ℕ}
    {edges : List (EdgeEstimate F)} {ids : List NodeId} {net net' : Network F ids.length}
    {frame frame' : NetworkFrame F} (connected : Connected edges r r')
    (solves : Solves solver r atNs edges ids net frame)
    (solves' : Solves solver r' atNs edges ids net' frame') : net.Regauged net' := by
  obtain ⟨placed, _, me, instant⟩ := network_eq_some solves.numbered
  obtain ⟨placed', _, me', instant'⟩ := network_eq_some solves'.numbered
  refine ⟨Option.some.inj (me'.symm.trans me), instant'.trans instant.symm,
    Option.some.inj (placed'.symm.trans placed), ?_⟩
  rw [← solves.places.connected_name, solves'.places.reference]
  exact connected

theorem log_drift {net : Network ℝ n} (name : Fin n → NodeId) (i : Fin n) :
    Real.log (1 + (net.nodeFrame name i).drift) = net.logRate i := by
  rw [Network.nodeFrame, F64.expM1_real, add_sub_cancel, Real.log_exp]

/-- **Gauge invariance.** Two references joined by usable edges give the same members and the same
mapping of the instant; every offset and log rate with the second is the first's, less that of the
second reference; the residuals and their root mean squares are the same. -/
theorem solveFrame_gauge (solver r r' : NodeId) (atNs : ℕ) (edges : List (EdgeEstimate ℝ))
    (connected : Connected edges r r') :
    ∃ frame frame', solveFrame solver r atNs edges = some frame ∧
      solveFrame solver r' atNs edges = some frame' ∧
      (∀ id, id ∈ frame.nodes.map NodeFrame.id ↔ id ∈ frame'.nodes.map NodeFrame.id) ∧
      frame'.instantMapped = frame.instantMapped ∧
      (∀ id ∈ frame.nodes.map NodeFrame.id, ∃ held moved origin,
        frame.node id = some held ∧ frame'.node id = some moved ∧ frame.node r' = some origin ∧
        moved.offsetNs = held.offsetNs - origin.offsetNs ∧
        Real.log (1 + moved.drift) = Real.log (1 + held.drift) - Real.log (1 + origin.drift)) ∧
      frame'.edges = frame.edges ∧
      frame'.rmsOffsetNs = frame.rmsOffsetNs ∧ frame'.rmsDrift = frame.rmsDrift := by
  obtain ⟨net, frame, solves⟩ := exists_solves solver r atNs edges
  obtain ⟨net', frame', solves'⟩ : ∃ net' frame', Solves solver r' atNs edges
      (frameIds solver r edges) net' frame' := by
    rw [← frameIds_eq connected]
    exact exists_solves solver r' atNs edges
  have regauged := solves.regauged connected solves'
  obtain ⟨_, members⟩ := solves.members
  obtain ⟨_, members'⟩ := solves'.members
  have sameMembers : ∀ id, Connected edges r id ↔ Connected edges r' id := fun id =>
    ⟨fun path => connected.symm.trans path, fun path => Relation.ReflTransGen.trans connected path⟩
  refine ⟨frame, frame', solves.solved, solves'.solved, fun id => ?_, ?_, fun id listed => ?_, ?_⟩
  · rw [members, members', sameMembers]
  · obtain ⟨_, _, rfl⟩ := solves.parts
    obtain ⟨_, _, rfl⟩ := solves'.parts
    exact regauged.instantMapped
  · obtain ⟨v, member, rfl⟩ := solves.places.connected_iff.mp ((members id).mp listed)
    have member' : v ∈ net'.members := regauged.members ▸ member
    have origin := solves.node_eq regauged.joined
    rw [solves'.places.reference] at origin
    refine ⟨_, _, _, solves.node_eq member, solves'.node_eq member', origin,
      regauged.offset_shift v member, ?_⟩
    rw [log_drift, log_drift, log_drift]
    exact regauged.logRate_shift v member
  · obtain ⟨_, _, rfl⟩ := solves.parts
    obtain ⟨_, _, rfl⟩ := solves'.parts
    simp only [Network.assemble, regauged.residuals, and_self]

/-- Two nodes that measured each other once: either may be the reference. -/
theorem solveFrame_gauge_pair :
    let first := NodeId.replicate 1
    let second := NodeId.replicate 2
    let edges := [sampleEdge first second 5 0]
    ∃ frame frame', solveFrame first first 10 edges = some frame ∧
      solveFrame first second 10 edges = some frame' ∧
      (∀ id, id ∈ frame.nodes.map NodeFrame.id ↔ id ∈ frame'.nodes.map NodeFrame.id) ∧
      frame'.instantMapped = frame.instantMapped ∧
      (∀ id ∈ frame.nodes.map NodeFrame.id, ∃ held moved origin,
        frame.node id = some held ∧ frame'.node id = some moved ∧
        frame.node second = some origin ∧ moved.offsetNs = held.offsetNs - origin.offsetNs ∧
        Real.log (1 + moved.drift) = Real.log (1 + held.drift) - Real.log (1 + origin.drift)) ∧
      frame'.edges = frame.edges ∧
      frame'.rmsOffsetNs = frame.rmsOffsetNs ∧ frame'.rmsDrift = frame.rmsDrift :=
  solveFrame_gauge _ _ _ 10 _ (joined_sampleEdge (by decide) 5 (by norm_num))

end Rtfsn
