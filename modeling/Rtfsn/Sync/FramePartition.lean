/-
**What a frame lists.**

`solve_frame` splits the ids it is given by whether usable edges, taken in either direction, connect
them to the reference:

* `Solves.mem_unreachable`: the unreachable ids are the others, each once.
* `inside_edges`: the filter by an edge's first end alone keeps the usable edges that touch the
  component (`componentEdges`), at either end.
* `Solves.residual_each`: one residual for each of them.
* `solveFrame_partition`: all of it, for every list of edges and every arithmetic.
-/
import Rtfsn.Sync.FrameSolution

set_option linter.unusedSectionVars false

namespace Rtfsn

variable {F : Type} [F64 F] {n : ℕ}

open Classical in
/-- The usable edges with an end in the component of the reference. -/
noncomputable def componentEdges (edges : List (EdgeEstimate F)) (reference : NodeId) :
    List (EdgeEstimate F) :=
  edges.filter fun e => e.usable = true ∧
    (Connected edges reference e.fromNode ∨ Connected edges reference e.toNode)

/-- A residual is that of an edge between its two nodes. -/
def EdgeResidual.Of (e : EdgeEstimate F) (r : EdgeResidual F) : Prop :=
  r.fromNode = e.fromNode ∧ r.toNode = e.toNode

/-- A usable edge touches the component at both ends or at none. -/
theorem connected_toNode_iff {edges : List (EdgeEstimate F)} {reference : NodeId}
    {e : EdgeEstimate F} (member : e ∈ edges) (usable : e.usable = true) :
    Connected edges reference e.toNode ↔ Connected edges reference e.fromNode := by
  have joined : Joined edges e.fromNode e.toNode := ⟨e, member, usable, Or.inl ⟨rfl, rfl⟩⟩
  exact ⟨fun connected => connected.tail joined.symm, fun connected => connected.tail joined⟩

/-- **The edges inside are those of the component**, in the order they were given. -/
theorem Places.inside_edges {name : Fin n → NodeId} {solver reference : NodeId} {atNs : ℕ}
    {edges : List (EdgeEstimate F)} {net : Network F n}
    (places : Places name solver reference atNs edges net) :
    net.inside.map Placed.edge = componentEdges edges reference := by
  classical
  have numbered : net.inside = net.placed.filter
      ((fun e => decide (Connected edges reference e.fromNode)) ∘ Placed.edge) := by
    refine List.filter_congr fun p listed => ?_
    rw [Function.comp, decide_eq_decide, ← places.connected_name, (places.ends p listed).1]
  rw [numbered, ← List.filter_map, places.edges, List.filter_filter, componentEdges]
  refine List.filter_congr fun e member => ?_
  by_cases usable : e.usable = true
  · simp [usable, connected_toNode_iff member usable]
  · simp [usable]

namespace Solves

variable {solver reference : NodeId} {atNs : ℕ} {edges : List (EdgeEstimate F)}
  {ids : List NodeId} {net : Network F ids.length} {frame : NetworkFrame F}

theorem unreachable_eq (solves : Solves solver reference atNs edges ids net frame) :
    frame.unreachable =
      ((List.finRange ids.length).filter fun i => i ∉ net.members).map ids.get := by
  obtain ⟨nodes, _, rfl⟩ := solves.parts
  rfl

theorem nodup_unreachable (solves : Solves solver reference atNs edges ids net frame) :
    frame.unreachable.Nodup := by
  rw [solves.unreachable_eq]
  exact ((List.nodup_finRange _).filter _).map solves.places.injective

/-- **The unreachable ids** are the ids that nothing connects to the reference. -/
theorem mem_unreachable (solves : Solves solver reference atNs edges ids net frame) {id : NodeId} :
    id ∈ frame.unreachable ↔ (id = solver ∨ ∃ e ∈ edges, id = e.fromNode ∨ id = e.toNode) ∧
      ¬ Connected edges reference id := by
  have listed : id ∈ ids ↔
      id = solver ∨ id = reference ∨ ∃ e ∈ edges, id = e.fromNode ∨ id = e.toNode := by
    rw [← solves.listed, mem_frameIds]
  have places : id ∈ frame.unreachable ↔ id ∈ ids ∧ ¬ Connected edges reference id := by
    rw [solves.unreachable_eq]
    simp only [List.mem_map, List.mem_filter, List.mem_finRange, true_and, decide_eq_true_eq]
    constructor
    · rintro ⟨v, outside, rfl⟩
      exact ⟨List.get_mem _ _, fun connected =>
        outside (solves.places.connected_name.mp connected)⟩
    · rintro ⟨member, apart⟩
      obtain ⟨v, rfl⟩ := List.get_of_mem member
      exact ⟨v, fun inside => apart (solves.places.connected_name.mpr inside), rfl⟩
  rw [places, listed]
  constructor
  · rintro ⟨rfl | rfl | named, apart⟩
    · exact ⟨Or.inl rfl, apart⟩
    · exact absurd Relation.ReflTransGen.refl apart
    · exact ⟨Or.inr named, apart⟩
  · rintro ⟨named | named, apart⟩
    · exact ⟨Or.inl named, apart⟩
    · exact ⟨Or.inr (Or.inr named), apart⟩

/-- **One residual for each edge of the component.** -/
theorem residual_each (solves : Solves solver reference atNs edges ids net frame) :
    ∃ residuals, frame.edges.Perm residuals ∧
      List.Forall₂ EdgeResidual.Of (componentEdges edges reference) residuals := by
  obtain ⟨nodes, _, rfl⟩ := solves.parts
  refine ⟨net.residuals, List.mergeSort_perm _ _, ?_⟩
  rw [← solves.places.inside_edges, Network.residuals_eq, List.forall₂_map_left_iff,
    List.forall₂_map_right_iff, List.forall₂_same]
  exact fun p _ => ⟨rfl, rfl⟩

theorem instantMapped_iff (solves : Solves solver reference atNs edges ids net frame) :
    frame.instantMapped = true ↔ solver ∈ frame.nodes.map NodeFrame.id := by
  rw [solves.members.2, ← solves.places.instantMapped_iff]
  obtain ⟨nodes, _, rfl⟩ := solves.parts
  rfl

end Solves

/-- **A frame partitions its ids.** The nodes are what usable edges, taken in either direction,
connect to the reference, each once; the unreachable ids are all others among the solver and the
ends of the edges, unusable ones included, each once; there is one residual for each usable edge of
the component and no other; and the instant is mapped exactly when the solver is a node. -/
theorem solveFrame_partition (solver reference : NodeId) (atNs : ℕ)
    (edges : List (EdgeEstimate F)) :
    ∃ frame, solveFrame solver reference atNs edges = some frame ∧
      (frame.nodes.map NodeFrame.id).Nodup ∧
      (∀ id, id ∈ frame.nodes.map NodeFrame.id ↔ Connected edges reference id) ∧
      frame.unreachable.Nodup ∧
      (∀ id, id ∈ frame.unreachable ↔
        (id = solver ∨ ∃ e ∈ edges, id = e.fromNode ∨ id = e.toNode) ∧
          ¬ Connected edges reference id) ∧
      (∃ residuals, frame.edges.Perm residuals ∧
        List.Forall₂ EdgeResidual.Of (componentEdges edges reference) residuals) ∧
      (frame.instantMapped = true ↔ solver ∈ frame.nodes.map NodeFrame.id) := by
  obtain ⟨net, frame, solves⟩ := exists_solves solver reference atNs edges
  obtain ⟨nodup, members⟩ := solves.members
  exact ⟨frame, solves.solved, nodup, members, solves.nodup_unreachable,
    fun _ => solves.mem_unreachable, solves.residual_each, solves.instantMapped_iff⟩

end Rtfsn
