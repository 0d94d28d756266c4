/-
The graph that `solve_frame` sees.

* `Joined`: two nodes joined by a usable edge, in either direction. The component of the reference
  is what `Joined` reaches from it (`mem_members`, `Places.connected_iff`).
* `network_places`: numbering never fails, and the numbers stand for the ids they were given.
* `rooted`: the component's tree with its layers; `near`: a measured pair spans at most one layer.
-/
import Rtfsn.Sync.Frame

set_option linter.unusedSectionVars false

namespace Rtfsn

variable {F : Type} [F64 F] {n : ℕ}

/-! ### Usable edges -/

/-- Two nodes are joined by a usable edge. -/
def Joined (edges : List (EdgeEstimate F)) (i j : NodeId) : Prop :=
  ∃ e ∈ edges, e.usable = true ∧
    ((e.fromNode = i ∧ e.toNode = j) ∨ (e.fromNode = j ∧ e.toNode = i))

/-- A node is connected to the reference by usable edges. -/
def Connected (edges : List (EdgeEstimate F)) : NodeId → NodeId → Prop :=
  Relation.ReflTransGen (Joined edges)

theorem Joined.symm {edges : List (EdgeEstimate F)} {i j : NodeId} (joined : Joined edges i j) :
    Joined edges j i := by
  obtain ⟨e, member, usable, ends⟩ := joined
  exact ⟨e, member, usable, ends.symm⟩

theorem Connected.symm {edges : List (EdgeEstimate F)} {i j : NodeId}
    (connected : Connected edges i j) : Connected edges j i := by
  induction connected with
  | refl => exact Relation.ReflTransGen.refl
  | tail _ joined ih => exact Relation.ReflTransGen.head joined.symm ih

theorem Connected.of_usable {edges : List (EdgeEstimate F)} {e : EdgeEstimate F}
    (member : e ∈ edges) (usable : e.usable = true) : Connected edges e.fromNode e.toNode :=
  Relation.ReflTransGen.single ⟨e, member, usable, Or.inl ⟨rfl, rfl⟩⟩

/-- A node that no edge ends at is connected to itself only. -/
theorem Connected.eq_of_untouched {edges : List (EdgeEstimate F)} {i j : NodeId}
    (connected : Connected edges i j)
    (untouched : ∀ e ∈ edges, e.fromNode ≠ j ∧ e.toNode ≠ j) : j = i := by
  rcases Relation.ReflTransGen.cases_tail connected with same | ⟨_, _, e, member, _, ends⟩
  · exact same
  · obtain ⟨_, last⟩ | ⟨last, _⟩ := ends
    · exact absurd last (untouched e member).2
    · exact absurd last (untouched e member).1

/-! ### Numbers for ids -/

/-- The numbers of a network stand for the ids of its edges and of its two named nodes. -/
structure Places (name : Fin n → NodeId) (solver reference : NodeId) (atNs : ℕ)
    (edges : List (EdgeEstimate F)) (net : Network F n) : Prop where
  injective : Function.Injective name
  reference : name net.r = reference
  solver : name net.me = solver
  instant : net.atNs = atNs
  edges : net.placed.map Placed.edge = edges.filter EdgeEstimate.usable
  ends : ∀ p ∈ net.placed, name p.a = p.edge.fromNode ∧ name p.b = p.edge.toNode

/-- The parts of a numbered network. -/
theorem network_eq_some {ids : List NodeId} {solver reference : NodeId} {atNs : ℕ}
    {edges : List (EdgeEstimate F)} {net : Network F ids.length}
    (numbered : network ids solver reference atNs edges = some net) :
    (edges.filter EdgeEstimate.usable).mapM (place ids) = some net.placed ∧
      index ids reference = some net.r ∧ index ids solver = some net.me ∧ net.atNs = atNs := by
  simp only [network, Option.bind_eq_bind, Option.bind_eq_some_iff, Option.pure_def,
    Option.some.injEq] at numbered
  obtain ⟨placed, all, r, foundR, me, foundMe, rfl⟩ := numbered
  exact ⟨all, foundR, foundMe, rfl⟩

theorem index_spec {ids : List NodeId} {id : NodeId} (listed : id ∈ ids) :
    ∃ i, index ids id = some i ∧ ids.get i = id := by
  cases found : ids.finIdxOf? id with
  | none => exact absurd listed (List.finIdxOf?_eq_none_iff.mp found)
  | some i => exact ⟨i, found, (List.finIdxOf?_eq_some_iff.mp found).1⟩

theorem place_spec {ids : List NodeId} {e : EdgeEstimate F} (fromListed : e.fromNode ∈ ids)
    (toListed : e.toNode ∈ ids) :
    ∃ p, place ids e = some p ∧ p.edge = e ∧ ids.get p.a = e.fromNode ∧
      ids.get p.b = e.toNode := by
  obtain ⟨a, foundA, nameA⟩ := index_spec fromListed
  obtain ⟨b, foundB, nameB⟩ := index_spec toListed
  exact ⟨⟨e, a, b⟩, by simp [place, foundA, foundB], rfl, nameA, nameB⟩

/-- Every endpoint is listed. -/
theorem mem_frameIds {solver reference : NodeId} {edges : List (EdgeEstimate F)} {id : NodeId} :
    id ∈ frameIds solver reference edges ↔
      id = solver ∨ id = reference ∨ ∃ e ∈ edges, id = e.fromNode ∨ id = e.toNode := by
  have collected : ∀ (edges : List (EdgeEstimate F)) (ids : Finset NodeId),
      id ∈ edges.foldl (fun ids e => insert e.toNode (insert e.fromNode ids)) ids ↔
        id ∈ ids ∨ ∃ e ∈ edges, id = e.fromNode ∨ id = e.toNode := by
    intro edges
    induction edges with
    | nil => simp
    | cons e edges ih =>
      intro ids
      rw [List.foldl_cons, ih]
      simp only [Finset.mem_insert, List.mem_cons, exists_eq_or_imp]
      grind
  rw [frameIds, Finset.mem_sort, collected, Finset.mem_insert, Finset.mem_singleton, or_assoc]

theorem nodup_frameIds (solver reference : NodeId) (edges : List (EdgeEstimate F)) :
    (frameIds solver reference edges).Nodup := Finset.sort_nodup _ _

/-- **Numbering never fails.** -/
theorem network_places {ids : List NodeId} (nodup : ids.Nodup) {solver reference : NodeId}
    (atNs : ℕ) {edges : List (EdgeEstimate F)} (solverListed : solver ∈ ids)
    (referenceListed : reference ∈ ids)
    (listed : ∀ e ∈ edges, e.fromNode ∈ ids ∧ e.toNode ∈ ids) :
    ∃ net, network ids solver reference atNs edges = some net ∧
      Places ids.get solver reference atNs edges net := by
  obtain ⟨r, foundR, nameR⟩ := index_spec referenceListed
  obtain ⟨me, foundMe, nameMe⟩ := index_spec solverListed
  have placed : ∀ e : EdgeEstimate F, ∃ p, e ∈ edges → place ids e = some p ∧ p.edge = e ∧
      ids.get p.a = e.fromNode ∧ ids.get p.b = e.toNode := by
    intro e
    by_cases member : e ∈ edges
    · obtain ⟨p, spec⟩ := place_spec (listed e member).1 (listed e member).2
      exact ⟨p, fun _ => spec⟩
    · exact ⟨⟨e, r, r⟩, fun absent => absurd absent member⟩
  choose put spec using placed
  have all : (edges.filter EdgeEstimate.usable).mapM (place ids) =
      some ((edges.filter EdgeEstimate.usable).map put) :=
    Loop.mapM_eq_map fun e member => (spec e (List.mem_of_mem_filter member)).1
  refine ⟨⟨r, me, atNs, (edges.filter EdgeEstimate.usable).map put⟩, by
    simp [network, all, foundR, foundMe], ?_, nameR, nameMe, rfl, ?_, ?_⟩
  · exact fun i j same => (List.nodup_iff_injective_get.mp nodup) same
  · rw [List.map_map]
    refine (List.map_congr_left fun e member => ?_).trans (List.map_id _)
    exact (spec e (List.mem_of_mem_filter member)).2.1
  · intro p member
    obtain ⟨e, inside, rfl⟩ := List.mem_map.mp member
    obtain ⟨_, edge, nameA, nameB⟩ := spec e (List.mem_of_mem_filter inside)
    exact ⟨by rw [edge]; exact nameA, by rw [edge]; exact nameB⟩

/-! ### The component -/

theorem mem_adjacency {placed : List (Placed F n)} {u v : Fin n} :
    v ∈ adjacency placed u ↔ ∃ p ∈ placed, (p.a = u ∧ p.b = v) ∨ (p.a = v ∧ p.b = u) := by
  have collected : ∀ (placed : List (Placed F n)) (adj : Fin n → Finset (Fin n)),
      v ∈ placed.foldl (fun adj p =>
        let adj := Function.update adj p.a (insert p.b (adj p.a))
        Function.update adj p.b (insert p.a (adj p.b))) adj u ↔
      v ∈ adj u ∨ ∃ p ∈ placed, (p.a = u ∧ p.b = v) ∨ (p.a = v ∧ p.b = u) := by
    intro placed
    induction placed with
    | nil => simp
    | cons p placed ih =>
      intro adj
      rw [List.foldl_cons, ih]
      have first : v ∈ (let adj := Function.update adj p.a (insert p.b (adj p.a))
          Function.update adj p.b (insert p.a (adj p.b))) u ↔
          v ∈ adj u ∨ (p.a = u ∧ p.b = v) ∨ (p.a = v ∧ p.b = u) := by
        simp only [Function.update_apply]
        split_ifs <;> simp_all <;> tauto
      rw [first, or_assoc]
      simp only [List.mem_cons, exists_eq_or_imp]
  rw [adjacency, collected]
  simp

namespace Network

variable (net : Network F n)

/-- Two numbers are joined by a placed edge. -/
def Adjacent (u v : Fin n) : Prop :=
  ∃ p ∈ net.placed, (p.a = u ∧ p.b = v) ∨ (p.a = v ∧ p.b = u)

variable {net}

theorem mem_neighbours {u v : Fin n} : v ∈ net.neighbours u ↔ net.Adjacent u v := by
  rw [neighbours, Finset.mem_sort, mem_adjacency, Adjacent]

/-- **The members are what is connected to the reference.** -/
theorem mem_members {v : Fin n} :
    v ∈ net.members ↔ Relation.ReflTransGen net.Adjacent net.r v := by
  rw [members, component, Bfs.mem_search]
  simp only [mem_neighbours]

theorem root_mem : net.r ∈ net.members := mem_members.mpr Relation.ReflTransGen.refl

theorem members_closed {u v : Fin n} (member : u ∈ net.members) (adjacent : net.Adjacent u v) :
    v ∈ net.members := mem_members.mpr ((mem_members.mp member).tail adjacent)

theorem mem_inside {p : Placed F n} :
    p ∈ net.inside ↔ p ∈ net.placed ∧ p.a ∈ net.members := by
  rw [inside, List.mem_filter, decide_eq_true_eq]

/-- Both ends of an edge inside are members. -/
theorem inside_ends {p : Placed F n} (member : p ∈ net.inside) :
    p.a ∈ net.members ∧ p.b ∈ net.members := by
  obtain ⟨placed, first⟩ := mem_inside.mp member
  exact ⟨first, members_closed first ⟨p, placed, Or.inl ⟨rfl, rfl⟩⟩⟩

/-- An edge that touches a member is inside. -/
theorem mem_inside_of_adjacent {p : Placed F n} (placed : p ∈ net.placed) {u v : Fin n}
    (member : u ∈ net.members) (ends : (p.a = u ∧ p.b = v) ∨ (p.a = v ∧ p.b = u)) :
    p ∈ net.inside := by
  refine mem_inside.mpr ⟨placed, ?_⟩
  rcases ends with ⟨rfl, rfl⟩ | ⟨rfl, rfl⟩
  · exact member
  · exact members_closed member ⟨p, placed, Or.inr ⟨rfl, rfl⟩⟩

theorem mem_order {v : Fin n} : v ∈ net.component.order ↔ v ∈ net.members := by
  obtain ⟨d, finished⟩ := Bfs.search_finished net.neighbours net.r
  exact (finished.listed v).symm

variable (net) in
/-- **The component's tree**, its layers, and the layers a joined pair spans. -/
theorem rooted : Tree.Rooted net.component.order net.component.parent net.depth net.r ∧
    (∀ u ∈ net.component.order, ∀ v, net.Adjacent u v → net.depth v ≤ net.depth u + 1) ∧
    ∀ u v, net.component.parent u = some v → u ∈ net.component.order ∧ net.Adjacent v u := by
  obtain ⟨d, finished⟩ := Bfs.search_finished net.neighbours net.r
  have tree : Tree.Rooted net.component.order net.component.parent d net.r :=
    { nodup := finished.nodup
      sorted := finished.sorted
      root_mem := finished.root
      root_parent := finished.root_parent
      has_parent := fun v listed other => by
        obtain ⟨u, before, above, _, deeper⟩ := finished.has_parent v listed other
        exact ⟨u, before, above, deeper⟩ }
  refine ⟨tree.computed, fun u listed v adjacent => ?_, fun u v above => ?_⟩
  · obtain ⟨found, near⟩ := finished.closed u listed v (mem_neighbours.mpr adjacent)
    rw [tree.depth_eq listed, tree.depth_eq found] at near
    unfold depth
    omega
  · have listed : u ∈ net.component.order := by
      by_contra outside
      have none := finished.unfound u outside
      exact absurd (none.symm.trans above) (by simp)
    have other : u ≠ net.r := by
      rintro rfl
      rw [tree.root_parent] at above
      cases above
    obtain ⟨w, _, above', neighbour, _⟩ := finished.has_parent u listed other
    have same : w = v := Option.some.inj (above'.symm.trans above)
    exact ⟨listed, mem_neighbours.mp (same ▸ neighbour)⟩

end Network

/-! ### The component, by ids -/

section Names

variable {name : Fin n → NodeId} {solver reference : NodeId} {atNs : ℕ}
  {edges : List (EdgeEstimate F)} {net : Network F n}

theorem Places.usable (places : Places name solver reference atNs edges net) {p : Placed F n}
    (member : p ∈ net.placed) : p.edge ∈ edges ∧ p.edge.usable = true := by
  have edge : p.edge ∈ edges.filter EdgeEstimate.usable :=
    places.edges ▸ List.mem_map_of_mem member
  exact List.mem_filter.mp edge

/-- A usable edge is placed. -/
theorem Places.exists_placed (places : Places name solver reference atNs edges net)
    {e : EdgeEstimate F} (member : e ∈ edges) (usable : e.usable = true) :
    ∃ p ∈ net.placed, p.edge = e ∧ name p.a = p.edge.fromNode ∧ name p.b = p.edge.toNode := by
  have listed : e ∈ net.placed.map Placed.edge :=
    places.edges ▸ List.mem_filter.mpr ⟨member, usable⟩
  obtain ⟨p, placed, same⟩ := List.mem_map.mp listed
  exact ⟨p, placed, same, places.ends p placed⟩

/-- Two numbers are joined exactly when their ids are. -/
theorem Places.joined_iff (places : Places name solver reference atNs edges net) {u v : Fin n} :
    Joined edges (name u) (name v) ↔ net.Adjacent u v := by
  constructor
  · rintro ⟨e, member, usable, ends⟩
    obtain ⟨p, placed, rfl, nameA, nameB⟩ := places.exists_placed member usable
    refine ⟨p, placed, ?_⟩
    rw [← nameA, ← nameB] at ends
    exact ends.imp (fun both => ⟨places.injective both.1, places.injective both.2⟩)
      fun both => ⟨places.injective both.1, places.injective both.2⟩
  · rintro ⟨p, placed, ends⟩
    obtain ⟨nameA, nameB⟩ := places.ends p placed
    obtain ⟨member, usable⟩ := places.usable placed
    refine ⟨p.edge, member, usable, ?_⟩
    rcases ends with ⟨rfl, rfl⟩ | ⟨rfl, rfl⟩
    · exact Or.inl ⟨nameA.symm, nameB.symm⟩
    · exact Or.inr ⟨nameA.symm, nameB.symm⟩

/-- A node joined to a numbered one has a number. -/
theorem Places.exists_number (places : Places name solver reference atNs edges net) {i j : NodeId}
    (joined : Joined edges i j) : ∃ v, name v = j := by
  obtain ⟨e, member, usable, ends⟩ := joined
  obtain ⟨p, placed, rfl, nameA, nameB⟩ := places.exists_placed member usable
  rcases ends with both | both
  · exact ⟨p.b, nameB.trans both.2⟩
  · exact ⟨p.a, nameA.trans both.1⟩

/-- **A node is connected to the reference exactly when it is a member.** -/
theorem Places.connected_iff (places : Places name solver reference atNs edges net)
    {id : NodeId} : Connected edges reference id ↔ ∃ v ∈ net.members, name v = id := by
  constructor
  · intro connected
    induction connected with
    | refl => exact ⟨net.r, Network.root_mem, places.reference⟩
    | tail _ joined ih =>
      obtain ⟨u, member, rfl⟩ := ih
      obtain ⟨v, rfl⟩ := places.exists_number joined
      exact ⟨v, Network.members_closed member (places.joined_iff.mp joined), rfl⟩
  · rintro ⟨v, member, rfl⟩
    have path := Network.mem_members.mp member
    rw [← places.reference]
    clear member
    induction path with
    | refl => exact Relation.ReflTransGen.refl
    | tail _ adjacent ih => exact ih.tail (places.joined_iff.mpr adjacent)

theorem Places.connected_name (places : Places name solver reference atNs edges net) {v : Fin n} :
    Connected edges reference (name v) ↔ v ∈ net.members := by
  rw [places.connected_iff]
  exact ⟨fun ⟨w, member, same⟩ => places.injective same ▸ member, fun member => ⟨v, member, rfl⟩⟩

theorem Places.instantMapped_iff (places : Places name solver reference atNs edges net) :
    net.instantMapped = true ↔ Connected edges reference solver := by
  rw [Network.instantMapped, decide_eq_true_eq, ← places.connected_name, places.solver]

end Names

end Rtfsn
