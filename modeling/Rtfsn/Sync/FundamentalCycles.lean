/-
**The cycles of a frame are the fundamental cycles of the measured component.**

* `mem_pairs`: a pair is merged exactly when an edge inside joins its ends.
* `exists_fundamental`: the tree paths of a chord always meet, and close a simple cycle. Neither end
  is above the other: a measured pair spans at most one layer, and a node one layer above on the
  other's path is its parent.
* `exists_frame`: so no lookup fails, and the cycles are read off the chords.
* `length_chords`: there is one chord for each measured pair that is not one of the tree's edges.
* `solveFrame_cycles`: the statement by ids, for every type of numbers.
-/
import Rtfsn.Sync.FrameGraph

set_option linter.unusedSectionVars false

namespace Rtfsn

variable {F : Type} [F64 F] {n : ℕ}

/-! ### Merged pairs -/

theorem pairKey_comm (a b : Fin n) : pairKey a b = pairKey b a := by
  unfold pairKey
  rcases lt_trichotomy a b with below | rfl | above
  · rw [if_pos below, if_neg below.asymm]
  · rfl
  · rw [if_neg above.asymm, if_pos above]

theorem pairKey_of_lt {a b : Fin n} (below : a < b) : pairKey a b = toLex (a, b) := by
  rw [pairKey, if_pos below]

/-- A key names its pair. -/
theorem pairKey_inj {a b c d : Fin n} :
    pairKey a b = pairKey c d ↔ (a = c ∧ b = d) ∨ (a = d ∧ b = c) := by
  unfold pairKey
  rw [toLex_inj]
  split_ifs with first second second <;> simp only [Prod.mk.injEq] <;> omega

theorem mem_mergePairs {key : Fin n ×ₗ Fin n} (obs : List (Obs F n × Obs F n))
    (pairs : Std.ExtTreeMap (Fin n ×ₗ Fin n) (Pair F)) :
    key ∈ obs.foldl mergePair pairs ↔ key ∈ pairs ∨ ∃ o ∈ obs, pairKey o.1.a o.1.b = key := by
  induction obs generalizing pairs with
  | nil => simp
  | cons o obs ih =>
    rw [List.foldl_cons, ih]
    simp only [mergePair, Std.ExtTreeMap.mem_insert, compare_eq_iff_eq, List.mem_cons,
      exists_eq_or_imp]
    tauto

namespace Network

variable {net : Network F n}

/-- The offsets that the last pass reads the edges at. -/
def settling (net : Network F n) : Fin n → F :=
  (net.pass (net.pass ⟨fun _ => 0, fun _ => 0, []⟩)).offset

theorem reading_obs : net.reading.obs = net.inside.map (net.offsetOb net.settling) := rfl

theorem zip_obs : net.reading.obs.zip net.driftObs =
    net.inside.map fun p => (net.offsetOb net.settling p, p.driftOb) := by
  rw [reading_obs, driftObs, List.zip_map']

/-- Two members are joined by an edge inside. -/
def Measured (net : Network F n) (u v : Fin n) : Prop :=
  ∃ p ∈ net.inside, (p.a = u ∧ p.b = v) ∨ (p.a = v ∧ p.b = u)

theorem Measured.symm {u v : Fin n} (measured : net.Measured u v) : net.Measured v u := by
  obtain ⟨p, member, ends⟩ := measured
  exact ⟨p, member, ends.symm⟩

theorem Measured.adjacent {u v : Fin n} (measured : net.Measured u v) : net.Adjacent u v := by
  obtain ⟨p, member, ends⟩ := measured
  exact ⟨p, (mem_inside.mp member).1, ends⟩

theorem Measured.members {u v : Fin n} (measured : net.Measured u v) :
    u ∈ net.members ∧ v ∈ net.members := by
  obtain ⟨p, member, ⟨rfl, rfl⟩ | ⟨rfl, rfl⟩⟩ := measured
  · exact inside_ends member
  · exact (inside_ends member).symm

theorem measured_of_adjacent {u v : Fin n} (member : u ∈ net.members)
    (adjacent : net.Adjacent u v) : net.Measured u v := by
  obtain ⟨p, placed, ends⟩ := adjacent
  exact ⟨p, mem_inside_of_adjacent placed member ends, ends⟩

/-- **A pair is merged exactly when it is measured.** -/
theorem mem_pairs {u v : Fin n} : pairKey u v ∈ net.pairs ↔ net.Measured u v := by
  rw [pairs, zip_obs, mem_mergePairs]
  simp only [Std.ExtTreeMap.not_mem_empty, false_or, List.mem_map, exists_exists_and_eq_and,
    offsetOb, pairKey_inj, Measured]

/-- No edge joins a node to itself. -/
def Loopless (net : Network F n) : Prop := ∀ p ∈ net.placed, p.a ≠ p.b

theorem Measured.ne {u v : Fin n} (measured : net.Measured u v) (loopless : net.Loopless) :
    u ≠ v := by
  obtain ⟨p, inside, ends⟩ := measured
  have apart := loopless p (mem_inside.mp inside).1
  rcases ends with ⟨rfl, rfl⟩ | ⟨rfl, rfl⟩
  · exact apart
  · exact apart.symm

/-- The merged pairs run low to high. -/
theorem exists_pair (loopless : net.Loopless) {key : Fin n ×ₗ Fin n} (merged : key ∈ net.pairs) :
    ∃ u v, key = toLex (u, v) ∧ u < v ∧ net.Measured u v := by
  have collected := merged
  rw [pairs, zip_obs, mem_mergePairs] at collected
  obtain absent | ⟨o, inside, rfl⟩ := collected
  · simp at absent
  obtain ⟨p, member, rfl⟩ := List.mem_map.mp inside
  have distinct : p.a ≠ p.b := loopless p (mem_inside.mp member).1
  rcases lt_or_gt_of_ne distinct with below | above
  · exact ⟨p.a, p.b, pairKey_of_lt below, below, p, member, Or.inl ⟨rfl, rfl⟩⟩
  · refine ⟨p.b, p.a, ?_, above, p, member, Or.inr ⟨rfl, rfl⟩⟩
    rw [← pairKey_of_lt above, pairKey_comm]
    rfl

theorem mem_pairs_of_lt {u v : Fin n} (below : u < v) :
    toLex (u, v) ∈ net.pairs ↔ net.Measured u v := by
  rw [← pairKey_of_lt below, mem_pairs]

/-! ### The cycle of a chord -/

/-- The pair is an edge of the component's tree. -/
def TreeEdge (net : Network F n) (u v : Fin n) : Prop := Tree.Edge net.component.parent u v

theorem TreeEdge.measured {u v : Fin n} (edge : net.TreeEdge u v) : net.Measured u v := by
  obtain ⟨_, _, climbs⟩ := net.rooted
  rcases edge with above | above
  · obtain ⟨listed, adjacent⟩ := climbs u v above
    exact measured_of_adjacent (mem_order.mp listed)
      (adjacent.imp fun p both => ⟨both.1, both.2.symm⟩)
  · obtain ⟨listed, adjacent⟩ := climbs v u above
    exact (measured_of_adjacent (mem_order.mp listed)
      (adjacent.imp fun p both => ⟨both.1, both.2.symm⟩)).symm

theorem isTreePair_iff {u v : Fin n} :
    net.isTreePair (toLex (u, v)) = true ↔ net.TreeEdge u v := by
  rw [isTreePair, decide_eq_true_eq]
  exact or_comm

theorem mem_chords (loopless : net.Loopless) {key : Fin n ×ₗ Fin n} :
    key ∈ net.chords ↔
      ∃ u v, key = toLex (u, v) ∧ u < v ∧ net.Measured u v ∧ ¬ net.TreeEdge u v := by
  rw [chords, List.mem_filter, Std.ExtTreeMap.mem_keys]
  constructor
  · rintro ⟨merged, notTree⟩
    obtain ⟨u, v, rfl, below, measured⟩ := exists_pair loopless merged
    refine ⟨u, v, rfl, below, measured, fun edge => ?_⟩
    rw [isTreePair_iff.mpr edge] at notTree
    cases notTree
  · rintro ⟨u, v, rfl, below, measured, notTree⟩
    refine ⟨(mem_pairs_of_lt below).mpr measured, ?_⟩
    rw [Bool.not_eq_true', Bool.eq_false_iff]
    exact fun edge => notTree (isTreePair_iff.mp edge)

/-- A cycle that one chord closes with tree edges. -/
structure Fundamental (net : Network F n) (u v : Fin n) (nodes : List (Fin n)) : Prop where
  nodup : nodes.Nodup
  long : 3 ≤ nodes.length
  closing : ∃ rest, Tree.closedPairs nodes = (u, v) :: rest ∧
    ∀ p ∈ rest, net.TreeEdge p.1 p.2

/-- One end of a chord is not on the other's way up. -/
theorem not_above {u v : Fin n} (measured : net.Measured u v) (notTree : ¬ net.TreeEdge u v)
    (distinct : u ≠ v) {path : List (Fin n)}
    (climbed : Tree.Climbed net.component.parent u path v) : False := by
  obtain ⟨tree, near, _⟩ := net.rooted
  have listedU := mem_order.mpr measured.members.1
  have listedV := mem_order.mpr measured.members.2
  rcases tree.climbed_cases climbed listedU with same | above | far
  · exact distinct same.symm
  · exact notTree (Or.inl above)
  · have layer := near v listedV u measured.symm.adjacent
    omega

/-- **The tree paths of a chord meet and close a simple cycle.** -/
theorem exists_fundamental {u v : Fin n} (measured : net.Measured u v)
    (notTree : ¬ net.TreeEdge u v) (distinct : u ≠ v) :
    ∃ nodes, net.cycleNodes u v = some nodes ∧ net.Fundamental u v nodes := by
  obtain ⟨tree, _, _⟩ := net.rooted
  have listedU := mem_order.mpr measured.members.1
  have listedV := mem_order.mpr measured.members.2
  have ground : net.depth net.r = 0 := tree.depths_root
  obtain ⟨upU, upV, a, met, climbing⟩ := tree.climb_spec ground listedU listedV
    (Tree.Climbing.start _ _ u v) le_rfl
  have leftAway : u ≠ a := by
    rintro rfl
    exact not_above measured.symm (fun edge => notTree edge.symm) distinct.symm climbing.right
  have rightAway : v ≠ a := by
    rintro rfl
    exact not_above measured notTree distinct climbing.left
  obtain ⟨nodup, long⟩ := tree.nodup_stitch listedU listedV climbing leftAway rightAway
  exact ⟨Tree.stitch u v upU upV, by simp [cycleNodes, met], nodup, long,
    climbing.closedPairs_stitch leftAway⟩

theorem Fundamental.measured {u v : Fin n} {nodes : List (Fin n)}
    (fundamental : net.Fundamental u v nodes) (measured : net.Measured u v) :
    ∀ p ∈ Tree.closedPairs nodes, net.Measured p.1 p.2 := by
  obtain ⟨rest, pairs, edges⟩ := fundamental.closing
  rw [pairs]
  intro p inside
  rcases List.mem_cons.mp inside with rfl | later
  · exact measured
  · exact (edges p later).measured

/-! ### The walk around it -/

/-- The merged readings of walking `a → b`. -/
def step (net : Network F n) (a b : Fin n) : Step F := (net.walk a b).getD Step.zero

theorem walk_eq_step {a b : Fin n} (measured : net.Measured a b) :
    net.walk a b = some (net.step a b) := by
  obtain ⟨p, found⟩ : ∃ p, net.pairs[pairKey a b]? = some p :=
    Option.isSome_iff_exists.mp
      (Std.ExtTreeMap.isSome_getElem?_iff_mem.mpr (mem_pairs.mpr measured))
  simp [step, walk, found]

/-- The readings summed around a closed walk. -/
def around (net : Network F n) (nodes : List (Fin n)) : Step F :=
  (Tree.closedPairs nodes).foldl (fun s p => s.add (net.step p.1 p.2)) Step.zero

theorem walkSum_eq {nodes : List (Fin n)}
    (measured : ∀ p ∈ Tree.closedPairs nodes, net.Measured p.1 p.2) :
    net.walkSum nodes = some (net.around nodes) := by
  refine Loop.foldlM_eq_foldl (fun p inside s => ?_) _
  rw [walk_eq_step (measured p inside)]
  rfl

/-- The cycles as they come out, before they are sorted. -/
structure Cycles (net : Network F n) (nodes : Fin n ×ₗ Fin n → List (Fin n)) : Prop where
  stitched : ∀ key ∈ net.chords, net.cycleNodes (ofLex key).1 (ofLex key).2 = some (nodes key)
  fundamental : ∀ u v, toLex (u, v) ∈ net.chords → net.Fundamental u v (nodes (toLex (u, v)))
  found : ∀ name, net.chords.mapM (net.cycle name) =
    some (net.chords.map fun key => defect name (nodes key) (net.around (nodes key)))

/-- **Every chord gives its cycle.** -/
theorem exists_cycles (loopless : net.Loopless) : ∃ nodes, net.Cycles nodes := by
  have each : ∀ key : Fin n ×ₗ Fin n, ∃ nodes, key ∈ net.chords →
      net.cycleNodes (ofLex key).1 (ofLex key).2 = some nodes ∧
      net.Fundamental (ofLex key).1 (ofLex key).2 nodes ∧
      net.Measured (ofLex key).1 (ofLex key).2 := by
    intro key
    by_cases chord : key ∈ net.chords
    · obtain ⟨u, v, rfl, below, measured, notTree⟩ := (mem_chords loopless).mp chord
      obtain ⟨nodes, found, fundamental⟩ := exists_fundamental measured notTree below.ne
      exact ⟨nodes, fun _ => ⟨found, fundamental, measured⟩⟩
    · exact ⟨[], fun absent => absurd absent chord⟩
  choose nodes spec using each
  refine ⟨nodes, fun key chord => (spec key chord).1, fun u v chord => (spec _ chord).2.1,
    fun name => ?_⟩
  refine Loop.mapM_eq_map fun key chord => ?_
  obtain ⟨found, fundamental, measured⟩ := spec key chord
  simp [cycle, found, walkSum_eq (fundamental.measured measured)]

/-- The defects as they come out, before they are sorted. -/
def defects (net : Network F n) (name : Fin n → NodeId) (nodes : Fin n ×ₗ Fin n → List (Fin n)) :
    List (CycleDefect F) :=
  net.chords.map fun key => defect name (nodes key) (net.around (nodes key))

/-- **No lookup fails.** -/
theorem exists_frame (loopless : net.Loopless) (name : Fin n → NodeId) :
    ∃ nodes, net.Cycles nodes ∧
      net.frame name = some (net.assemble name (net.defects name nodes)) := by
  obtain ⟨nodes, cycles⟩ := exists_cycles loopless
  refine ⟨nodes, cycles, ?_⟩
  rw [frame, cycles.found name]
  rfl

theorem assemble_cycles (net : Network F n) (name : Fin n → NodeId)
    (cycles : List (CycleDefect F)) : (net.assemble name cycles).cycles.Perm cycles :=
  List.mergeSort_perm _ _

/-! ### How many cycles there are -/

/-- The pair of a node and its parent. -/
def parentPair (net : Network F n) (v : Fin n) : Fin n ×ₗ Fin n :=
  match net.component.parent v with
  | some u => pairKey u v
  | none => toLex (v, v)

/-- The merged pairs that are tree edges are the members' pairs with their parents. -/
theorem treePairs_eq (loopless : net.Loopless) :
    (net.pairs.keys.toFinset.filter fun key => net.isTreePair key = true) =
      (net.component.order.toFinset.erase net.r).image net.parentPair := by
  obtain ⟨tree, _, climbs⟩ := net.rooted
  ext key
  simp only [Finset.mem_filter, List.mem_toFinset, Std.ExtTreeMap.mem_keys, Finset.mem_image,
    Finset.mem_erase]
  constructor
  · rintro ⟨merged, isTree⟩
    obtain ⟨u, v, rfl, below, _⟩ := exists_pair loopless merged
    rcases isTreePair_iff.mp isTree with above | above
    · have listed := (climbs u v above).1
      refine ⟨u, ⟨fun root => ?_, listed⟩, ?_⟩
      · rw [root, tree.root_parent] at above
        cases above
      · rw [parentPair, above, ← pairKey_of_lt below, pairKey_comm]
    · have listed := (climbs v u above).1
      refine ⟨v, ⟨fun root => ?_, listed⟩, ?_⟩
      · rw [root, tree.root_parent] at above
        cases above
      · rw [parentPair, above, ← pairKey_of_lt below]
  · rintro ⟨v, ⟨other, listed⟩, rfl⟩
    obtain ⟨u, _, above, _⟩ := tree.has_parent v listed other
    have edge : net.TreeEdge u v := Or.inr above
    have merged := mem_pairs.mpr edge.measured
    have pair : net.parentPair v = pairKey u v := by rw [parentPair, above]
    rw [pair]
    refine ⟨merged, ?_⟩
    obtain ⟨a, b, eq, below, _⟩ := exists_pair loopless merged
    rw [eq, isTreePair_iff]
    rw [← pairKey_of_lt below] at eq
    rcases pairKey_inj.mp eq with ⟨rfl, rfl⟩ | ⟨rfl, rfl⟩
    · exact edge
    · exact Or.symm edge

/-- A node's pair with its parent is no other node's. -/
theorem parentPair_injOn :
    Set.InjOn net.parentPair (net.component.order.toFinset.erase net.r : Finset (Fin n)) := by
  obtain ⟨tree, _, _⟩ := net.rooted
  intro v memberV w memberW same
  obtain ⟨otherV, listedV⟩ := Finset.mem_erase.mp (Finset.mem_coe.mp memberV)
  obtain ⟨otherW, listedW⟩ := Finset.mem_erase.mp (Finset.mem_coe.mp memberW)
  obtain ⟨u, _, above, deeper⟩ := tree.has_parent v (List.mem_toFinset.mp listedV) otherV
  obtain ⟨u', _, above', deeper'⟩ := tree.has_parent w (List.mem_toFinset.mp listedW) otherW
  simp only [parentPair, above, above', pairKey_inj] at same
  rcases same with ⟨_, same⟩ | ⟨rfl, rfl⟩
  · exact same
  · omega

/-- **One chord for each merged pair that is not one of the tree's `m - 1`.** -/
theorem length_chords (loopless : net.Loopless) :
    net.chords.length + (net.component.order.length - 1) = net.pairs.keys.length := by
  obtain ⟨tree, _, _⟩ := net.rooted
  have nodup := net.pairs.nodup_keys
  have members : (net.component.order.toFinset.erase net.r).card =
      net.component.order.length - 1 := by
    rw [Finset.card_erase_of_mem (List.mem_toFinset.mpr tree.root_mem),
      List.toFinset_card_of_nodup tree.nodup]
  have trees : (net.pairs.keys.filter fun key => net.isTreePair key).length =
      net.component.order.length - 1 := by
    rw [← members, ← Finset.card_image_of_injOn parentPair_injOn, ← treePairs_eq loopless,
      ← List.toFinset_card_of_nodup (nodup.filter _), List.toFinset_filter]
  rw [← trees, chords, add_comm]
  exact (List.length_eq_length_filter_add fun key => net.isTreePair key).symm

end Network

/-! ### By ids -/

/-- The distinct unordered pairs that a usable edge joins inside the reference's component. -/
def measuredPairs (edges : List (EdgeEstimate F)) (reference : NodeId) : Set (Sym2 NodeId) :=
  {pair | ∃ e ∈ edges, e.usable = true ∧ Connected edges reference e.fromNode ∧
    pair = s(e.fromNode, e.toNode)}

/-- The pairs of a cycle, the last node with the first. -/
def CycleDefect.pairs (c : CycleDefect F) : List (Sym2 NodeId) :=
  (Tree.closedPairs c.nodes).map fun p => s(p.1, p.2)

/-- The pairs of a component's tree. -/
def Network.treePairs (net : Network F n) (name : Fin n → NodeId) : Set (Sym2 NodeId) :=
  {pair | ∃ u v, net.TreeEdge u v ∧ pair = s(name u, name v)}

section Names

variable {name : Fin n → NodeId} {solver reference : NodeId} {atNs : ℕ}
  {edges : List (EdgeEstimate F)} {net : Network F n}

theorem Places.loopless (places : Places name solver reference atNs edges net) : net.Loopless := by
  intro p member same
  obtain ⟨_, usable⟩ := places.usable member
  obtain ⟨nameA, nameB⟩ := places.ends p member
  simp only [EdgeEstimate.usable, ← nameA, ← nameB, same] at usable
  simp at usable

theorem Places.sym2_inj (places : Places name solver reference atNs edges net) {u v u' v' : Fin n} :
    s(name u, name v) = s(name u', name v') ↔ (u = u' ∧ v = v') ∨ (u = v' ∧ v = u') := by
  rw [Sym2.eq_iff, places.injective.eq_iff, places.injective.eq_iff, places.injective.eq_iff,
    places.injective.eq_iff]

theorem Places.mem_measuredPairs (places : Places name solver reference atNs edges net)
    {u v : Fin n} : s(name u, name v) ∈ measuredPairs edges reference ↔ net.Measured u v := by
  constructor
  · rintro ⟨e, member, usable, connected, same⟩
    obtain ⟨p, placed, rfl, nameA, nameB⟩ := places.exists_placed member usable
    rw [← nameA, ← nameB, places.sym2_inj] at same
    rw [← nameA, places.connected_name] at connected
    refine ⟨p, Network.mem_inside.mpr ⟨placed, connected⟩, ?_⟩
    exact same.imp (fun both => ⟨both.1.symm, both.2.symm⟩) fun both => ⟨both.2.symm, both.1.symm⟩
  · rintro ⟨p, inside, ends⟩
    obtain ⟨placed, member⟩ := Network.mem_inside.mp inside
    obtain ⟨nameA, nameB⟩ := places.ends p placed
    obtain ⟨listed, usable⟩ := places.usable placed
    refine ⟨p.edge, listed, usable, nameA ▸ places.connected_name.mpr member, ?_⟩
    rw [← nameA, ← nameB, places.sym2_inj]
    exact ends.imp (fun both => ⟨both.1.symm, both.2.symm⟩) fun both => ⟨both.2.symm, both.1.symm⟩

theorem Places.mem_treePairs (places : Places name solver reference atNs edges net) {u v : Fin n} :
    s(name u, name v) ∈ net.treePairs name ↔ net.TreeEdge u v := by
  constructor
  · rintro ⟨u', v', edge, same⟩
    rcases places.sym2_inj.mp same with ⟨rfl, rfl⟩ | ⟨rfl, rfl⟩
    · exact edge
    · exact Or.symm edge
  · exact fun edge => ⟨u, v, edge, rfl⟩

/-- **The merged pairs are the measured ones**, counted without their order. -/
theorem Places.ncard_measuredPairs (places : Places name solver reference atNs edges net) :
    (measuredPairs edges reference).ncard = net.pairs.keys.length := by
  have image : measuredPairs edges reference =
      (net.pairs.keys.toFinset.image fun key => s(name (ofLex key).1, name (ofLex key).2) :
        Finset (Sym2 NodeId)) := by
    ext pair
    simp only [Finset.coe_image, List.coe_toFinset, Std.ExtTreeMap.mem_keys, Set.mem_image]
    constructor
    · intro measured
      obtain ⟨e, member, usable, connected, rfl⟩ := id measured
      obtain ⟨u, _, nameU⟩ := places.connected_iff.mp connected
      obtain ⟨v, nameV⟩ := places.exists_number
        ⟨e, member, usable, Or.inl ⟨rfl, rfl⟩⟩
      rw [← nameU, ← nameV] at measured ⊢
      have both := places.mem_measuredPairs.mp measured
      refine ⟨pairKey u v, Network.mem_pairs.mpr both, ?_⟩
      unfold pairKey
      split_ifs
      · rfl
      · exact Sym2.eq_swap
    · rintro ⟨key, merged, rfl⟩
      obtain ⟨u, v, rfl, _, measured⟩ := Network.exists_pair places.loopless merged
      exact places.mem_measuredPairs.mpr measured
  have injective : Set.InjOn (fun key : Fin n ×ₗ Fin n => s(name (ofLex key).1, name (ofLex key).2))
      net.pairs.keys.toFinset := by
    intro first memberFirst second memberSecond same
    rw [List.coe_toFinset, Set.mem_ofPred_eq, Std.ExtTreeMap.mem_keys] at memberFirst memberSecond
    obtain ⟨u, v, rfl, below, _⟩ := Network.exists_pair places.loopless memberFirst
    obtain ⟨u', v', rfl, below', _⟩ := Network.exists_pair places.loopless memberSecond
    rcases places.sym2_inj.mp same with ⟨rfl, rfl⟩ | ⟨rfl, rfl⟩
    · rfl
    · exact absurd below below'.asymm
  rw [image, Set.ncard_coe_finset, Finset.card_image_of_injOn injective,
    List.toFinset_card_of_nodup net.pairs.nodup_keys]

/-- The cycle of a chord, by ids: its only pair that is no tree edge is the chord. -/
theorem Places.defect_chord (places : Places name solver reference atNs edges net) {u v : Fin n}
    {nodes : List (Fin n)} (fundamental : net.Fundamental u v nodes) (notTree : ¬ net.TreeEdge u v)
    (sums : Step F) (pair : Sym2 NodeId) :
    (pair ∈ (Network.defect name nodes sums).pairs ∧ pair ∉ net.treePairs name) ↔
      pair = s(name u, name v) := by
  obtain ⟨rest, pairs, edges⟩ := fundamental.closing
  have listed : (Network.defect name nodes sums).pairs =
      s(name u, name v) :: rest.map fun p => s(name p.1, name p.2) := by
    rw [CycleDefect.pairs, Network.defect, Tree.closedPairs_map, pairs]
    simp
  rw [listed]
  constructor
  · rintro ⟨inside, outside⟩
    rcases List.mem_cons.mp inside with rfl | later
    · rfl
    · obtain ⟨p, member, rfl⟩ := List.mem_map.mp later
      exact absurd ⟨p.1, p.2, edges p member, rfl⟩ outside
  · rintro rfl
    exact ⟨List.mem_cons_self, fun inside => notTree (places.mem_treePairs.mp inside)⟩

end Names

/-- A solved frame, and the network by numbers it was solved on. -/
structure Solves (solver reference : NodeId) (atNs : ℕ) (edges : List (EdgeEstimate F))
    (ids : List NodeId) (net : Network F ids.length) (frame : NetworkFrame F) : Prop where
  listed : frameIds solver reference edges = ids
  numbered : network ids solver reference atNs edges = some net
  solved : solveFrame solver reference atNs edges = some frame
  places : Places ids.get solver reference atNs edges net
  parts : ∃ nodes, net.Cycles nodes ∧ frame =
    net.assemble ids.get
      (net.defects ids.get nodes)

/-- **Solving never fails.** -/
theorem exists_solves (solver reference : NodeId) (atNs : ℕ) (edges : List (EdgeEstimate F)) :
    ∃ net frame,
      Solves solver reference atNs edges (frameIds solver reference edges) net frame := by
  obtain ⟨net, numbered, places⟩ := network_places (nodup_frameIds solver reference edges) atNs
    (mem_frameIds.mpr (Or.inl rfl)) (mem_frameIds.mpr (Or.inr (Or.inl rfl)))
    fun e member => ⟨mem_frameIds.mpr (Or.inr (Or.inr ⟨e, member, Or.inl rfl⟩)),
      mem_frameIds.mpr (Or.inr (Or.inr ⟨e, member, Or.inr rfl⟩))⟩
  obtain ⟨nodes, cycles, framed⟩ :=
    Network.exists_frame places.loopless (frameIds solver reference edges).get
  refine ⟨net, _, rfl, numbered, ?_, places, nodes, cycles, rfl⟩
  rw [← framed, solveFrame, numbered]
  rfl

namespace Solves

variable {solver reference : NodeId} {atNs : ℕ} {edges : List (EdgeEstimate F)}
  {ids : List NodeId} {net : Network F ids.length} {frame : NetworkFrame F}

theorem nodes_eq (solves : Solves solver reference atNs edges ids net frame) :
    frame.nodes =
      net.component.order.map (net.nodeFrame ids.get) := by
  obtain ⟨nodes, _, rfl⟩ := solves.parts
  rfl

theorem ids_eq (solves : Solves solver reference atNs edges ids net frame) :
    frame.nodes.map NodeFrame.id =
      net.component.order.map ids.get := by
  rw [solves.nodes_eq, List.map_map]
  rfl

/-- The nodes of the frame are the members, each once. -/
theorem members (solves : Solves solver reference atNs edges ids net frame) :
    (frame.nodes.map NodeFrame.id).Nodup ∧
      ∀ id, id ∈ frame.nodes.map NodeFrame.id ↔ Connected edges reference id := by
  obtain ⟨tree, _, _⟩ := net.rooted
  rw [solves.ids_eq]
  refine ⟨tree.nodup.map solves.places.injective, fun id => ?_⟩
  rw [List.mem_map, solves.places.connected_iff]
  simp only [Network.mem_order]

theorem length_cycles (solves : Solves solver reference atNs edges ids net frame) :
    frame.cycles.length + frame.nodes.length = (measuredPairs edges reference).ncard + 1 := by
  obtain ⟨nodes, _, rfl⟩ := solves.parts
  obtain ⟨tree, _, _⟩ := net.rooted
  have count := Network.length_chords solves.places.loopless
  have some : 0 < net.component.order.length := List.length_pos_of_mem tree.root_mem
  rw [(net.assemble_cycles _ _).length_eq, solves.places.ncard_measuredPairs, ← count]
  simp only [Network.defects, Network.assemble, List.length_map]
  omega

/-- Every cycle is the cycle of a chord. -/
theorem exists_chord (solves : Solves solver reference atNs edges ids net frame) {c : CycleDefect F}
    (listed : c ∈ frame.cycles) : ∃ u v nodes, net.Measured u v ∧ ¬ net.TreeEdge u v ∧
      net.Fundamental u v nodes ∧
      c = Network.defect ids.get nodes (net.around nodes) := by
  obtain ⟨nodes, cycles, rfl⟩ := solves.parts
  obtain ⟨key, chord, rfl⟩ :=
    List.mem_map.mp ((net.assemble_cycles _ _).mem_iff.mp listed)
  obtain ⟨u, v, rfl, below, measured, notTree⟩ :=
    (Network.mem_chords solves.places.loopless).mp chord
  exact ⟨u, v, _, measured, notTree, cycles.fundamental u v chord, rfl⟩

theorem simple (solves : Solves solver reference atNs edges ids net frame) {c : CycleDefect F}
    (listed : c ∈ frame.cycles) : 3 ≤ c.nodes.length ∧ c.nodes.Nodup ∧
      (∀ pair ∈ c.pairs, pair ∈ measuredPairs edges reference) ∧
      ∃! pair, pair ∈ c.pairs ∧ pair ∉ net.treePairs ids.get := by
  obtain ⟨u, v, nodes, measured, notTree, fundamental, rfl⟩ := solves.exists_chord listed
  refine ⟨?_, fundamental.nodup.map solves.places.injective, fun pair inside => ?_,
    s(ids.get u, ids.get v), ?_, ?_⟩
  · simpa [Network.defect] using fundamental.long
  · rw [CycleDefect.pairs, Network.defect, Tree.closedPairs_map, List.map_map] at inside
    obtain ⟨p, member, rfl⟩ := List.mem_map.mp inside
    exact solves.places.mem_measuredPairs.mpr (fundamental.measured measured p member)
  · exact (solves.places.defect_chord fundamental notTree _ _).mpr rfl
  · exact fun pair => (solves.places.defect_chord fundamental notTree _ _).mp

/-- No two cycles share a pair that is no tree edge. -/
theorem apart (solves : Solves solver reference atNs edges ids net frame) :
    frame.cycles.Pairwise fun c c' => ∀ pair ∈ c.pairs,
      pair ∉ net.treePairs ids.get → pair ∉ c'.pairs := by
  obtain ⟨nodes, cycles, rfl⟩ := solves.parts
  have nodup : net.chords.Nodup := net.pairs.nodup_keys.filter _
  rw [(net.assemble_cycles _ _).pairwise_iff
    fun {c c'} apart pair inside outside inside' => apart pair inside' outside inside]
  rw [Network.defects, List.pairwise_map]
  refine nodup.imp_of_mem fun {key key'} chord chord' distinct pair inside outside inside' => ?_
  obtain ⟨u, v, rfl, below, _, notTree⟩ := (Network.mem_chords solves.places.loopless).mp chord
  obtain ⟨u', v', rfl, below', _, notTree'⟩ := (Network.mem_chords solves.places.loopless).mp chord'
  have first := (solves.places.defect_chord (cycles.fundamental u v chord) notTree _ _).mp
    ⟨inside, outside⟩
  have second := (solves.places.defect_chord (cycles.fundamental u' v' chord') notTree' _ _).mp
    ⟨inside', outside⟩
  rcases solves.places.sym2_inj.mp (first.symm.trans second) with ⟨rfl, rfl⟩ | ⟨rfl, rfl⟩
  · exact distinct rfl
  · exact below.asymm below'

end Solves

/-- **The cycles are a set of fundamental cycles of the measured component, and solving never
fails**: one for each measured pair beyond the `m - 1` of the search tree, each a simple closed
walk of at least three nodes along measured pairs, with exactly one pair off the tree, a different
one for every cycle. -/
theorem solveFrame_cycles (solver reference : NodeId) (atNs : ℕ) (edges : List (EdgeEstimate F)) :
    ∃ net frame,
      network (frameIds solver reference edges) solver reference atNs edges = some net ∧
      solveFrame solver reference atNs edges = some frame ∧
      (frame.nodes.map NodeFrame.id).Nodup ∧
      (∀ id, id ∈ frame.nodes.map NodeFrame.id ↔ Connected edges reference id) ∧
      frame.cycles.length + frame.nodes.length = (measuredPairs edges reference).ncard + 1 ∧
      (∀ c ∈ frame.cycles, 3 ≤ c.nodes.length ∧ c.nodes.Nodup ∧
        (∀ pair ∈ c.pairs, pair ∈ measuredPairs edges reference) ∧
        ∃! pair, pair ∈ c.pairs ∧ pair ∉ net.treePairs (frameIds solver reference edges).get) ∧
      frame.cycles.Pairwise fun c c' => ∀ pair ∈ c.pairs,
        pair ∉ net.treePairs (frameIds solver reference edges).get → pair ∉ c'.pairs := by
  obtain ⟨net, frame, solves⟩ := exists_solves solver reference atNs edges
  obtain ⟨nodup, members⟩ := solves.members
  exact ⟨net, frame, solves.numbered, solves.solved, nodup, members, solves.length_cycles,
    fun c listed => solves.simple listed, solves.apart⟩

end Rtfsn
