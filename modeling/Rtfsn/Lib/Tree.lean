/-
Rooted trees given by parents, and the cycles that a further edge closes.

* `Rooted`: every listed node but the root has a parent one layer up. `depths` computes the layers
  from the list, and `exists_potential` sums any step value from the root.
* `climb`: from two nodes the deeper one climbs until they meet. It never misses a parent
  (`climb_spec`), and the two paths meet in their last node only (`Climbing`).
* `stitch`: the edge between two nodes, then up and down the tree. When neither node is above the
  other it is a simple cycle (`nodup_stitch`), and its only pair that is no tree edge is the edge
  (`closedPairs_stitch`).
-/
import Rtfsn.Lib.Loop

set_option linter.unusedSectionVars false

namespace Rtfsn.Tree

variable {V : Type} [DecidableEq V]

/-- Every listed node but the root has a parent in the list, one layer up. -/
structure Rooted (order : List V) (parent : V → Option V) (depth : V → ℕ) (root : V) : Prop where
  nodup : order.Nodup
  sorted : order.Pairwise fun u v => depth u ≤ depth v
  root_mem : root ∈ order
  root_parent : parent root = none
  has_parent : ∀ v ∈ order, v ≠ root → ∃ u ∈ order, parent v = some u ∧ depth v = depth u + 1

/-- One node is the parent of the other. -/
def Edge (parent : V → Option V) (u v : V) : Prop := parent u = some v ∨ parent v = some u

variable {order : List V} {parent : V → Option V} {depth : V → ℕ} {root : V}

theorem Rooted.parent_mem (rooted : Rooted order parent depth root) {u v : V} (listed : v ∈ order)
    (above : parent v = some u) : u ∈ order ∧ depth v = depth u + 1 := by
  have other : v ≠ root := by
    rintro rfl
    rw [rooted.root_parent] at above
    cases above
  obtain ⟨u', before, parent', deeper⟩ := rooted.has_parent v listed other
  rw [above] at parent'
  obtain rfl := Option.some.inj parent'
  exact ⟨before, deeper⟩

/-- A node is listed after its parent. -/
theorem Rooted.before (rooted : Rooted order parent depth root) {before after : List V} {u v : V}
    (split : order = before ++ v :: after) (above : parent v = some u) : u ∈ before := by
  have listed : v ∈ order := by simp [split]
  obtain ⟨member, deeper⟩ := rooted.parent_mem listed above
  have sorted := rooted.sorted
  rw [split] at member sorted
  rcases List.mem_append.mp member with early | late
  · exact early
  · rcases List.mem_cons.mp late with rfl | later
    · omega
    · have deep := (List.pairwise_cons.mp (List.pairwise_append.mp sorted).2.1).1 u later
      omega

/-! ### Values along the tree -/

/-- Each node's layer, from its parent's. -/
def depths (parent : V → Option V) (order : List V) : V → ℕ :=
  Loop.fillAll (fun d u => match parent u with
    | some p => d p + 1
    | none => 0) order fun _ => 0

/-- A step of the loop that reads the parent's entry only. -/
theorem Rooted.readsBack {A : Type} (rooted : Rooted order parent depth root) (g : V → V → A → A)
    (first : A) : Loop.ReadsBack (fun y v => some (match parent v with
      | some u => g u v (y u)
      | none => first)) order := by
  intro before v after split y y' agree
  cases above : parent v with
  | none => simp only [above]
  | some u => simp only [above, agree u (rooted.before split above)]

/-- **Values computed from the parents' values** satisfy their equation all along the tree. -/
theorem Rooted.fillAll_up {A : Type} (rooted : Rooted order parent depth root) (g : V → V → A → A)
    (first : A) (start : V → A) {u v : V} (listed : v ∈ order) (above : parent v = some u) :
    Loop.fillAll (fun y v => match parent v with
        | some u => g u v (y u)
        | none => first) order start v =
      g u v (Loop.fillAll (fun y v => match parent v with
        | some u => g u v (y u)
        | none => first) order start u) := by
  rw [Loop.fillAll_spec (rooted.readsBack g first) rooted.nodup start v listed]
  simp only [above]

/-- The computed layers are the tree's. -/
theorem Rooted.depths_succ (rooted : Rooted order parent depth root) {u v : V} (listed : v ∈ order)
    (above : parent v = some u) : depths parent order v = depths parent order u + 1 := by
  rw [depths]
  exact rooted.fillAll_up (fun _ _ d => d + 1) 0 _ listed above

theorem Rooted.depths_root (rooted : Rooted order parent depth root) :
    depths parent order root = 0 := by
  rw [depths, Loop.fillAll_spec (rooted.readsBack (fun _ _ d => d + 1) 0) rooted.nodup
    (fun _ => 0) root rooted.root_mem]
  simp only [rooted.root_parent]

/-- The tree against its computed layers: the invariant's depths differ from them by a constant. -/
theorem Rooted.depth_eq (rooted : Rooted order parent depth root) {v : V} (listed : v ∈ order) :
    depth v = depths parent order v + depth root := by
  induction k : depth v using Nat.strong_induction_on generalizing v with
  | _ k ih =>
    rcases eq_or_ne v root with rfl | other
    · rw [rooted.depths_root, zero_add, k]
    · obtain ⟨u, before, above, deeper⟩ := rooted.has_parent v listed other
      rw [rooted.depths_succ listed above, ← k, deeper, ih (depth u) (by omega) before rfl]
      omega

theorem Rooted.computed (rooted : Rooted order parent depth root) :
    Rooted order parent (depths parent order) root where
  nodup := rooted.nodup
  sorted := rooted.sorted.imp_of_mem fun {u v} first second before => by
    rw [rooted.depth_eq first, rooted.depth_eq second] at before
    omega
  root_mem := rooted.root_mem
  root_parent := rooted.root_parent
  has_parent := fun v listed other => by
    obtain ⟨u, before, above, _⟩ := rooted.has_parent v listed other
    exact ⟨u, before, above, rooted.depths_succ listed above⟩

/-- **Every value of the tree's steps is the difference of a potential.** -/
theorem Rooted.exists_potential (rooted : Rooted order parent depth root) (g : V → V → ℝ) :
    ∃ x : V → ℝ, ∀ v ∈ order, ∀ u, parent v = some u → x v - x u = g u v := by
  exact ⟨_, fun v listed u above => sub_eq_iff_eq_add'.mpr
    (rooted.fillAll_up (fun u v x => x + g u v) 0 (fun _ => 0) listed above)⟩

/-! ### Climbing -/

/-- Climb from two nodes, the deeper first, until they meet: the two paths, or nothing when a node
has no parent or the fuel is out. -/
def climb (parent : V → Option V) (depth : V → ℕ) :
    ℕ → V → V → List V → List V → Option (List V × List V)
  | 0, x, y, upU, upV => if x = y then some (upU, upV) else none
  | fuel + 1, x, y, upU, upV =>
    if x = y then some (upU, upV)
    else if depth y ≤ depth x then
      (parent x).bind fun x => climb parent depth fuel x y (upU ++ [x]) upV
    else (parent y).bind fun y => climb parent depth fuel x y upU (upV ++ [y])

/-- A path from `u` up to `x`. -/
inductive Climbed (parent : V → Option V) (u : V) : List V → V → Prop
  | here : Climbed parent u [u] u
  | up {path : List V} {x x' : V} (climbed : Climbed parent u path x) (above : parent x = some x') :
      Climbed parent u (path ++ [x']) x'

theorem Climbed.eq_snoc {u x : V} {path : List V} (climbed : Climbed parent u path x) :
    ∃ init, path = init ++ [x] := by
  cases climbed with
  | here => exact ⟨[], rfl⟩
  | up climbed above => exact ⟨_, rfl⟩

theorem Climbed.eq_cons {u x : V} {path : List V} (climbed : Climbed parent u path x) :
    ∃ rest, path = u :: rest := by
  induction climbed with
  | here => exact ⟨[], rfl⟩
  | up _ _ ih =>
    obtain ⟨rest, rfl⟩ := ih
    exact ⟨_, rfl⟩

theorem Climbed.isChain {u x : V} {path : List V} (climbed : Climbed parent u path x) :
    path.IsChain (Edge parent) := by
  induction climbed with
  | here => exact List.isChain_singleton _
  | up climbed above ih =>
    obtain ⟨init, rfl⟩ := climbed.eq_snoc
    refine List.isChain_append.mpr ⟨ih, List.isChain_singleton _, fun x last y head => ?_⟩
    simp only [List.getLast?_concat, Option.mem_def, Option.some.injEq] at last
    simp only [List.head?_cons, Option.mem_def, Option.some.injEq] at head
    subst last head
    exact Or.inl above

/-- A path is listed, and its last node is the only one of its layer or above. -/
theorem Rooted.climbed (rooted : Rooted order parent depth root) {u x : V} {path : List V}
    (climbed : Climbed parent u path x) (listed : u ∈ order) :
    x ∈ order ∧ path.Nodup ∧ ∀ w ∈ path, w ≠ x → depth x < depth w := by
  induction climbed with
  | here => simp [listed]
  | @up path x x' climbed above ih =>
    obtain ⟨member, nodup, deep⟩ := ih
    obtain ⟨member', deeper⟩ := rooted.parent_mem member above
    have below : ∀ w ∈ path, depth x' < depth w := fun w inside => by
      rcases eq_or_ne w x with rfl | other
      · omega
      · have := deep w inside other
        omega
    refine ⟨member', ?_, fun w inside other => ?_⟩
    · refine List.nodup_append.mpr ⟨nodup, List.nodup_singleton _, fun w inside w' same => ?_⟩
      rintro rfl
      obtain rfl := List.mem_singleton.mp same
      exact lt_irrefl _ (below w inside)
    · rcases List.mem_append.mp inside with early | last
      · exact below w early
      · exact absurd (List.mem_singleton.mp last) other

/-- From one node up to another: the same node, its parent, or at least two layers further. -/
theorem Rooted.climbed_cases (rooted : Rooted order parent depth root) {u x : V} {path : List V}
    (climbed : Climbed parent u path x) (listed : u ∈ order) :
    x = u ∨ parent u = some x ∨ depth x + 2 ≤ depth u := by
  induction climbed with
  | here => exact Or.inl rfl
  | up climbed above ih =>
    have step := (rooted.parent_mem (rooted.climbed climbed listed).1 above).2
    rcases ih with rfl | parent | far
    · exact Or.inr (Or.inl above)
    · have first := (rooted.parent_mem listed parent).2
      exact Or.inr (Or.inr (by omega))
    · exact Or.inr (Or.inr (by omega))

/-- Two climbs in progress, `upU` at `x` and `upV` at `y`: neither path has passed a node of the
other. -/
structure Climbing (parent : V → Option V) (depth : V → ℕ) (u v x y : V) (upU upV : List V) :
    Prop where
  left : Climbed parent u upU x
  right : Climbed parent v upV y
  left_above : ∀ w ∈ upU, w ≠ x → depth y ≤ depth w
  right_above : ∀ w ∈ upV, w ≠ y → depth x < depth w
  left_apart : ∀ w ∈ upU, w ≠ x → w ∉ upV
  right_apart : ∀ w ∈ upV, w ≠ y → w ∉ upU

theorem Climbing.start (parent : V → Option V) (depth : V → ℕ) (u v : V) :
    Climbing parent depth u v u v [u] [v] := by
  refine ⟨.here, .here, ?_, ?_, ?_, ?_⟩ <;> simp

/-- The first node climbs. -/
theorem Climbing.left_up {u v x x' y : V} {upU upV : List V}
    (climbing : Climbing parent depth u v x y upU upV) (above : parent x = some x')
    (deeper : depth x = depth x' + 1) (apart : x ≠ y) (deep : depth y ≤ depth x) :
    Climbing parent depth u v x' y (upU ++ [x']) upV := by
  have high : ∀ w ∈ upV, w ≠ y → depth x' < depth w := fun w inside other => by
    have := climbing.right_above w inside other
    omega
  have passed : x ∉ upV := fun inside =>
    climbing.right_apart x inside apart (by
      obtain ⟨init, rfl⟩ := climbing.left.eq_snoc
      simp)
  refine ⟨climbing.left.up above, climbing.right, ?_, high, ?_, ?_⟩
  · intro w inside other
    rcases List.mem_append.mp inside with early | last
    · rcases eq_or_ne w x with rfl | earlier
      · exact deep
      · exact climbing.left_above w early earlier
    · exact absurd (List.mem_singleton.mp last) other
  · intro w inside other
    rcases List.mem_append.mp inside with early | last
    · rcases eq_or_ne w x with rfl | earlier
      · exact passed
      · exact climbing.left_apart w early earlier
    · exact absurd (List.mem_singleton.mp last) other
  · intro w inside other both
    rcases List.mem_append.mp both with early | last
    · exact climbing.right_apart w inside other early
    · obtain rfl := List.mem_singleton.mp last
      exact lt_irrefl _ (high w inside other)

/-- The second node climbs. -/
theorem Climbing.right_up {u v x y y' : V} {upU upV : List V}
    (climbing : Climbing parent depth u v x y upU upV) (above : parent y = some y')
    (deeper : depth y = depth y' + 1) (deep : depth x < depth y) :
    Climbing parent depth u v x y' upU (upV ++ [y']) := by
  have high : ∀ w ∈ upU, w ≠ x → depth y' < depth w := fun w inside other => by
    have := climbing.left_above w inside other
    omega
  have passed : y ∉ upU := fun inside => by
    refine climbing.left_apart y inside (fun same => ?_) ?_
    · rw [same] at deep
      exact lt_irrefl _ deep
    · obtain ⟨init, rfl⟩ := climbing.right.eq_snoc
      simp
  refine ⟨climbing.left, climbing.right.up above, fun w inside other => (high w inside other).le,
    ?_, ?_, ?_⟩
  · intro w inside other
    rcases List.mem_append.mp inside with early | last
    · rcases eq_or_ne w y with rfl | earlier
      · exact deep
      · exact climbing.right_above w early earlier
    · exact absurd (List.mem_singleton.mp last) other
  · intro w inside other both
    rcases List.mem_append.mp both with early | last
    · exact climbing.left_apart w inside other early
    · obtain rfl := List.mem_singleton.mp last
      exact lt_irrefl _ (high w inside other)
  · intro w inside other
    rcases List.mem_append.mp inside with early | last
    · rcases eq_or_ne w y with rfl | earlier
      · exact passed
      · exact climbing.right_apart w early earlier
    · exact absurd (List.mem_singleton.mp last) other

/-- **The climb meets, without a parent missing**, within a step for each layer above the nodes. -/
theorem Rooted.climb_spec (rooted : Rooted order parent depth root) (ground : depth root = 0)
    {u v x y : V} {upU upV : List V} {fuel : ℕ} (first : u ∈ order) (second : v ∈ order)
    (climbing : Climbing parent depth u v x y upU upV) (enough : depth x + depth y ≤ fuel) :
    ∃ upU' upV' a, climb parent depth fuel x y upU upV = some (upU', upV') ∧
      Climbing parent depth u v a a upU' upV' := by
  have listedX := (rooted.climbed climbing.left first).1
  have listedY := (rooted.climbed climbing.right second).1
  have positive : ∀ w ∈ order, w ≠ root → 0 < depth w := fun w listed other => by
    obtain ⟨_, _, _, deeper⟩ := rooted.has_parent w listed other
    omega
  induction fuel generalizing x y upU upV with
  | zero =>
    have met : x = y := by
      by_contra apart
      rcases eq_or_ne x root with rfl | other
      · have := positive y listedY fun same => apart same.symm
        omega
      · have := positive x listedX other
        omega
    subst met
    exact ⟨upU, upV, x, if_pos rfl, climbing⟩
  | succ fuel ih =>
    by_cases met : x = y
    · subst met
      exact ⟨upU, upV, x, if_pos rfl, climbing⟩
    rw [climb, if_neg met]
    by_cases deep : depth y ≤ depth x
    · have other : x ≠ root := by
        rintro rfl
        have := positive y listedY fun same => met same.symm
        omega
      obtain ⟨x', before, above, deeper⟩ := rooted.has_parent x listedX other
      rw [if_pos deep, above]
      exact ih (climbing.left_up above deeper met deep) (by omega) before listedY
    · have other : y ≠ root := by
        rintro rfl
        omega
      obtain ⟨y', before, above, deeper⟩ := rooted.has_parent y listedY other
      rw [if_neg deep, above]
      exact ih (climbing.right_up above deeper (not_le.mp deep)) (by omega) listedX before

/-! ### The cycle an edge closes -/

/-- The pairs of a closed walk, the last node with the first. -/
def closedPairs (walk : List V) : List (V × V) := walk.zip (walk.rotate 1)

theorem closedPairs_map {W : Type} (f : V → W) (walk : List V) :
    closedPairs (walk.map f) = (closedPairs walk).map (Prod.map f f) := by
  rw [closedPairs, closedPairs, ← List.map_rotate, List.zip_map]

/-- From `u` along the edge to `v`, up the tree, and down to `u`. -/
def stitch (u v : V) (upU upV : List V) : List V :=
  [u, v] ++ upV.drop 1 ++ (upU.reverse.drop 1).take (upU.length - 2)

/-- The differences of a potential cancel around a closed walk. -/
theorem sum_closedPairs (walk : List V) (x : V → ℝ) :
    ((closedPairs walk).map fun p => x p.2 - x p.1).sum = 0 := by
  have lengths : (walk.map x).length = ((walk.rotate 1).map x).length := by simp
  have values : (closedPairs walk).map (fun p => x p.2 - x p.1) =
      List.zipWith (fun first second => second - first) (walk.map x) ((walk.rotate 1).map x) := by
    rw [closedPairs, List.zip, List.map_zipWith, List.zipWith_map]
  have total : ∀ first second : List ℝ, first.length = second.length →
      (List.zipWith (fun first second => second - first) first second).sum =
        second.sum - first.sum := by
    intro first
    induction first with
    | nil => intro second length; simp [List.length_eq_zero_iff.mp length.symm]
    | cons a first ih =>
      intro second length
      cases second with
      | nil => simp at length
      | cons b second =>
        rw [List.zipWith_cons_cons, List.sum_cons, ih second (by simpa using length),
          List.sum_cons, List.sum_cons]
        ring
  rw [values, total _ _ lengths, ((List.rotate_perm walk 1).map x).sum_eq, sub_self]

/-- Along a chain every pair of neighbours is related. -/
theorem pairs_of_isChain {R : V → V → Prop} (v u : V) (t : List V)
    (chain : (v :: (t ++ [u])).IsChain R) : ∀ p ∈ (v :: t).zip (t ++ [u]), R p.1 p.2 := by
  induction t generalizing v with
  | nil =>
    intro p inside
    obtain rfl : p = (v, u) := by simpa using inside
    exact (List.isChain_pair.mp chain)
  | cons w t ih =>
    intro p inside
    rw [List.cons_append, List.isChain_cons_cons] at chain
    rw [List.cons_append, List.zip_cons_cons, List.mem_cons] at inside
    rcases inside with rfl | later
    · exact chain.1
    · exact ih w chain.2 p later

section Stitch

variable {u v a : V} {upU upV : List V}

/-- A climb that meets above both nodes, piece by piece. -/
theorem Climbing.pieces (climbing : Climbing parent depth u v a a upU upV) (leftAway : u ≠ a) :
    ∃ mid rest, upU = u :: (mid ++ [a]) ∧ upV = v :: rest ∧
      stitch u v upU upV = u :: (upV ++ mid.reverse) := by
  obtain ⟨restU, eqU⟩ := climbing.left.eq_cons
  obtain ⟨rest, eqV⟩ := climbing.right.eq_cons
  obtain ⟨init, split⟩ := climbing.left.eq_snoc
  obtain ⟨mid, rfl⟩ : ∃ mid, init = u :: mid := by
    cases init with
    | nil =>
      rw [split] at eqU
      exact absurd (List.cons.inj eqU).1.symm leftAway
    | cons w mid =>
      rw [split] at eqU
      exact ⟨mid, by rw [(List.cons.inj eqU).1]⟩
  refine ⟨mid, rest, split, eqV, ?_⟩
  have down : (upU.reverse.drop 1).take (upU.length - 2) = mid.reverse := by
    rw [split]
    simp
  rw [stitch, down, eqV]
  simp

/-- **The stitched walk is a simple cycle** of listed nodes. -/
theorem Rooted.nodup_stitch (rooted : Rooted order parent depth root) (first : u ∈ order)
    (second : v ∈ order) (climbing : Climbing parent depth u v a a upU upV) (leftAway : u ≠ a)
    (rightAway : v ≠ a) : (stitch u v upU upV).Nodup ∧ 3 ≤ (stitch u v upU upV).length := by
  obtain ⟨mid, rest, eqU, eqV, walk⟩ := climbing.pieces leftAway
  have nodupU := (rooted.climbed climbing.left first).2.1
  have nodupV := (rooted.climbed climbing.right second).2.1
  have apart : ∀ w ∈ u :: mid, w ∉ upV := by
    intro w inside
    have early : w ∈ upU := by
      rw [eqU, ← List.cons_append]
      exact List.mem_append_left _ inside
    refine climbing.left_apart w early fun same => ?_
    rw [eqU, ← List.cons_append] at nodupU
    exact (List.disjoint_of_nodup_append nodupU) inside (by simp [same])
  have nodupMid : (u :: mid).Nodup := by
    rw [eqU, ← List.cons_append] at nodupU
    exact nodupU.of_append_left
  have long : 2 ≤ upV.length := by
    rw [eqV]
    cases rest with
    | nil =>
      obtain ⟨init, split⟩ := climbing.right.eq_snoc
      rw [eqV] at split
      have aligned : [] ++ [v] = init ++ [a] := split
      obtain ⟨rfl, same⟩ := List.append_inj' aligned rfl
      exact absurd (List.singleton_inj.mp same) rightAway
    | cons w rest => simp
  rw [walk]
  refine ⟨List.nodup_cons.mpr ⟨fun inside => ?_, ?_⟩, by simp; omega⟩
  · rcases List.mem_append.mp inside with up | down
    · exact apart u List.mem_cons_self up
    · exact (List.nodup_cons.mp nodupMid).1 (List.mem_reverse.mp down)
  · refine List.nodup_append.mpr ⟨nodupV, List.nodup_reverse.mpr (List.nodup_cons.mp nodupMid).2,
      fun w up w' down => ?_⟩
    rintro rfl
    exact apart w (List.mem_cons_of_mem _ (List.mem_reverse.mp down)) up

/-- **All pairs of the stitched walk but the first are tree edges.** -/
theorem Climbing.closedPairs_stitch (climbing : Climbing parent depth u v a a upU upV)
    (leftAway : u ≠ a) :
    ∃ rest, closedPairs (stitch u v upU upV) = (u, v) :: rest ∧
      ∀ p ∈ rest, Edge parent p.1 p.2 := by
  obtain ⟨mid, rest, eqU, eqV, walk⟩ := climbing.pieces leftAway
  have down : (a :: (mid.reverse ++ [u])).IsChain (Edge parent) := by
    have chain := climbing.left.isChain
    rw [← List.reverse_reverse upU, List.isChain_reverse] at chain
    have reversed : upU.reverse = a :: (mid.reverse ++ [u]) := by simp [eqU]
    rw [reversed] at chain
    exact chain.imp fun _ _ edge => edge.symm
  have around : (v :: (rest ++ mid.reverse ++ [u])).IsChain (Edge parent) := by
    have joined : v :: (rest ++ mid.reverse ++ [u]) = upV ++ (mid.reverse ++ [u]) := by
      simp [eqV]
    obtain ⟨init, split⟩ := climbing.right.eq_snoc
    rw [joined]
    refine List.isChain_append.mpr ⟨climbing.right.isChain, (List.isChain_cons.mp down).2,
      fun x last y head => ?_⟩
    rw [split, List.getLast?_concat, Option.mem_some_iff] at last
    subst last
    exact (List.isChain_cons.mp down).1 y head
  refine ⟨(v :: (rest ++ mid.reverse)).zip (rest ++ mid.reverse ++ [u]), ?_,
    pairs_of_isChain v u _ around⟩
  rw [walk, eqV, closedPairs]
  simp

end Stitch

end Rtfsn.Tree
