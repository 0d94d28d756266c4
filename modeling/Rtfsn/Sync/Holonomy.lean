/-
**The fundamental cycles detect exactly the inconsistent networks**, in exact reals.

* `mergedMean`: the inverse-variance mean of a pair's readings, each oriented along the walk.
  `step_eq`: it is what `solve_frame` merges.
* `potential_iff`: values along the measured pairs that change sign with the direction are the
  differences of one potential exactly when they vanish around the cycle of every chord. The
  potential is summed along the tree; around a cycle only the chord is left.
* `solveFrame_holonomy`: so all defects vanish exactly when the merged readings have a potential.
-/
import Rtfsn.Sync.FrameSolution

namespace Rtfsn

variable {n : ℕ}

section Merged

variable {V : Type} [DecidableEq V]

/-- The weighted readings of a pair, those from `j` to `i` reversed. -/
noncomputable def orientedSum (name : Fin n → V) (obs : List (Obs ℝ n)) (i j : V) : ℝ :=
  (obs.map fun o => (if name o.a = i ∧ name o.b = j then o.m / o.sigma ^ 2 else 0) -
    if name o.a = j ∧ name o.b = i then o.m / o.sigma ^ 2 else 0).sum

/-- The weights of a pair's readings. -/
noncomputable def pairWeight (name : Fin n → V) (obs : List (Obs ℝ n)) (i j : V) : ℝ :=
  (obs.map fun o => if (name o.a = i ∧ name o.b = j) ∨ (name o.a = j ∧ name o.b = i) then
    1 / o.sigma ^ 2 else 0).sum

/-- The inverse-variance mean of a pair's readings, oriented from `i` to `j`. -/
noncomputable def mergedMean (name : Fin n → V) (obs : List (Obs ℝ n)) (i j : V) : ℝ :=
  orientedSum name obs i j / pairWeight name obs i j

/-- The mean changes sign with the direction. -/
theorem mergedMean_swap (name : Fin n → V) (obs : List (Obs ℝ n)) (i j : V) :
    mergedMean name obs j i = -mergedMean name obs i j := by
  have sum : orientedSum name obs j i = -orientedSum name obs i j := by
    unfold orientedSum
    induction obs with
    | nil => simp
    | cons o obs ih =>
      simp only [List.map_cons, List.sum_cons, ih]
      ring
  have weight : pairWeight name obs j i = pairWeight name obs i j := by
    unfold pairWeight
    exact congrArg List.sum (List.map_congr_left fun o _ => if_congr or_comm rfl rfl)
  rw [mergedMean, mergedMean, sum, weight, neg_div]

theorem mergedMean_name {name : Fin n → V} (injective : Function.Injective name)
    (obs : List (Obs ℝ n)) (u v : Fin n) :
    mergedMean name obs (name u) (name v) = mergedMean id obs u v := by
  simp only [mergedMean, orientedSum, pairWeight, injective.eq_iff, id]

end Merged

/-- **The mean of a pair moves by the difference of the shifts.** -/
theorem mergedMean_shift (obs : List (Obs ℝ n)) (x : Fin n → ℝ) {u v : Fin n} (distinct : u ≠ v)
    (weighs : pairWeight id obs u v ≠ 0) :
    pairWeight id (obs.map fun o => { o with m := o.m + (x o.b - x o.a) }) u v =
      pairWeight id obs u v ∧
    mergedMean id (obs.map fun o => { o with m := o.m + (x o.b - x o.a) }) u v =
      mergedMean id obs u v + (x v - x u) := by
  have weight : pairWeight id (obs.map fun o => { o with m := o.m + (x o.b - x o.a) }) u v =
      pairWeight id obs u v := by
    rw [pairWeight, List.map_map]
    rfl
  have each : ∀ o : Obs ℝ n,
      ((if o.a = u ∧ o.b = v then (o.m + (x o.b - x o.a)) / o.sigma ^ 2 else 0) -
        if o.a = v ∧ o.b = u then (o.m + (x o.b - x o.a)) / o.sigma ^ 2 else 0) =
      ((if o.a = u ∧ o.b = v then o.m / o.sigma ^ 2 else 0) -
        if o.a = v ∧ o.b = u then o.m / o.sigma ^ 2 else 0) +
      (x v - x u) * if (o.a = u ∧ o.b = v) ∨ (o.a = v ∧ o.b = u) then 1 / o.sigma ^ 2 else 0 := by
    intro o
    by_cases along : o.a = u ∧ o.b = v
    · have other : ¬ (o.a = v ∧ o.b = u) := fun against => distinct (along.1.symm.trans against.1)
      rw [if_pos along, if_pos along, if_neg other, if_neg other, if_pos (Or.inl along), along.1,
        along.2]
      ring
    · by_cases against : o.a = v ∧ o.b = u
      · rw [if_neg along, if_neg along, if_pos against, if_pos against, if_pos (Or.inr against),
          against.1, against.2]
        ring
      · rw [if_neg along, if_neg along, if_neg against, if_neg against,
          if_neg fun either => either.elim along against]
        ring
  have sum : orientedSum id (obs.map fun o => { o with m := o.m + (x o.b - x o.a) }) u v =
      orientedSum id obs u v + (x v - x u) * pairWeight id obs u v := by
    rw [orientedSum, orientedSum, pairWeight, List.map_map, ← List.sum_map_mul_left,
      ← List.sum_map_add]
    exact congrArg List.sum (List.map_congr_left fun o _ => each o)
  refine ⟨weight, ?_⟩
  rw [mergedMean, mergedMean, weight, sum, add_div, mul_div_cancel_right₀ _ weighs]

/-- A pair's running sums, nothing when no reading came. -/
noncomputable def sumsOf (pairs : Std.ExtTreeMap (Fin n ×ₗ Fin n) (Pair ℝ))
    (key : Fin n ×ₗ Fin n) : Pair ℝ :=
  pairs[key]?.getD ⟨0, 0, 0, 0⟩

/-- One edge's readings are added to its own pair. -/
theorem sumsOf_mergePair (pairs : Std.ExtTreeMap (Fin n ×ₗ Fin n) (Pair ℝ))
    (o : Obs ℝ n × Obs ℝ n) (key : Fin n ×ₗ Fin n) :
    sumsOf (mergePair pairs o) key =
      if pairKey o.1.a o.1.b = key then
        { oSum := (sumsOf pairs key).oSum + pairSign o.1.a o.1.b * o.1.m * (1 / o.1.sigma ^ 2)
          oW := (sumsOf pairs key).oW + 1 / o.1.sigma ^ 2
          dSum := (sumsOf pairs key).dSum + pairSign o.1.a o.1.b * o.2.m * (1 / o.2.sigma ^ 2)
          dW := (sumsOf pairs key).dW + 1 / o.2.sigma ^ 2 }
      else sumsOf pairs key := by
  simp only [sumsOf, mergePair, Std.ExtTreeMap.getElem?_insert,
    Std.LawfulEqCmp.compare_eq_iff_eq, F64.powi_real]
  split_ifs with same
  · rw [same]
    rfl
  · rfl

theorem sumsOf_foldl (obs : List (Obs ℝ n × Obs ℝ n))
    (pairs : Std.ExtTreeMap (Fin n ×ₗ Fin n) (Pair ℝ)) (key : Fin n ×ₗ Fin n) :
    sumsOf (obs.foldl mergePair pairs) key =
      { oSum := (sumsOf pairs key).oSum + (obs.map fun o => if pairKey o.1.a o.1.b = key then
          pairSign o.1.a o.1.b * o.1.m * (1 / o.1.sigma ^ 2) else 0).sum
        oW := (sumsOf pairs key).oW + (obs.map fun o => if pairKey o.1.a o.1.b = key then
          1 / o.1.sigma ^ 2 else 0).sum
        dSum := (sumsOf pairs key).dSum + (obs.map fun o => if pairKey o.1.a o.1.b = key then
          pairSign o.1.a o.1.b * o.2.m * (1 / o.2.sigma ^ 2) else 0).sum
        dW := (sumsOf pairs key).dW + (obs.map fun o => if pairKey o.1.a o.1.b = key then
          1 / o.2.sigma ^ 2 else 0).sum } := by
  induction obs generalizing pairs with
  | nil => simp
  | cons o obs ih =>
    rw [List.foldl_cons, ih, sumsOf_mergePair]
    simp only [List.map_cons, List.sum_cons]
    split_ifs <;> simp only [zero_add, add_assoc]

/-- Signed along the walk, a merged reading is the oriented one. -/
theorem sign_mul_reading {u v a b : Fin n} (distinct : u ≠ v) (m w : ℝ) :
    pairSign u v * (if pairKey a b = pairKey u v then pairSign a b * m * (1 / w) else 0) =
      (if a = u ∧ b = v then m / w else 0) - if a = v ∧ b = u then m / w else 0 := by
  by_cases along : a = u ∧ b = v
  · obtain ⟨rfl, rfl⟩ := along
    have other : ¬ (a = b ∧ b = a) := fun both => distinct both.1
    rw [if_pos rfl, if_pos ⟨rfl, rfl⟩, if_neg other]
    unfold pairSign
    split_ifs <;> ring
  · by_cases against : a = v ∧ b = u
    · obtain ⟨rfl, rfl⟩ := against
      rw [if_pos (pairKey_comm a b), if_neg along, if_pos ⟨rfl, rfl⟩]
      unfold pairSign
      rcases lt_or_gt_of_ne distinct with below | above
      · rw [if_pos below, if_neg below.asymm]
        ring
      · rw [if_neg above.asymm, if_pos above]
        ring
    · have elsewhere : pairKey a b ≠ pairKey u v := fun same =>
        (pairKey_inj.mp same).elim along against
      rw [if_neg elsewhere, if_neg along, if_neg against]
      ring

namespace Network

variable {net : Network ℝ n} {u v : Fin n}

/-- The merged sums over a choice of readings are the oriented ones. -/
theorem merged_eq (distinct : u ≠ v) (reads : List (Obs ℝ n × Obs ℝ n))
    (pick : Obs ℝ n × Obs ℝ n → Obs ℝ n)
    (ends : ∀ o ∈ reads, (pick o).a = o.1.a ∧ (pick o).b = o.1.b) :
    pairSign u v * (reads.map fun o => if pairKey o.1.a o.1.b = pairKey u v then
        pairSign o.1.a o.1.b * (pick o).m * (1 / (pick o).sigma ^ 2) else 0).sum /
      (reads.map fun o => if pairKey o.1.a o.1.b = pairKey u v then
        1 / (pick o).sigma ^ 2 else 0).sum = mergedMean id (reads.map pick) u v ∧
      (reads.map fun o => if pairKey o.1.a o.1.b = pairKey u v then
        1 / (pick o).sigma ^ 2 else 0).sum = pairWeight id (reads.map pick) u v := by
  have weights : (reads.map fun o => if pairKey o.1.a o.1.b = pairKey u v then
      1 / (pick o).sigma ^ 2 else 0).sum = pairWeight id (reads.map pick) u v := by
    rw [pairWeight, List.map_map]
    refine congrArg List.sum (List.map_congr_left fun o member => ?_)
    simp only [Function.comp, id, (ends o member).1, (ends o member).2, pairKey_inj]
  refine ⟨?_, weights⟩
  rw [weights, mergedMean, orientedSum, ← List.sum_map_mul_left, List.map_map]
  refine congrArg (· / _) (congrArg List.sum (List.map_congr_left fun o member => ?_))
  simp only [Function.comp, id, (ends o member).1, (ends o member).2]
  exact sign_mul_reading distinct _ _

/-- **The walk along a measured pair reads the merged means.** -/
theorem step_eq (measured : net.Measured u v) (distinct : u ≠ v) :
    net.step u v =
      { offset := mergedMean id net.reading.obs u v
        offsetVar := 1 / pairWeight id net.reading.obs u v
        drift := mergedMean id net.driftObs u v
        driftVar := 1 / pairWeight id net.driftObs u v } := by
  obtain ⟨p, found⟩ : ∃ p, net.pairs[pairKey u v]? = some p :=
    Option.isSome_iff_exists.mp
      (Std.ExtTreeMap.isSome_getElem?_iff_mem.mpr (mem_pairs.mpr measured))
  have sums : sumsOf net.pairs (pairKey u v) = p := by rw [sumsOf, found, Option.getD_some]
  rw [pairs, zip_obs, sumsOf_foldl] at sums
  have start : sumsOf (∅ : Std.ExtTreeMap (Fin n ×ₗ Fin n) (Pair ℝ)) (pairKey u v) =
      ⟨0, 0, 0, 0⟩ := by simp [sumsOf]
  simp only [start, zero_add] at sums
  have ends : ∀ o ∈ net.inside.map fun p => (net.offsetOb net.settling p, p.driftOb),
      o.2.a = o.1.a ∧ o.2.b = o.1.b := by
    intro o member
    obtain ⟨p, _, rfl⟩ := List.mem_map.mp member
    exact ⟨rfl, rfl⟩
  obtain ⟨offsets, offsetWeight⟩ := merged_eq distinct
    (net.inside.map fun p => (net.offsetOb net.settling p, p.driftOb)) Prod.fst
    fun _ _ => ⟨rfl, rfl⟩
  obtain ⟨drifts, driftWeight⟩ := merged_eq distinct
    (net.inside.map fun p => (net.offsetOb net.settling p, p.driftOb)) Prod.snd ends
  have read : net.step u v = ⟨pairSign u v * p.oSum / p.oW, 1 / p.oW,
      pairSign u v * p.dSum / p.dW, 1 / p.dW⟩ := by
    rw [step, walk, found]
    rfl
  have firsts : (net.inside.map fun p => (net.offsetOb net.settling p, p.driftOb)).map Prod.fst =
      net.reading.obs := by
    rw [List.map_map]
    rfl
  have seconds : (net.inside.map fun p => (net.offsetOb net.settling p, p.driftOb)).map Prod.snd =
      net.driftObs := by
    rw [List.map_map]
    rfl
  rw [firsts] at offsets offsetWeight
  rw [seconds] at drifts driftWeight
  rw [read, ← offsets, ← drifts, ← offsetWeight, ← driftWeight, ← sums]

/-- A measured pair weighs something. -/
theorem pairWeight_pos {f : Placed ℝ n → Obs ℝ n} (reads : Reads f) (measured : net.Measured u v) :
    0 < pairWeight id (net.inside.map f) u v := by
  obtain ⟨p, inside, ends⟩ := measured
  have nonneg : ∀ term ∈ (net.inside.map f).map (fun o =>
      if (id o.a = u ∧ id o.b = v) ∨ (id o.a = v ∧ id o.b = u) then 1 / o.sigma ^ 2 else 0),
      0 ≤ term := by
    intro term listed
    obtain ⟨o, _, rfl⟩ := List.mem_map.mp listed
    split_ifs
    · positivity
    · exact le_rfl
  have weight : 0 < 1 / (f p).sigma ^ 2 := one_div_pos.mpr (pow_pos (reads.positive p) 2)
  have joins : (id (f p).a = u ∧ id (f p).b = v) ∨ (id (f p).a = v ∧ id (f p).b = u) := by
    rw [id, id, reads.a, reads.b]
    exact ends
  exact lt_of_lt_of_le weight (List.single_le_sum nonneg _
    (List.mem_map.mpr ⟨f p, List.mem_map_of_mem inside, if_pos joins⟩))

/-! ### Potentials and cycles -/

/-- The sum of values around a closed walk. -/
noncomputable def circulation (g : Fin n → Fin n → ℝ) (nodes : List (Fin n)) : ℝ :=
  ((Tree.closedPairs nodes).map fun p => g p.1 p.2).sum

/-- **Values along the measured pairs are the differences of a potential exactly when they vanish
around the cycle of every chord.** -/
theorem potential_iff (loopless : net.Loopless) {nodes : Fin n ×ₗ Fin n → List (Fin n)}
    (cycles : net.Cycles nodes) (g : Fin n → Fin n → ℝ) (odd : ∀ u v, g v u = -g u v) :
    (∀ key ∈ net.chords, circulation g (nodes key) = 0) ↔
      ∃ x : Fin n → ℝ, ∀ u v, net.Measured u v → g u v = x v - x u := by
  obtain ⟨tree, _, climbs⟩ := net.rooted
  constructor
  · intro vanish
    obtain ⟨x, along⟩ := tree.exists_potential g
    have tree_eq : ∀ u v, net.TreeEdge u v → g u v = x v - x u := by
      rintro u v (above | above)
      · rw [odd v u, ← along u (climbs u v above).1 v above]
        ring
      · exact (along v (climbs v u above).1 u above).symm
    have chord_eq : ∀ u v, u < v → net.Measured u v → g u v = x v - x u := by
      intro u v below measured
      by_cases isTree : net.TreeEdge u v
      · exact tree_eq u v isTree
      have chord := (mem_chords loopless).mpr ⟨u, v, rfl, below, measured, isTree⟩
      obtain ⟨rest, pairs, edges⟩ := (cycles.fundamental u v chord).closing
      have around := vanish _ chord
      have telescopes := Tree.sum_closedPairs (nodes (toLex (u, v))) x
      have same : rest.map (fun p => g p.1 p.2) = rest.map fun p => x p.2 - x p.1 :=
        List.map_congr_left fun p member => tree_eq _ _ (edges p member)
      rw [circulation, pairs, List.map_cons, List.sum_cons, same] at around
      rw [pairs, List.map_cons, List.sum_cons] at telescopes
      linarith
    refine ⟨x, fun u v measured => ?_⟩
    rcases lt_or_gt_of_ne (measured.ne loopless) with below | above
    · exact chord_eq u v below measured
    · rw [odd v u, chord_eq v u above measured.symm]
      ring
  · rintro ⟨x, potential⟩ key chord
    obtain ⟨u, v, rfl, _, measured, _⟩ := (mem_chords loopless).mp chord
    have fundamental := cycles.fundamental u v chord
    rw [circulation, ← Tree.sum_closedPairs (nodes (toLex (u, v))) x]
    exact congrArg List.sum (List.map_congr_left fun p member =>
      potential _ _ (fundamental.measured measured p member))

/-- The sums around a walk, field by field. -/
theorem around_eq (net : Network ℝ n) (nodes : List (Fin n)) :
    (net.around nodes).offset = circulation (fun u v => (net.step u v).offset) nodes ∧
      (net.around nodes).drift = circulation (fun u v => (net.step u v).drift) nodes := by
  have sums : ∀ (l : List (Fin n × Fin n)) (s : Step ℝ),
      (l.foldl (fun s p => s.add (net.step p.1 p.2)) s).offset =
        s.offset + (l.map fun p => (net.step p.1 p.2).offset).sum ∧
      (l.foldl (fun s p => s.add (net.step p.1 p.2)) s).drift =
        s.drift + (l.map fun p => (net.step p.1 p.2).drift).sum := by
    intro l
    induction l with
    | nil => simp
    | cons p l ih =>
      intro s
      obtain ⟨offset, drift⟩ := ih (s.add (net.step p.1 p.2))
      rw [List.foldl_cons, offset, drift, List.map_cons, List.sum_cons, List.map_cons,
        List.sum_cons, ← add_assoc, ← add_assoc]
      exact ⟨rfl, rfl⟩
  obtain ⟨offset, drift⟩ := sums (Tree.closedPairs nodes) Step.zero
  rw [around, offset, drift]
  exact ⟨zero_add _, zero_add _⟩

/-- The circulation of the merged means around a fundamental cycle. -/
theorem around_mergedMean {nodes : List (Fin n)} (loopless : net.Loopless)
    (measured : ∀ p ∈ Tree.closedPairs nodes, net.Measured p.1 p.2) :
    (net.around nodes).offset = circulation (mergedMean id net.reading.obs) nodes ∧
      (net.around nodes).drift = circulation (mergedMean id net.driftObs) nodes := by
  have steps : ∀ p ∈ Tree.closedPairs nodes,
      (net.step p.1 p.2).offset = mergedMean id net.reading.obs p.1 p.2 ∧
      (net.step p.1 p.2).drift = mergedMean id net.driftObs p.1 p.2 := by
    intro p member
    rw [step_eq (measured p member) ((measured p member).ne loopless)]
    exact ⟨rfl, rfl⟩
  obtain ⟨offset, drift⟩ := net.around_eq nodes
  rw [offset, drift]
  exact ⟨congrArg List.sum (List.map_congr_left fun p member => (steps p member).1),
    congrArg List.sum (List.map_congr_left fun p member => (steps p member).2)⟩

end Network

/-! ### By ids -/

namespace Solves

variable {solver reference : NodeId} {atNs : ℕ} {edges : List (EdgeEstimate ℝ)}
  {ids : List NodeId} {net : Network ℝ ids.length} {frame : NetworkFrame ℝ}

/-- A property of the defects is one of the cycles of the chords. -/
theorem forall_cycles (solves : Solves solver reference atNs edges ids net frame) :
    ∃ nodes, net.Cycles nodes ∧
      ((∀ c ∈ frame.cycles, c.offsetNs = 0) ↔
        ∀ key ∈ net.chords, Network.circulation (mergedMean id net.reading.obs) (nodes key) = 0) ∧
      ((∀ c ∈ frame.cycles, c.drift = 0) ↔
        ∀ key ∈ net.chords, Network.circulation (mergedMean id net.driftObs) (nodes key) = 0) := by
  obtain ⟨nodes, cycles, rfl⟩ := solves.parts
  have listed := fun c => (net.assemble_cycles ids.get
    (net.defects ids.get nodes)).mem_iff (a := c)
  have sums : ∀ key ∈ net.chords,
      (net.around (nodes key)).offset =
        Network.circulation (mergedMean id net.reading.obs) (nodes key) ∧
      (net.around (nodes key)).drift =
        Network.circulation (mergedMean id net.driftObs) (nodes key) := by
    intro key chord
    obtain ⟨u, v, rfl, _, measured, _⟩ := (Network.mem_chords solves.places.loopless).mp chord
    exact Network.around_mergedMean solves.places.loopless
      ((cycles.fundamental u v chord).measured measured)
  refine ⟨nodes, cycles, ?_, ?_⟩
  · simp only [listed]
    rw [Network.defects, List.forall_mem_map]
    refine forall₂_congr fun key chord => ?_
    rw [← (sums key chord).1]
    rfl
  · simp only [listed]
    rw [Network.defects, List.forall_mem_map]
    refine forall₂_congr fun key chord => ?_
    rw [← (sums key chord).2]
    rfl

/-- A potential by numbers is one by ids. -/
theorem potential_names (solves : Solves solver reference atNs edges ids net frame)
    (obs : List (Obs ℝ ids.length)) :
    (∃ x : Fin ids.length → ℝ, ∀ u v, net.Measured u v →
        mergedMean id obs u v = x v - x u) ↔
      ∃ x : NodeId → ℝ, ∀ i j, s(i, j) ∈ measuredPairs edges reference →
        mergedMean ids.get obs i j = x j - x i := by
  have injective := solves.places.injective
  constructor
  · rintro ⟨x, potential⟩
    refine ⟨Function.extend ids.get x fun _ => 0,
      fun i j member => ?_⟩
    obtain ⟨e, listed, usable, connected, same⟩ := id member
    obtain ⟨u, _, nameU⟩ := solves.places.connected_iff.mp connected
    obtain ⟨v, nameV⟩ := solves.places.exists_number ⟨e, listed, usable, Or.inl ⟨rfl, rfl⟩⟩
    obtain ⟨a, rfl⟩ : ∃ a, ids.get a = i := by
      rcases Sym2.eq_iff.mp same with ⟨rfl, _⟩ | ⟨rfl, _⟩
      · exact ⟨u, nameU⟩
      · exact ⟨v, nameV⟩
    obtain ⟨b, rfl⟩ : ∃ b, ids.get b = j := by
      rcases Sym2.eq_iff.mp same with ⟨_, rfl⟩ | ⟨_, rfl⟩
      · exact ⟨v, nameV⟩
      · exact ⟨u, nameU⟩
    rw [mergedMean_name injective, injective.extend_apply, injective.extend_apply]
    exact potential a b (solves.places.mem_measuredPairs.mp member)
  · rintro ⟨x, potential⟩
    refine ⟨x ∘ ids.get, fun u v measured => ?_⟩
    rw [← mergedMean_name injective]
    exact potential _ _ (solves.places.mem_measuredPairs.mpr measured)

end Solves

/-- **All defects vanish exactly when the merged readings have a potential**: the offsets of the
last pass, and the log rates. No inconsistent loop is missed by looking at the fundamental cycles
only. -/
theorem solveFrame_holonomy (solver reference : NodeId) (atNs : ℕ)
    (edges : List (EdgeEstimate ℝ)) :
    ∃ net frame,
      network (frameIds solver reference edges) solver reference atNs edges = some net ∧
      solveFrame solver reference atNs edges = some frame ∧
      ((∀ c ∈ frame.cycles, c.offsetNs = 0) ↔
        ∃ x : NodeId → ℝ, ∀ i j, s(i, j) ∈ measuredPairs edges reference →
          mergedMean (frameIds solver reference edges).get net.reading.obs i j = x j - x i) ∧
      ((∀ c ∈ frame.cycles, c.drift = 0) ↔
        ∃ x : NodeId → ℝ, ∀ i j, s(i, j) ∈ measuredPairs edges reference →
          mergedMean (frameIds solver reference edges).get net.driftObs i j = x j - x i) := by
  obtain ⟨net, frame, solves⟩ := exists_solves solver reference atNs edges
  obtain ⟨nodes, cycles, offsets, drifts⟩ := solves.forall_cycles
  refine ⟨net, frame, solves.numbered, solves.solved, ?_, ?_⟩
  · rw [offsets, Network.potential_iff solves.places.loopless cycles _ (mergedMean_swap id _)]
    exact solves.potential_names _
  · rw [drifts, Network.potential_iff solves.places.loopless cycles _ (mergedMean_swap id _)]
    exact solves.potential_names _

end Rtfsn
