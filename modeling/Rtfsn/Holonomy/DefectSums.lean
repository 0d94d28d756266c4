/-
**The unsigned sums of the solver.**

The errors saturate, but `step` and `detectDefectiveNodes` then add them up with the plain operator.

* `sumU64`, `detectDefectiveNodes`: the sums of a build with overflow checks; `none` is the panic.
* `sumU64_eq`, `foldlM_addDefect`: the sums overflow exactly when their totals do.
* `sum_stepDefects`: what a step adds up is, whatever the orders, the disagreement of every edge of
  the table at both of its ends.
* `sums_exact_iff`: so all sums fit, and the averages are exact, exactly when those disagreements
  sum below `2 ^ 64` and no node has `2 ^ 32` neighbours that it can be compared with.
-/
import Rtfsn.Holonomy.StepOrders

set_option linter.unusedSectionVars false

namespace Rtfsn.HolonomySolver

variable {F : Type} [F64 F]

/-! ### The loops, with overflow checks -/

/-- `sum::<u64>`. -/
def sumU64 (defects : List ℕ) : Option ℕ :=
  defects.foldlM (fun sum defect => checkedU64 (sum + defect : ℕ)) 0

/-- The mean defect of a step. -/
def meanDefect (defects : List ℕ) : Option ℕ :=
  if defects.isEmpty then some 0 else (sumU64 defects).map fun sum => sum / defects.length

/-- A `u32` operation on values kept as natural numbers. -/
def checkedU32 (n : ℕ) : Option ℕ := if n < 2 ^ 32 then some n else none

/-- The loop body over the neighbours of `node`: the total defect and the count. -/
def addDefect (solver : HolonomySolver F) (node : NodeId) (nodeFrame : ChiralFrame) (acc : ℕ × ℕ)
    (neighbor : NodeId) : Option (ℕ × ℕ) :=
  match solver.lut.latest node neighbor with
  | none => some acc
  | some twist =>
    match solver.nodes[neighbor]? with
    | none => some acc
    | some neighborFrame =>
      (checkedU64 (acc.1 + (edgeError node neighbor nodeFrame neighborFrame twist).natAbs : ℕ)).bind
        fun totalDefect => (checkedU32 (acc.2 + 1)).map fun count => (totalDefect, count)

/-- The loop body over the nodes: the defective ones so far. -/
def detectNode (edgeOrder : HashOrder (NodeId ×ₗ NodeId)) (solver : HolonomySolver F)
    (threshold : ℕ) (defective : List NodeId) (node : NodeId) : Option (List NodeId) :=
  let neighbors := solver.lut.neighbors edgeOrder node
  if neighbors.length < 2 then some defective
  else
    match solver.nodes[node]? with
    | none => some defective  -- not reached: the visited nodes are the keys
    | some nodeFrame =>
      (neighbors.foldlM (solver.addDefect node nodeFrame) (0, 0)).map fun (totalDefect, count) =>
        if 0 < count ∧ threshold < totalDefect / count then defective ++ [node] else defective

/-- The nodes whose average defect is above the threshold. -/
def detectDefectiveNodes (nodeOrder : HashOrder NodeId) (edgeOrder : HashOrder (NodeId ×ₗ NodeId))
    (solver : HolonomySolver F) (threshold : ℕ) : Option (List NodeId) :=
  (nodeOrder.arrange solver.nodes.keys).foldlM (solver.detectNode edgeOrder threshold) []

/-! ### What the loops come to -/

theorem sumU64_eq (defects : List ℕ) :
    sumU64 defects = if defects.sum < 2 ^ 64 then some defects.sum else none := by
  rw [sumU64, foldlM_checkedU64 defects (by norm_num), zero_add]

section Detect

variable (solver : HolonomySolver F) (node : NodeId) (nodeFrame : ChiralFrame)

theorem addDefect_eq (acc : ℕ × ℕ) (neighbor : NodeId) :
    solver.addDefect node nodeFrame acc neighbor =
      match solver.read node nodeFrame neighbor with
      | none => some acc
      | some reading =>
        if acc.1 + reading.error.natAbs < 2 ^ 64 ∧ acc.2 + 1 < 2 ^ 32 then
          some (acc.1 + reading.error.natAbs, acc.2 + 1)
        else none := by
  unfold addDefect read
  cases solver.lut.latest node neighbor with
  | none => rfl
  | some twist =>
    cases solver.nodes[neighbor]? with
    | none => rfl
    | some neighborFrame =>
      simp only [checkedU64_eq, checkedU32, Option.bind_some, Option.map_some]
      split_ifs <;> first | rfl | omega

/-- So do the total and the count over the neighbours. -/
theorem foldlM_addDefect (neighbors : List NodeId) {total count : ℕ} (fits : total < 2 ^ 64)
    (few : count < 2 ^ 32) {defects : List ℕ}
    (read : (neighbors.filterMap (solver.read node nodeFrame)).map
      (fun reading => reading.error.natAbs) = defects) :
    neighbors.foldlM (solver.addDefect node nodeFrame) (total, count) =
      if total + defects.sum < 2 ^ 64 ∧ count + defects.length < 2 ^ 32 then
        some (total + defects.sum, count + defects.length)
      else none := by
  subst read
  induction neighbors generalizing total count with
  | nil =>
    rw [List.filterMap_nil, List.map_nil, List.sum_nil, List.length_nil, add_zero, add_zero,
      if_pos ⟨fits, few⟩]
    rfl
  | cons neighbor rest ih =>
    rw [List.foldlM_cons, addDefect_eq, List.filterMap_cons]
    cases solver.read node nodeFrame neighbor with
    | none => exact ih fits few
    | some reading =>
      dsimp only
      rw [List.map_cons, List.sum_cons, List.length_cons, ← add_assoc,
        Nat.add_comm (List.length _) 1, ← Nat.add_assoc count 1]
      by_cases next : total + reading.error.natAbs < 2 ^ 64 ∧ count + 1 < 2 ^ 32
      · rw [if_pos next]
        exact ih next.1 next.2
      · rw [if_neg next, if_neg (by omega)]
        rfl

variable {edgeOrder : HashOrder (NodeId ×ₗ NodeId)} {threshold : ℕ}

/-- The node has two edges and the average of what it reads is above the threshold. -/
def AverageAbove (edgeOrder : HashOrder (NodeId ×ₗ NodeId)) (solver : HolonomySolver F)
    (threshold : ℕ) (node : NodeId) : Prop :=
  2 ≤ (solver.lut.neighbors edgeOrder node).length ∧
    0 < (solver.nodeDefects edgeOrder node).length ∧
    threshold < (solver.nodeDefects edgeOrder node).sum / (solver.nodeDefects edgeOrder node).length

/-- The sums over the neighbours of a node fit. -/
def NodeFits (edgeOrder : HashOrder (NodeId ×ₗ NodeId)) (solver : HolonomySolver F)
    (node : NodeId) : Prop :=
  2 ≤ (solver.lut.neighbors edgeOrder node).length →
    (solver.nodeDefects edgeOrder node).sum < 2 ^ 64 ∧
      (solver.nodeDefects edgeOrder node).length < 2 ^ 32

instance : Decidable (AverageAbove edgeOrder solver threshold node) :=
  inferInstanceAs (Decidable (_ ∧ _))

instance : Decidable (NodeFits edgeOrder solver node) := inferInstanceAs (Decidable (_ → _))

/-- **One node** is listed by its exact average, unless a sum overflows. -/
theorem detectNode_eq (defective : List NodeId) :
    solver.detectNode edgeOrder threshold defective node =
      if NodeFits edgeOrder solver node then
        some (defective ++ if AverageAbove edgeOrder solver threshold node then [node] else [])
      else none := by
  unfold detectNode
  dsimp only
  by_cases few : (solver.lut.neighbors edgeOrder node).length < 2
  · have below : ¬ AverageAbove edgeOrder solver threshold node := fun above =>
      absurd above.1 (by omega)
    have fits : NodeFits edgeOrder solver node := fun many => absurd many (by omega)
    rw [if_pos few, if_pos fits, if_neg below, List.append_nil]
  rw [if_neg few]
  cases known : solver.nodes[node]? with
  | none =>
    have defects : solver.nodeDefects edgeOrder node = [] := by rw [nodeDefects, known]
    have below : ¬ AverageAbove edgeOrder solver threshold node := fun above => by
      simpa [defects] using above.2.1
    have fits : NodeFits edgeOrder solver node := fun _ => by simp [defects]
    rw [if_pos fits, if_neg below, List.append_nil]
  | some nodeFrame =>
    have defects : ((solver.lut.neighbors edgeOrder node).filterMap
        (solver.read node nodeFrame)).map (fun reading => reading.error.natAbs) =
        solver.nodeDefects edgeOrder node := by
      rw [nodeDefects, known]
      rfl
    dsimp only
    rw [solver.foldlM_addDefect node nodeFrame _ (by norm_num) (by norm_num) defects, zero_add,
      zero_add]
    by_cases fits : (solver.nodeDefects edgeOrder node).sum < 2 ^ 64 ∧
        (solver.nodeDefects edgeOrder node).length < 2 ^ 32
    · have nodeFits : NodeFits edgeOrder solver node := fun _ => fits
      rw [if_pos fits, if_pos nodeFits, Option.map_some]
      by_cases above : AverageAbove edgeOrder solver threshold node
      · rw [if_pos above, if_pos above.2]
      · have below : ¬ (0 < (solver.nodeDefects edgeOrder node).length ∧
            threshold < (solver.nodeDefects edgeOrder node).sum /
              (solver.nodeDefects edgeOrder node).length) := fun high =>
          above ⟨not_lt.mp few, high⟩
        rw [if_neg above, if_neg below, List.append_nil]
    · have nodeOverflows : ¬ NodeFits edgeOrder solver node := fun all =>
        fits (all (not_lt.mp few))
      rw [if_neg fits, if_neg nodeOverflows, Option.map_none]

/-- **All nodes.** -/
theorem foldlM_detectNode (nodes defective : List NodeId) :
    nodes.foldlM (solver.detectNode edgeOrder threshold) defective =
      if ∀ node ∈ nodes, NodeFits edgeOrder solver node then
        some (defective ++ nodes.filter fun node => AverageAbove edgeOrder solver threshold node)
      else none := by
  induction nodes generalizing defective with
  | nil => simp
  | cons node rest ih =>
    rw [List.foldlM_cons, detectNode_eq, List.filter_cons]
    by_cases fits : NodeFits edgeOrder solver node
    · rw [if_pos fits, Option.bind_eq_bind, Option.bind_some, ih]
      by_cases above : AverageAbove edgeOrder solver threshold node <;> simp [fits, above]
    · simp [fits]

end Detect

/-! ### Both ends of every edge -/

section Handshake

variable (solver : HolonomySolver F)

/-- The disagreement of an edge as `a` reads it: nothing where it cannot be compared. -/
def endDefect (a b : NodeId) : ℕ :=
  ((solver.nodes[a]?.bind fun frame => solver.read a frame b).map fun reading =>
    reading.error.natAbs).getD 0

/-- The disagreement of an edge of the table, at both of its ends. -/
def edgeDefect (key : NodeId ×ₗ NodeId) : ℕ :=
  if (ofLex key).1 = (ofLex key).2 then solver.endDefect (ofLex key).1 (ofLex key).2
  else solver.endDefect (ofLex key).1 (ofLex key).2 + solver.endDefect (ofLex key).2 (ofLex key).1

/-- The disagreement of the whole table. -/
def totalDefect : ℕ := (solver.lut.entries.keys.map solver.edgeDefect).sum

/-- What one node reads of one edge. -/
def share (key : NodeId ×ₗ NodeId) (node : NodeId) : ℕ :=
  if (ofLex key).1 = node then solver.endDefect node (ofLex key).2
  else if (ofLex key).2 = node then solver.endDefect node (ofLex key).1 else 0

variable {solver} in
theorem endDefect_of_unknown {a : NodeId} (unknown : solver.nodes[a]? = none) (b : NodeId) :
    solver.endDefect a b = 0 := by
  simp [endDefect, unknown]

theorem sum_filterMap {α β : Type} (f : α → Option β) (g : β → ℕ) (l : List α) :
    ((l.filterMap f).map g).sum = (l.map fun a => ((f a).map g).getD 0).sum := by
  induction l with
  | nil => rfl
  | cons a l ih =>
    rw [List.filterMap_cons, List.map_cons, List.sum_cons, ← ih]
    cases f a <;> simp

/-- What a node reads is its share of every edge. -/
theorem sum_nodeDefects (edgeOrder : HashOrder (NodeId ×ₗ NodeId)) (node : NodeId) :
    (solver.nodeDefects edgeOrder node).sum =
      ∑ key ∈ solver.lut.entries.keys.toFinset, solver.share key node := by
  rw [List.sum_toFinset _ solver.lut.entries.nodup_keys,
    ← ((edgeOrder.perm solver.lut.entries.keys).map fun key => solver.share key node).sum_eq]
  unfold nodeDefects
  cases known : solver.nodes[node]? with
  | none =>
    have nothing (key : NodeId ×ₗ NodeId) : solver.share key node = 0 := by
      simp [share, endDefect_of_unknown known]
    simp [nothing]
  | some nodeFrame =>
    dsimp only
    rw [readings_eq, sum_filterMap]
    refine congrArg List.sum (List.map_congr_left fun key _ => ?_)
    unfold readKey share endDefect
    rw [known]
    split_ifs <;> rfl

/-- Of the known nodes one is the end `a`, if it is known at all. -/
theorem sum_endDefect {nodes : Finset NodeId} (all : ∀ id, id ∉ nodes → solver.nodes[id]? = none)
    (a b : NodeId) :
    (∑ node ∈ nodes, if a = node then solver.endDefect node b else 0) = solver.endDefect a b := by
  rw [Finset.sum_ite_eq]
  split_ifs with known
  · rfl
  · exact (endDefect_of_unknown (all a known) b).symm

/-- **The two ends** of an edge are all that reads it. -/
theorem sum_share {nodes : Finset NodeId} (all : ∀ id, id ∉ nodes → solver.nodes[id]? = none)
    (key : NodeId ×ₗ NodeId) :
    ∑ node ∈ nodes, solver.share key node = solver.edgeDefect key := by
  unfold share edgeDefect
  generalize (ofLex key).1 = a
  generalize (ofLex key).2 = b
  by_cases same : a = b
  · subst same
    rw [if_pos rfl, ← solver.sum_endDefect all]
    exact Finset.sum_congr rfl fun node _ => by split_ifs <;> rfl
  · rw [if_neg same, ← solver.sum_endDefect all, ← solver.sum_endDefect all b,
      ← Finset.sum_add_distrib]
    refine Finset.sum_congr rfl fun node _ => ?_
    by_cases first : a = node
    · have second : b ≠ node := fun other => same (first.trans other.symm)
      rw [if_pos first, if_pos first, if_neg second, add_zero]
    · rw [if_neg first, if_neg first, zero_add]

/-- **What a step adds up**, whatever the orders. -/
theorem sum_stepDefects (nodeOrder : HashOrder NodeId) (edgeOrder : HashOrder (NodeId ×ₗ NodeId)) :
    (solver.stepDefects nodeOrder edgeOrder).sum = solver.totalDefect := by
  have all : ∀ id, id ∉ solver.nodes.keys.toFinset → solver.nodes[id]? = none := by
    intro id absent
    rw [List.mem_toFinset, Std.ExtTreeMap.mem_keys] at absent
    exact Std.ExtTreeMap.getElem?_eq_none absent
  calc (solver.stepDefects nodeOrder edgeOrder).sum
      = ((nodeOrder.arrange solver.nodes.keys).map fun node =>
          (solver.nodeDefects edgeOrder node).sum).sum := by
        rw [stepDefects, List.flatMap, List.sum_flatten, List.map_map]
        rfl
    _ = ∑ node ∈ solver.nodes.keys.toFinset, (solver.nodeDefects edgeOrder node).sum := by
        rw [List.sum_toFinset _ solver.nodes.nodup_keys]
        exact ((nodeOrder.perm _).map _).sum_eq
    _ = ∑ node ∈ solver.nodes.keys.toFinset, ∑ key ∈ solver.lut.entries.keys.toFinset,
          solver.share key node :=
        Finset.sum_congr rfl fun node _ => solver.sum_nodeDefects edgeOrder node
    _ = ∑ key ∈ solver.lut.entries.keys.toFinset, ∑ node ∈ solver.nodes.keys.toFinset,
          solver.share key node := Finset.sum_comm
    _ = ∑ key ∈ solver.lut.entries.keys.toFinset, solver.edgeDefect key :=
        Finset.sum_congr rfl fun key _ => solver.sum_share all key
    _ = solver.totalDefect := List.sum_toFinset _ solver.lut.entries.nodup_keys

end Handshake

/-! ### When every sum fits -/

section Exact

variable (solver : HolonomySolver F)

/-- How many neighbours a node can be compared with: known, and on a measured edge. -/
def comparable (node : NodeId) : ℕ :=
  (solver.lut.neighbors .asListed node).countP fun neighbor =>
    (solver.lut.latest node neighbor).isSome && solver.nodes[neighbor]?.isSome

variable {solver} in
theorem length_nodeDefects {node : NodeId} {nodeFrame : ChiralFrame}
    (known : solver.nodes[node]? = some nodeFrame) (edgeOrder : HashOrder (NodeId ×ₗ NodeId)) :
    (solver.nodeDefects edgeOrder node).length = solver.comparable node := by
  rw [(solver.nodeDefects_perm .asListed node).length_eq, nodeDefects, known]
  dsimp only
  rw [List.length_map, readings, List.length_filterMap_eq_countP, comparable]
  congr 1
  funext neighbor
  unfold read
  cases solver.lut.latest node neighbor <;> cases solver.nodes[neighbor]? <;> rfl

/-- The disagreements of the table sum below `2 ^ 64`, and every node has fewer than `2 ^ 32`
neighbours that it can be compared with. -/
structure SumsFit : Prop where
  total : solver.totalDefect < 2 ^ 64
  count : ∀ (id : NodeId) (frame : ChiralFrame), solver.nodes[id]? = some frame →
    solver.comparable id < 2 ^ 32

/-- For all orders no sum overflows, the mean of a step is exact, and the nodes listed are those
whose exact average is above the threshold. -/
structure SumsExact : Prop where
  step : ∀ nodeOrder edgeOrder, ∃ mean,
    meanDefect (solver.stepDefects nodeOrder edgeOrder) = some mean ∧
      (solver.step nodeOrder edgeOrder).2.meanDefectNanos = mean ∧
      mean = (solver.stepDefects nodeOrder edgeOrder).sum /
        (solver.stepDefects nodeOrder edgeOrder).length
  detect : ∀ nodeOrder edgeOrder threshold, ∃ defective,
    solver.detectDefectiveNodes nodeOrder edgeOrder threshold = some defective ∧
      ∀ id, id ∈ defective ↔ AverageAbove edgeOrder solver threshold id

variable {solver} {nodeOrder : HashOrder NodeId} {edgeOrder : HashOrder (NodeId ×ₗ NodeId)}
  {threshold : ℕ}

theorem detectDefectiveNodes_eq :
    solver.detectDefectiveNodes nodeOrder edgeOrder threshold =
      if ∀ node ∈ nodeOrder.arrange solver.nodes.keys, NodeFits edgeOrder solver node then
        some ((nodeOrder.arrange solver.nodes.keys).filter fun node =>
          AverageAbove edgeOrder solver threshold node)
      else none :=
  solver.foldlM_detectNode _ []

/-- A node that can be compared with others is known. -/
theorem AverageAbove.known {id : NodeId} (above : AverageAbove edgeOrder solver threshold id) :
    id ∈ solver.nodes := by
  by_contra absent
  have unknown : solver.nodes[id]? = none := Std.ExtTreeMap.getElem?_eq_none absent
  have reads := above.2.1
  simp [nodeDefects, unknown] at reads

theorem sum_nodeDefects_le {id : NodeId} (known : id ∈ solver.nodes) :
    (solver.nodeDefects edgeOrder id).sum ≤ solver.totalDefect := by
  rw [← solver.sum_stepDefects .asListed edgeOrder, stepDefects, List.flatMap, List.sum_flatten,
    List.map_map]
  refine List.single_le_sum (fun _ _ => Nat.zero_le _) _ (List.mem_map.mpr ⟨id, ?_, rfl⟩)
  exact Std.ExtTreeMap.mem_keys.mpr known

theorem SumsFit.exact (fit : solver.SumsFit) : solver.SumsExact := by
  constructor
  · intro nodeOrder edgeOrder
    have total := solver.sum_stepDefects nodeOrder edgeOrder
    have fits : (solver.stepDefects nodeOrder edgeOrder).sum < 2 ^ 64 := total ▸ fit.total
    refine ⟨_, ?_, ?_, rfl⟩
    · rw [meanDefect, sumU64_eq, if_pos fits]
      split_ifs with empty
      · simp [List.isEmpty_iff.mp empty]
      · rfl
    · rw [step_result]
      dsimp only
      rw [Nat.mod_eq_of_lt fits]
      split_ifs with empty
      · simp [List.isEmpty_iff.mp empty]
      · rfl
  · intro nodeOrder edgeOrder threshold
    have all : ∀ node ∈ nodeOrder.arrange solver.nodes.keys, NodeFits edgeOrder solver node := by
      intro node visited _
      have known : node ∈ solver.nodes := Std.ExtTreeMap.mem_keys.mp (nodeOrder.mem.mp visited)
      obtain ⟨frame, found⟩ := Option.isSome_iff_exists.mp
        (Std.ExtTreeMap.mem_iff_isSome_getElem?.mp known)
      exact ⟨(sum_nodeDefects_le known).trans_lt fit.total,
        length_nodeDefects found edgeOrder ▸ fit.count node frame found⟩
    refine ⟨_, detectDefectiveNodes_eq.trans (if_pos all), fun id => ?_⟩
    rw [List.mem_filter, nodeOrder.mem, Std.ExtTreeMap.mem_keys, decide_eq_true_eq]
    exact and_iff_right_of_imp AverageAbove.known

theorem SumsExact.fit (exact' : solver.SumsExact) : solver.SumsFit := by
  constructor
  · obtain ⟨mean, fits, _⟩ := exact'.step .asListed .asListed
    rw [← solver.sum_stepDefects .asListed .asListed]
    by_contra overflows
    have some : ¬ (solver.stepDefects .asListed .asListed).isEmpty = true := fun empty => by
      simp [List.isEmpty_iff.mp empty] at overflows
    rw [meanDefect, if_neg some, sumU64_eq, if_neg overflows] at fits
    cases fits
  · intro id frame found
    obtain ⟨defective, fits, _⟩ := exact'.detect .asListed .asListed 0
    rw [detectDefectiveNodes_eq] at fits
    split_ifs at fits with all
    have visited : id ∈ HashOrder.asListed.arrange solver.nodes.keys := by
      rw [HashOrder.mem, Std.ExtTreeMap.mem_keys, Std.ExtTreeMap.mem_iff_isSome_getElem?, found]
      rfl
    by_cases many : 2 ≤ (solver.lut.neighbors .asListed id).length
    · exact length_nodeDefects found .asListed ▸ (all id visited many).2
    · have few := List.countP_le_length (p := fun neighbor =>
        (solver.lut.latest id neighbor).isSome && solver.nodes[neighbor]?.isSome)
          (l := solver.lut.neighbors .asListed id)
      unfold comparable
      omega

/-- **When the unsigned sums fit.** For every network, no sum of `step` or `detectDefectiveNodes`
overflows and the averages are exact, for all orders, exactly when the disagreements of its edges
sum below `2 ^ 64`, both ends counted, and no node has `2 ^ 32` neighbours to be compared with. -/
theorem sums_exact_iff : solver.SumsExact ↔ solver.SumsFit :=
  ⟨SumsExact.fit, SumsFit.exact⟩

theorem pulledApart_stepDefects :
    pulledApart.stepDefects .asListed .asListed = List.replicate 6 (2 ^ 63 - 1) := rfl

theorem pulledApart_nodeDefects :
    pulledApart.nodeDefects .asListed (.replicate 1) = List.replicate 3 (2 ^ 63 - 1) := rfl

/-- **Three edges overflow both.** Where the sum wraps instead, the mean reported of six equal
defects is a third of each. -/
theorem sums_exact_pulledApart :
    meanDefect (pulledApart.stepDefects .asListed .asListed) = none ∧
    (∀ threshold, pulledApart.detectDefectiveNodes .asListed .asListed threshold = none) ∧
    (pulledApart.step .asListed .asListed).2.meanDefectNanos = 3074457345618258601 ∧
    (pulledApart.stepDefects .asListed .asListed).sum /
      (pulledApart.stepDefects .asListed .asListed).length = 9223372036854775807 := by
  refine ⟨?_, fun threshold => ?_, ?_, ?_⟩
  · rw [meanDefect, pulledApart_stepDefects, sumU64_eq]
    rfl
  · rw [detectDefectiveNodes_eq, if_neg]
    intro all
    have overflows := (all (.replicate 1) (by decide) (by decide)).1
    rw [pulledApart_nodeDefects] at overflows
    norm_num at overflows
  · rw [step_result, pulledApart_stepDefects]
    rfl
  · rw [pulledApart_stepDefects]
    rfl

end Exact

end Rtfsn.HolonomySolver
