/-
**One step, node by node.**

A step visits the nodes in one arbitrary order and each node's neighbours in another. What comes of
it is said here without the loops.

* `readings`: what a node reads from its neighbours, an error and a quality each.
* `visit_eq`: a visit appends the errors read and notes the correction they make.
* `step_nodes`: a step moves each frame by its own correction. `step_result`: the defects are the
  errors of all nodes.
-/
import Rtfsn.Holonomy.Solver
import Rtfsn.Lib.Maps

set_option linter.unusedSectionVars false

namespace Rtfsn.HolonomySolver

variable {F : Type} [F64 F]

/-- What a node reads from one neighbour. -/
structure Reading where
  error : ℤ
  quality : ℕ

/-- The weight of a reading. -/
def Reading.weight (F : Type) [F64 F] (reading : Reading) : F :=
  F64.ofNat reading.quality / F64.lit 100

/-- What a reading adds to the correction sum. -/
def Reading.term (F : Type) [F64 F] (reading : Reading) : ℤ :=
  F64.toI64 (F64.ofInt reading.error * reading.weight F)

/-- What `node` reads from one neighbour, when the edge is measured and the neighbour known. -/
def read (solver : HolonomySolver F) (node : NodeId) (nodeFrame : ChiralFrame) (neighbor : NodeId) :
    Option Reading :=
  (solver.lut.latest node neighbor).bind fun twist =>
    solver.nodes[neighbor]?.map fun neighborFrame =>
      ⟨edgeError node neighbor nodeFrame neighborFrame twist, twist.quality⟩

/-- What `node` reads from all of them. -/
def readings (edgeOrder : HashOrder (NodeId ×ₗ NodeId)) (solver : HolonomySolver F) (node : NodeId)
    (nodeFrame : ChiralFrame) : List Reading :=
  (solver.lut.neighbors edgeOrder node).filterMap (solver.read node nodeFrame)

/-- What `node` reads along one edge of the table. -/
def readKey (solver : HolonomySolver F) (node : NodeId) (nodeFrame : ChiralFrame)
    (key : NodeId ×ₗ NodeId) : Option Reading :=
  (if (ofLex key).1 = node then some (ofLex key).2
    else if (ofLex key).2 = node then some (ofLex key).1 else none).bind
    (solver.read node nodeFrame)

theorem readings_eq (edgeOrder : HashOrder (NodeId ×ₗ NodeId)) (solver : HolonomySolver F)
    (node : NodeId) (nodeFrame : ChiralFrame) :
    solver.readings edgeOrder node nodeFrame =
      (edgeOrder.arrange solver.lut.entries.keys).filterMap (solver.readKey node nodeFrame) := by
  rw [readings, TwistLUT.neighbors, List.filterMap_filterMap]
  rfl

/-- The sum of the terms, saturating after each. -/
def correctionSum (F : Type) [F64 F] (readings : List Reading) : ℤ :=
  readings.foldl (fun sum reading => saturatingAddI64 sum (reading.term F)) 0

def weightSum (F : Type) [F64 F] (readings : List Reading) : F :=
  readings.foldl (fun sum reading => sum + reading.weight F) 0

/-- The correction the readings make. -/
def correction (solver : HolonomySolver F) (readings : List Reading) : Option ℤ :=
  if F64.lt 0 (weightSum F readings) then
    some (F64.toI64 (F64.ofInt (correctionSum F readings) / weightSum F readings * solver.damping))
  else none

/-- The correction of a node with neighbours. -/
def nodeCorrection (edgeOrder : HashOrder (NodeId ×ₗ NodeId)) (solver : HolonomySolver F)
    (node : NodeId) (nodeFrame : ChiralFrame) : Option ℤ :=
  if (solver.lut.neighbors edgeOrder node).isEmpty then none
  else solver.correction (solver.readings edgeOrder node nodeFrame)

/-- The frame after the step. -/
def moved (edgeOrder : HashOrder (NodeId ×ₗ NodeId)) (solver : HolonomySolver F) (node : NodeId)
    (nodeFrame : ChiralFrame) : ChiralFrame :=
  match solver.nodeCorrection edgeOrder node nodeFrame with
  | none => nodeFrame
  | some correction =>
    { nodeFrame with offsetNanos := saturatingAddI64 nodeFrame.offsetNanos correction }

/-- The errors a node reads, without their signs. -/
def nodeDefects (edgeOrder : HashOrder (NodeId ×ₗ NodeId)) (solver : HolonomySolver F)
    (node : NodeId) : List ℕ :=
  match solver.nodes[node]? with
  | none => []
  | some nodeFrame => (solver.readings edgeOrder node nodeFrame).map fun reading =>
      reading.error.natAbs

/-- All errors of a step, in the order the step reads them. -/
def stepDefects (nodeOrder : HashOrder NodeId) (edgeOrder : HashOrder (NodeId ×ₗ NodeId))
    (solver : HolonomySolver F) : List ℕ :=
  (nodeOrder.arrange solver.nodes.keys).flatMap (solver.nodeDefects edgeOrder)

/-! ### One visit -/

section Visit

variable (solver : HolonomySolver F) (node : NodeId) (nodeFrame : ChiralFrame)

theorem pull_eq (acc : Pull F) (neighbor : NodeId) :
    solver.pull node nodeFrame acc neighbor =
      match solver.read node nodeFrame neighbor with
      | none => acc
      | some reading =>
        { correctionSum := saturatingAddI64 acc.correctionSum (reading.term F)
          weightSum := acc.weightSum + reading.weight F
          defects := acc.defects ++ [reading.error.natAbs] } := by
  unfold pull read
  cases solver.lut.latest node neighbor with
  | none => rfl
  | some twist => cases solver.nodes[neighbor]? <;> rfl

/-- The loop over the neighbours is a loop over the readings. -/
theorem foldl_pull (neighbors : List NodeId) (acc : Pull F) :
    neighbors.foldl (solver.pull node nodeFrame) acc =
      { correctionSum := (neighbors.filterMap (solver.read node nodeFrame)).foldl
          (fun sum reading => saturatingAddI64 sum (reading.term F)) acc.correctionSum
        weightSum := (neighbors.filterMap (solver.read node nodeFrame)).foldl
          (fun sum reading => sum + reading.weight F) acc.weightSum
        defects := acc.defects ++ (neighbors.filterMap (solver.read node nodeFrame)).map
          fun reading => reading.error.natAbs } := by
  induction neighbors generalizing acc with
  | nil => simp
  | cons neighbor rest ih =>
    rw [List.foldl_cons, ih, pull_eq, List.filterMap_cons]
    cases solver.read node nodeFrame neighbor with
    | none => rfl
    | some reading => simp

variable {edgeOrder : HashOrder (NodeId ×ₗ NodeId)}

/-- **A visit** notes the node's correction and appends its defects. -/
theorem visit_eq (acc : Std.ExtTreeMap NodeId ℤ × List ℕ) :
    solver.visit edgeOrder acc node =
      (match solver.nodes[node]?.bind (solver.nodeCorrection edgeOrder node) with
        | none => acc.1
        | some correction => acc.1.insert node correction,
      acc.2 ++ solver.nodeDefects edgeOrder node) := by
  unfold visit nodeDefects
  dsimp only
  by_cases lonely : (solver.lut.neighbors edgeOrder node).isEmpty = true
  · have none : solver.lut.neighbors edgeOrder node = [] := List.isEmpty_iff.mp lonely
    rw [if_pos lonely]
    cases solver.nodes[node]? <;> simp [nodeCorrection, readings, none]
  · rw [if_neg lonely]
    cases solver.nodes[node]? with
    | none => simp
    | some nodeFrame =>
      have pulled : (solver.lut.neighbors edgeOrder node).foldl (solver.pull node nodeFrame)
          ⟨0, 0, acc.2⟩ =
            ⟨correctionSum F (solver.readings edgeOrder node nodeFrame),
              weightSum F (solver.readings edgeOrder node nodeFrame),
              acc.2 ++ (solver.readings edgeOrder node nodeFrame).map fun reading =>
                reading.error.natAbs⟩ := solver.foldl_pull node nodeFrame _ _
      dsimp only
      rw [pulled, Option.bind_some, nodeCorrection, if_neg lonely, correction]
      split_ifs <;> rfl

theorem nodeCorrection_of_readings (some : solver.readings edgeOrder node nodeFrame ≠ []) :
    solver.nodeCorrection edgeOrder node nodeFrame =
      solver.correction (solver.readings edgeOrder node nodeFrame) := by
  refine if_neg fun lonely => some ?_
  rw [readings, List.isEmpty_iff.mp lonely, List.filterMap_nil]

end Visit

/-! ### The step -/

section Step

variable (solver : HolonomySolver F) {nodeOrder : HashOrder NodeId}
  {edgeOrder : HashOrder (NodeId ×ₗ NodeId)}

theorem foldl_visit_snd (nodes : List NodeId) (acc : Std.ExtTreeMap NodeId ℤ × List ℕ) :
    (nodes.foldl (solver.visit edgeOrder) acc).2 =
      acc.2 ++ nodes.flatMap (solver.nodeDefects edgeOrder) := by
  induction nodes generalizing acc with
  | nil => simp
  | cons node rest ih =>
    rw [List.foldl_cons, ih, visit_eq, List.flatMap_cons, List.append_assoc]

theorem visit_fst (acc : Std.ExtTreeMap NodeId ℤ × List ℕ) (node id : NodeId) :
    (solver.visit edgeOrder acc node).1[id]? =
      if id = node then (solver.nodes[id]?.bind (solver.nodeCorrection edgeOrder id)).or acc.1[id]?
      else acc.1[id]? := by
  rw [visit_eq]
  by_cases same : id = node
  · subst same
    rw [if_pos rfl]
    cases solver.nodes[id]?.bind (solver.nodeCorrection edgeOrder id) <;> simp
  · rw [if_neg same]
    cases solver.nodes[node]?.bind (solver.nodeCorrection edgeOrder node) with
    | none => rfl
    | some correction =>
      dsimp only
      rw [Std.ExtTreeMap.getElem?_insert, if_neg fun equal =>
        same (Std.LawfulEqCmp.eq_of_compare equal).symm]

/-- The corrections of the nodes visited. -/
theorem foldl_visit_fst (nodes : List NodeId) (acc : Std.ExtTreeMap NodeId ℤ × List ℕ)
    (id : NodeId) :
    (nodes.foldl (solver.visit edgeOrder) acc).1[id]? =
      if id ∈ nodes then (solver.nodes[id]?.bind (solver.nodeCorrection edgeOrder id)).or acc.1[id]?
      else acc.1[id]? := by
  induction nodes generalizing acc with
  | nil => simp
  | cons node rest ih =>
    rw [List.foldl_cons, ih, visit_fst]
    by_cases same : id = node <;> by_cases later : id ∈ rest <;>
      cases solver.nodes[id]?.bind (solver.nodeCorrection edgeOrder id) <;> simp [same, later]

/-- **A step moves every frame by its own correction.** -/
theorem step_nodes (id : NodeId) :
    (solver.step nodeOrder edgeOrder).1.nodes[id]? =
      solver.nodes[id]?.map (solver.moved edgeOrder id) := by
  unfold step
  dsimp only
  rw [Std.ExtTreeMap.getElem?_map]
  cases known : solver.nodes[id]? with
  | none => rfl
  | some nodeFrame =>
    have visited : id ∈ nodeOrder.arrange solver.nodes.keys := by
      rw [nodeOrder.mem, Std.ExtTreeMap.mem_keys, Std.ExtTreeMap.mem_iff_isSome_getElem?, known]
      rfl
    have noted : ((nodeOrder.arrange solver.nodes.keys).foldl (solver.visit edgeOrder)
        (∅, [])).1[id]? = solver.nodeCorrection edgeOrder id nodeFrame := by
      rw [foldl_visit_fst, if_pos visited, known, Option.bind_some, Std.ExtTreeMap.getElem?_empty,
        Option.or_none]
    cases corrected : solver.nodeCorrection edgeOrder id nodeFrame <;>
      simp [applyUpdate, moved, noted, corrected]

/-- The result of a step, from its defects. -/
theorem step_result :
    (solver.step nodeOrder edgeOrder).2 =
      { iterations := (solver.iteration + 1) % 2 ^ 32
        maxDefectNanos := (solver.stepDefects nodeOrder edgeOrder).max?.getD 0
        meanDefectNanos :=
          if (solver.stepDefects nodeOrder edgeOrder).isEmpty then 0
          else (solver.stepDefects nodeOrder edgeOrder).sum % 2 ^ 64 /
            (solver.stepDefects nodeOrder edgeOrder).length
        converged := decide ((solver.stepDefects nodeOrder edgeOrder).max?.getD 0 < 1000) } := by
  unfold step
  dsimp only
  rw [foldl_visit_snd, List.nil_append]
  rfl

theorem step_damping : (solver.step nodeOrder edgeOrder).1.damping = solver.damping := rfl

/-! ### Other orders -/

variable (edgeOrder) in
theorem neighbors_perm (lut : TwistLUT) (edgeOrder' : HashOrder (NodeId ×ₗ NodeId))
    (node : NodeId) : (lut.neighbors edgeOrder node).Perm (lut.neighbors edgeOrder' node) :=
  ((edgeOrder.perm _).trans (edgeOrder'.perm _).symm).filterMap _

variable (edgeOrder) in
theorem readings_perm (edgeOrder' : HashOrder (NodeId ×ₗ NodeId)) (node : NodeId)
    (nodeFrame : ChiralFrame) :
    (solver.readings edgeOrder node nodeFrame).Perm (solver.readings edgeOrder' node nodeFrame) :=
  (neighbors_perm edgeOrder solver.lut edgeOrder' node).filterMap _

theorem nodeDefects_perm (edgeOrder' : HashOrder (NodeId ×ₗ NodeId)) (node : NodeId) :
    (solver.nodeDefects edgeOrder node).Perm (solver.nodeDefects edgeOrder' node) := by
  unfold nodeDefects
  cases solver.nodes[node]? with
  | none => exact .refl _
  | some nodeFrame => exact (solver.readings_perm edgeOrder edgeOrder' node nodeFrame).map _

end Step

end Rtfsn.HolonomySolver
