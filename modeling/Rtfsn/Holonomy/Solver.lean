/-
The holonomy solver: clock offsets by damped relaxation.

* `step`: every node reads the disagreement with its neighbours, and all move at once. The defects
  it reports are those it read, before the move.
* `solve`: steps until the defects are within the tolerance.

The frames and the twist table are hash maps: `step` lists the nodes and the edges in arbitrary
orders. `f64` arithmetic is whatever `F64` provides, and the sum of the defects wraps, as in a
release build.
-/
import Rtfsn.Holonomy.Twist

namespace Rtfsn

inductive Chirality where
  | c0 | c1 | c2 | c3

/-- A clock node's state. -/
structure ChiralFrame where
  offsetNanos : ℤ
  driftPpb : ℤ
  confidence : ℕ
  chirality : Chirality

def ChiralFrame.new (offsetNanos driftPpb : ℤ) (confidence : ℕ) : ChiralFrame :=
  ⟨offsetNanos, driftPpb, confidence, .c0⟩

structure HolonomySolver (F : Type) where
  nodes : Std.ExtTreeMap NodeId ChiralFrame
  lut : TwistLUT
  iteration : ℕ
  damping : F

structure SolveResult where
  iterations : ℕ
  maxDefectNanos : ℕ
  meanDefectNanos : ℕ
  converged : Bool

namespace HolonomySolver

variable {F : Type} [F64 F]

def new : HolonomySolver F := ⟨∅, TwistLUT.new, 0, F64.lit 0.3⟩

def addNode (solver : HolonomySolver F) (id : NodeId) (frame : ChiralFrame) : HolonomySolver F :=
  { solver with nodes := solver.nodes.insert id frame }

def addMeasurement (solver : HolonomySolver F) (a b : NodeId) (twist : TwistIndex) :
    HolonomySolver F :=
  { solver with lut := solver.lut.insert a b twist }

/-- How far `node` is from where its neighbour's offset and the twist put it: the larger id is at
the smaller one's offset plus the twist. -/
def edgeError (node neighbor : NodeId) (nodeFrame neighborFrame : ChiralFrame)
    (twist : TwistIndex) : ℤ :=
  let expected :=
    if neighbor < node then saturatingAddI64 neighborFrame.offsetNanos twist.offsetNanos
    else saturatingSubI64 neighborFrame.offsetNanos twist.offsetNanos
  saturatingSubI64 expected nodeFrame.offsetNanos

/-- What a node has collected from its neighbours, and the defects of the step so far. -/
structure Pull (F : Type) where
  correctionSum : ℤ
  weightSum : F
  defects : List ℕ

/-- The loop body over the neighbours of `node`. -/
def pull (solver : HolonomySolver F) (node : NodeId) (nodeFrame : ChiralFrame) (acc : Pull F)
    (neighbor : NodeId) : Pull F :=
  match solver.lut.latest node neighbor with
  | none => acc
  | some twist =>
    match solver.nodes[neighbor]? with
    | none => acc
    | some neighborFrame =>
      let error := edgeError node neighbor nodeFrame neighborFrame twist
      let weight := F64.ofNat twist.quality / F64.lit 100
      { correctionSum :=
          saturatingAddI64 acc.correctionSum (F64.toI64 (F64.ofInt error * weight))
        weightSum := acc.weightSum + weight
        defects := acc.defects ++ [error.natAbs] }

/-- The loop body over the nodes: the corrections and the defects so far. -/
def visit (edgeOrder : HashOrder (NodeId ×ₗ NodeId)) (solver : HolonomySolver F)
    (acc : Std.ExtTreeMap NodeId ℤ × List ℕ) (node : NodeId) :
    Std.ExtTreeMap NodeId ℤ × List ℕ :=
  let neighbors := solver.lut.neighbors edgeOrder node
  if neighbors.isEmpty then acc
  else
    match solver.nodes[node]? with
    | none => acc  -- not reached: the visited nodes are the keys
    | some nodeFrame =>
      let pulled := neighbors.foldl (solver.pull node nodeFrame) ⟨0, 0, acc.2⟩
      if F64.lt 0 pulled.weightSum then
        let correction :=
          F64.toI64 (F64.ofInt pulled.correctionSum / pulled.weightSum * solver.damping)
        (acc.1.insert node correction, pulled.defects)
      else (acc.1, pulled.defects)

/-- The frame moved by its correction, when it has one. -/
def applyUpdate (updates : Std.ExtTreeMap NodeId ℤ) (id : NodeId) (frame : ChiralFrame) :
    ChiralFrame :=
  match updates[id]? with
  | none => frame
  | some correction =>
    { frame with offsetNanos := saturatingAddI64 frame.offsetNanos correction }

/-- One iteration of the solve. -/
def step (nodeOrder : HashOrder NodeId) (edgeOrder : HashOrder (NodeId ×ₗ NodeId))
    (solver : HolonomySolver F) : HolonomySolver F × SolveResult :=
  let (updates, defects) :=
    (nodeOrder.arrange solver.nodes.keys).foldl (solver.visit edgeOrder) (∅, [])
  let iteration := (solver.iteration + 1) % 2 ^ 32
  let maxDefect := defects.max?.getD 0
  let meanDefect := if defects.isEmpty then 0 else defects.sum % 2 ^ 64 / defects.length
  ({ solver with nodes := solver.nodes.map (applyUpdate updates), iteration := iteration },
    { iterations := iteration
      maxDefectNanos := maxDefect
      meanDefectNanos := meanDefect
      converged := decide (maxDefect < 1000) })

/-- The loop of `solve`, with the last result. -/
def solveLoop (nodeOrder : HashOrder NodeId) (edgeOrder : HashOrder (NodeId ×ₗ NodeId))
    (tolerance : ℕ) : ℕ → HolonomySolver F → SolveResult → HolonomySolver F × SolveResult
  | 0, solver, result => (solver, result)
  | fuel + 1, solver, _ =>
    let (solver, result) := solver.step nodeOrder edgeOrder
    if result.maxDefectNanos ≤ tolerance then (solver, { result with converged := true })
    else solveLoop nodeOrder edgeOrder tolerance fuel solver result

/-- Run until convergence or `maxIterations`. -/
def solve (nodeOrder : HashOrder NodeId) (edgeOrder : HashOrder (NodeId ×ₗ NodeId))
    (solver : HolonomySolver F) (maxIterations tolerance : ℕ) : HolonomySolver F × SolveResult :=
  solveLoop nodeOrder edgeOrder tolerance maxIterations solver ⟨0, maxU64, maxU64, false⟩

/-! ### Without measurements -/

theorem neighbors_new (order : HashOrder (NodeId ×ₗ NodeId)) (node : NodeId) :
    TwistLUT.new.neighbors order node = [] := by
  have none : order.arrange (∅ : Std.ExtTreeMap (NodeId ×ₗ NodeId) (List TwistIndex)).keys = [] :=
    (order.perm _).eq_nil
  unfold TwistLUT.neighbors TwistLUT.new
  rw [none, List.filterMap_nil]

/-- A step without measurements leaves the frames as they are. -/
theorem step_nodes_of_new (nodeOrder : HashOrder NodeId)
    (edgeOrder : HashOrder (NodeId ×ₗ NodeId)) {solver : HolonomySolver F}
    (empty : solver.lut = TwistLUT.new) :
    (solver.step nodeOrder edgeOrder).1.nodes = solver.nodes ∧
      (solver.step nodeOrder edgeOrder).2.maxDefectNanos = 0 := by
  have idle : ∀ acc node, solver.visit edgeOrder acc node = acc := by
    intro acc node
    unfold visit
    rw [empty, neighbors_new]
    rfl
  have visits : ∀ acc, (nodeOrder.arrange solver.nodes.keys).foldl (solver.visit edgeOrder) acc =
      acc := by
    intro acc
    rw [show solver.visit edgeOrder = fun acc _ => acc from funext₂ idle]
    exact List.foldl_fixed _
  have kept : applyUpdate ∅ = fun (_ : NodeId) (frame : ChiralFrame) => frame := by
    funext id frame
    unfold applyUpdate
    rw [Std.ExtTreeMap.getElem?_empty]
  unfold step
  rw [visits]
  refine ⟨?_, rfl⟩
  show solver.nodes.map (applyUpdate ∅) = solver.nodes
  rw [kept]
  exact Std.ExtTreeMap.ext_getElem? fun k => by simp

/-- **A solve without measurements leaves the frames as they are.** -/
theorem solve_nodes_of_new (nodeOrder : HashOrder NodeId)
    (edgeOrder : HashOrder (NodeId ×ₗ NodeId)) {solver : HolonomySolver F}
    (empty : solver.lut = TwistLUT.new) (maxIterations tolerance : ℕ) :
    (solver.solve nodeOrder edgeOrder maxIterations tolerance).1.nodes = solver.nodes := by
  obtain ⟨nodes, none⟩ := solver.step_nodes_of_new nodeOrder edgeOrder empty
  unfold solve
  cases maxIterations with
  | zero => rfl
  | succ fuel =>
    unfold solveLoop
    dsimp only
    rw [none, if_pos (Nat.zero_le _)]
    exact nodes

end HolonomySolver

end Rtfsn
