/-
**What `converged` says of a solve.**

* `min_defect_le`: two ends that both read an edge's defect as small know it to be small, wherever
  the `i64` arithmetic saturated.
* `step_defects`: the defects a step reports bound every measured edge of the frames it started
  from, whatever the orders of the hash maps and the rounding.
* `solve_converged`: so a converged solve had its edges within the tolerance, or within the
  microsecond that `step` itself asks for, before its last move. What the last move leaves is not
  measured.
-/
import Rtfsn.Holonomy.LoopHolonomy
import Rtfsn.Holonomy.Readings

set_option linter.unusedSectionVars false

namespace Rtfsn.HolonomySolver

variable {F : Type} [F64 F] {nodeOrder : HashOrder NodeId}
  {edgeOrder : HashOrder (NodeId ×ₗ NodeId)}

/-! ### One edge -/

/-- **Saturation at one end shows at the other.** -/
theorem min_defect_le {smaller larger twist : ℤ} {bound : ℕ} (isSmaller : IsI64 smaller)
    (isLarger : IsI64 larger) (isTwist : IsI64 twist)
    (fromLarger : (saturatingSubI64 (saturatingAddI64 smaller twist) larger).natAbs ≤ bound)
    (fromSmaller : (saturatingSubI64 (saturatingSubI64 larger twist) smaller).natAbs ≤ bound) :
    min |larger - smaller - twist| maxI64 ≤ bound := by
  unfold saturatingSubI64 at fromLarger fromSmaller
  unfold saturatingAddI64 at fromLarger
  have sum := saturateI64_cases (smaller + twist)
  have difference := saturateI64_cases (larger - twist)
  have readLarger := saturateI64_cases (saturateI64 (smaller + twist) - larger)
  have readSmaller := saturateI64_cases (saturateI64 (larger - twist) - smaller)
  unfold IsI64 at *
  by_cases wide : maxI64 ≤ bound
  · exact min_le_of_right_le wide
  · refine min_le_of_left_le (abs_le.mpr ?_)
    unfold maxI64 at *
    omega

theorem edgeError_of_lt {a b : NodeId} (ordered : a < b) (frame frame' : ChiralFrame)
    (twist : TwistIndex) :
    edgeError b a frame frame' twist = saturatingSubI64
        (saturatingAddI64 frame'.offsetNanos twist.offsetNanos) frame.offsetNanos ∧
      edgeError a b frame frame' twist = saturatingSubI64
        (saturatingSubI64 frame'.offsetNanos twist.offsetNanos) frame.offsetNanos := by
  unfold edgeError
  rw [if_pos ordered, if_neg ordered.not_gt]
  exact ⟨rfl, rfl⟩

/-- A measured edge joins its ends. -/
theorem mem_neighbors {lut : TwistLUT} {a b : NodeId} {twist : TwistIndex}
    (measured : lut.latest a b = some twist) : b ∈ lut.neighbors edgeOrder a := by
  have listed : toLex (TwistLUT.edgeKey a b) ∈ lut.entries := by
    rw [Std.ExtTreeMap.mem_iff_isSome_getElem?]
    unfold TwistLUT.latest TwistLUT.get at measured
    obtain ⟨history, found, _⟩ := Option.bind_eq_some_iff.mp measured
    rw [found, Option.isSome_some]
  unfold TwistLUT.neighbors
  refine List.mem_filterMap.mpr ⟨toLex (TwistLUT.edgeKey a b),
    edgeOrder.mem.mpr (Std.ExtTreeMap.mem_keys.mpr listed), ?_⟩
  by_cases ordered : a ≤ b
  · simp [TwistLUT.edgeKey_of_le ordered]
  · have other : b ≠ a := fun same => ordered same.ge
    simp [TwistLUT.edgeKey_of_not_le ordered, other]

/-! ### One step -/

section Step

variable {solver : HolonomySolver F} {a b : NodeId} {frame frame' : ChiralFrame}
  {twist : TwistIndex}

/-- Both ends of a measured edge are read. -/
theorem edgeError_mem_stepDefects (measured : solver.lut.latest a b = some twist)
    (knownA : solver.nodes[a]? = some frame) (knownB : solver.nodes[b]? = some frame') :
    (edgeError a b frame frame' twist).natAbs ∈ solver.stepDefects nodeOrder edgeOrder := by
  have listed : a ∈ nodeOrder.arrange solver.nodes.keys := by
    rw [nodeOrder.mem, Std.ExtTreeMap.mem_keys, Std.ExtTreeMap.mem_iff_isSome_getElem?, knownA]
    rfl
  have read : ⟨edgeError a b frame frame' twist, twist.quality⟩ ∈
      solver.readings edgeOrder a frame :=
    List.mem_filterMap.mpr ⟨b, mem_neighbors measured, by simp [read, measured, knownB]⟩
  refine List.mem_flatMap.mpr ⟨a, listed, ?_⟩
  rw [nodeDefects, knownA]
  exact List.mem_map.mpr ⟨_, read, rfl⟩

variable (nodeOrder edgeOrder) in
theorem edgeError_le_maxDefect (measured : solver.lut.latest a b = some twist)
    (knownA : solver.nodes[a]? = some frame) (knownB : solver.nodes[b]? = some frame') :
    (edgeError a b frame frame' twist).natAbs ≤
      (solver.step nodeOrder edgeOrder).2.maxDefectNanos := by
  rw [step_result]
  exact List.le_max?_getD_of_mem (edgeError_mem_stepDefects measured knownA knownB)

end Step

/-- Every offset is an `i64`, as the source's types say. -/
structure WellTyped (solver : HolonomySolver F) : Prop where
  frames : ∀ (id : NodeId) (frame : ChiralFrame), solver.nodes[id]? = some frame →
    IsI64 frame.offsetNanos
  twists : ∀ (a b : NodeId) (twist : TwistIndex), solver.lut.latest a b = some twist →
    IsI64 twist.offsetNanos

/-- Every measured edge between two known nodes has at most the given defect, as far as an `i64`
can tell. -/
def DefectsWithin (solver : HolonomySolver F) (bound : ℕ) : Prop :=
  ∀ (a b : NodeId) (frame frame' : ChiralFrame) (twist : TwistIndex), a < b →
    solver.nodes[a]? = some frame → solver.nodes[b]? = some frame' →
    solver.lut.latest a b = some twist →
    min |frame'.offsetNanos - frame.offsetNanos - twist.offsetNanos| maxI64 ≤ bound

variable (nodeOrder edgeOrder) in
/-- **The reported defect bounds the frames the step started from.** -/
theorem step_defects {solver : HolonomySolver F} (typed : solver.WellTyped) :
    solver.DefectsWithin (solver.step nodeOrder edgeOrder).2.maxDefectNanos := by
  intro a b frame frame' twist ordered knownA knownB measured
  have atLarger := edgeError_le_maxDefect nodeOrder edgeOrder
    (solver.lut.latest_comm a b ▸ measured) knownB knownA
  have atSmaller := edgeError_le_maxDefect nodeOrder edgeOrder measured knownA knownB
  rw [(edgeError_of_lt ordered _ _ _).1] at atLarger
  rw [(edgeError_of_lt ordered _ _ _).2] at atSmaller
  exact min_defect_le (typed.frames a frame knownA) (typed.frames b frame' knownB)
    (typed.twists a b twist measured) atLarger atSmaller

theorem step_lut (solver : HolonomySolver F) :
    (solver.step nodeOrder edgeOrder).1.lut = solver.lut := rfl

theorem step_wellTyped {solver : HolonomySolver F} (typed : solver.WellTyped) :
    (solver.step nodeOrder edgeOrder).1.WellTyped := by
  refine ⟨fun id frame found => ?_, typed.twists⟩
  rw [step_nodes] at found
  obtain ⟨before, known, rfl⟩ := Option.map_eq_some_iff.mp found
  unfold moved
  split
  · exact typed.frames id before known
  · exact isI64_saturateI64 _

/-! ### A whole solve -/

section Solve

variable {solver : HolonomySolver F}

variable (nodeOrder edgeOrder) in
theorem iterate_step (typed : solver.WellTyped) (k : ℕ) :
    ((fun s => (s.step nodeOrder edgeOrder).1)^[k] solver).WellTyped ∧
      ((fun s => (s.step nodeOrder edgeOrder).1)^[k] solver).lut = solver.lut := by
  induction k with
  | zero => exact ⟨typed, rfl⟩
  | succ k ih =>
    rw [Function.iterate_succ_apply']
    exact ⟨step_wellTyped ih.1, (step_lut _).trans ih.2⟩

variable (nodeOrder edgeOrder) in
/-- The loop ends with a step; when it says converged, that step read small defects. -/
theorem solveLoop_outcome (tolerance fuel : ℕ) (solver : HolonomySolver F) (result : SolveResult) :
    (fuel = 0 ∧ solveLoop nodeOrder edgeOrder tolerance fuel solver result = (solver, result)) ∨
    ∃ k < fuel,
      (solveLoop nodeOrder edgeOrder tolerance fuel solver result).1 =
        (((fun s => (s.step nodeOrder edgeOrder).1)^[k] solver).step nodeOrder edgeOrder).1 ∧
      ((solveLoop nodeOrder edgeOrder tolerance fuel solver result).2.converged = true →
        (((fun s => (s.step nodeOrder edgeOrder).1)^[k] solver).step
          nodeOrder edgeOrder).2.maxDefectNanos ≤ max tolerance 999) := by
  induction fuel generalizing solver result with
  | zero => exact Or.inl ⟨rfl, rfl⟩
  | succ fuel ih =>
    refine Or.inr ?_
    rw [solveLoop]
    dsimp only
    by_cases within : (solver.step nodeOrder edgeOrder).2.maxDefectNanos ≤ tolerance
    · rw [if_pos within]
      exact ⟨0, Nat.succ_pos fuel, rfl, fun _ => le_max_of_le_left within⟩
    · rw [if_neg within]
      rcases ih (solver.step nodeOrder edgeOrder).1 (solver.step nodeOrder edgeOrder).2 with
        ⟨last, ended⟩ | ⟨k, small, left, defects⟩
      · -- The iterations have run out: the verdict is the step's own.
        rw [ended]
        refine ⟨0, Nat.succ_pos fuel, rfl, fun micro => le_max_of_le_right ?_⟩
        have below : (solver.step nodeOrder edgeOrder).2.maxDefectNanos < 1000 := by
          simpa [step] using micro
        exact Nat.le_of_lt_succ below
      · exact ⟨k + 1, Nat.succ_lt_succ small, left, defects⟩

/-- **What a converged solve has measured.** It leaves the frames of one more step from frames whose
measured edges, between known nodes, were all within the tolerance or within `999 ns`. -/
theorem solve_converged (typed : solver.WellTyped) (maxIterations tolerance : ℕ)
    (converged : (solver.solve nodeOrder edgeOrder maxIterations tolerance).2.converged = true) :
    ∃ k < maxIterations,
      (solver.solve nodeOrder edgeOrder maxIterations tolerance).1 =
        (((fun s => (s.step nodeOrder edgeOrder).1)^[k] solver).step nodeOrder edgeOrder).1 ∧
      ((fun s => (s.step nodeOrder edgeOrder).1)^[k] solver).lut = solver.lut ∧
      ((fun s => (s.step nodeOrder edgeOrder).1)^[k] solver).DefectsWithin (max tolerance 999) := by
  unfold solve at converged ⊢
  rcases solveLoop_outcome nodeOrder edgeOrder tolerance maxIterations solver
    ⟨0, maxU64, maxU64, false⟩ with ⟨_, ended⟩ | ⟨k, small, left, defects⟩
  · rw [ended] at converged
    cases converged
  · obtain ⟨stillTyped, sameLut⟩ := iterate_step nodeOrder edgeOrder typed k
    refine ⟨k, small, left, sameLut, ?_⟩
    intro a b frame frame' twist ordered knownA knownB measured
    refine (step_defects nodeOrder edgeOrder stillTyped a b frame frame' twist ordered knownA
      knownB measured).trans ?_
    exact_mod_cast defects converged

end Solve

/-! ### A solve that leaves more than its tolerance -/

theorem toI64_intCast {z : ℤ} (fits : IsI64 z) : F64.toI64 (z : ℝ) = z := by
  show max (-2 ^ 63) (min (if (0 : ℝ) ≤ z then ⌊(z : ℝ)⌋ else ⌈(z : ℝ)⌉) (2 ^ 63 - 1)) = z
  rw [Int.floor_intCast, Int.ceil_intCast, ite_self]
  unfold IsI64 maxI64 at fits
  omega

theorem weight_of_hundred (error : ℤ) : Reading.weight ℝ ⟨error, 100⟩ = 1 := by
  norm_num [Reading.weight]

/-- A reading of full quality adds its error. -/
theorem term_of_hundred {error : ℤ} (fits : IsI64 error) :
    Reading.term ℝ ⟨error, 100⟩ = error := by
  rw [Reading.term, weight_of_hundred, mul_one]
  exact toI64_intCast fits

/-- Two clocks seeded at zero, measured half a microsecond apart. -/
noncomputable def halfMicrosecond : HolonomySolver ℝ :=
  ((new.addNode (.replicate 1) (.new 0 0 100)).addNode (.replicate 2) (.new 0 0 100)).addMeasurement
    (.replicate 1) (.replicate 2) ⟨0, 500, 0, 100, 0⟩

/-- The defects it reads are `500 ns`, less than the microsecond that `step` asks for. -/
theorem halfMicrosecond_result :
    (halfMicrosecond.step .asListed .asListed).2 = ⟨1, 500, 500, true⟩ :=
  halfMicrosecond.step_result.trans rfl

/-- A node that reads one error moves by three tenths of it. -/
theorem halfMicrosecond_moved (id : NodeId) (tenth : ℤ) (fits : IsI64 (10 * tenth))
    (known : halfMicrosecond.nodes[id]? = some (.new 0 0 100))
    (reads : halfMicrosecond.readings .asListed id (.new 0 0 100) = [⟨10 * tenth, 100⟩]) :
    (halfMicrosecond.step .asListed .asListed).1.nodes[id]? = some (.new (3 * tenth) 0 100) := by
  have small : IsI64 (3 * tenth) := by
    unfold IsI64 maxI64 at *
    omega
  have sum : correctionSum ℝ [⟨10 * tenth, 100⟩] = 10 * tenth := by
    rw [correctionSum, List.foldl_cons, List.foldl_nil, term_of_hundred fits, saturatingAddI64,
      zero_add, saturateI64_of_isI64 fits]
  have weight : weightSum ℝ [⟨10 * tenth, 100⟩] = 1 := by
    rw [weightSum, List.foldl_cons, List.foldl_nil, weight_of_hundred, zero_add]
  have share : F64.ofInt (10 * tenth) / 1 * halfMicrosecond.damping = ((3 * tenth : ℤ) : ℝ) := by
    rw [show halfMicrosecond.damping = F64.lit 0.3 from rfl, F64.lit_real, F64.ofInt_real]
    push_cast
    ring
  have corrected : halfMicrosecond.correction [⟨10 * tenth, 100⟩] = some (3 * tenth) := by
    rw [correction, sum, weight, share, toI64_intCast small, F64.lt_real,
      if_pos (decide_eq_true one_pos)]
  have moves : halfMicrosecond.moved .asListed id (.new 0 0 100) = .new (3 * tenth) 0 100 := by
    have read : halfMicrosecond.readings .asListed id (.new 0 0 100) ≠ [] :=
      reads ▸ List.cons_ne_nil _ _
    rw [moved, halfMicrosecond.nodeCorrection_of_readings id _ read, reads, corrected]
    dsimp only
    rw [ChiralFrame.new, saturatingAddI64, zero_add, saturateI64_of_isI64 small]
    rfl
  rw [step_nodes, known, Option.map_some, moves]

/-- **Converged at `500 ns` with tolerance zero**, and `200 ns` are left. -/
theorem solve_converged_beyond_tolerance :
    ¬ ∀ (solver : HolonomySolver ℝ) (maxIterations tolerance : ℕ),
      (solver.solve .asListed .asListed maxIterations tolerance).2.converged = true →
      ∀ (a b : NodeId) (frame frame' : ChiralFrame) (twist : TwistIndex), a < b →
        (solver.solve .asListed .asListed maxIterations tolerance).1.nodes[a]? = some frame →
        (solver.solve .asListed .asListed maxIterations tolerance).1.nodes[b]? = some frame' →
        solver.lut.latest a b = some twist →
        |frame'.offsetNanos - frame.offsetNanos - twist.offsetNanos| ≤ tolerance := by
  intro within
  have solved : halfMicrosecond.solve .asListed .asListed 1 0 =
      halfMicrosecond.step .asListed .asListed := by
    have defects : ¬ (halfMicrosecond.step .asListed .asListed).2.maxDefectNanos ≤ 0 := by
      rw [halfMicrosecond_result]
      decide
    exact if_neg defects
  have ordered : NodeId.replicate 1 < NodeId.replicate 2 := by decide
  have left := within halfMicrosecond 1 0 (by rw [solved, halfMicrosecond_result])
    (.replicate 1) (.replicate 2) (.new (-150) 0 100) (.new 150 0 100) ⟨0, 500, 0, 100, 0⟩ ordered
  rw [solved] at left
  have behind := halfMicrosecond_moved (.replicate 1) (-50) (by decide) rfl rfl
  have ahead := halfMicrosecond_moved (.replicate 2) 50 (by decide) rfl rfl
  have impossible := left behind ahead rfl
  norm_num [ChiralFrame.new] at impossible

/-- The same solve read through the theorem. -/
theorem solve_converged_halfMicrosecond :
    ∃ k < 1, (halfMicrosecond.solve .asListed .asListed 1 0).1 =
        (((fun s => (s.step .asListed .asListed).1)^[k] halfMicrosecond).step
          .asListed .asListed).1 ∧
      ((fun s => (s.step .asListed .asListed).1)^[k] halfMicrosecond).lut = halfMicrosecond.lut ∧
      ((fun s => (s.step .asListed .asListed).1)^[k] halfMicrosecond).DefectsWithin
        (max 0 999) := by
  have single : Maps.Entries (fun _ (frame : ChiralFrame) => IsI64 frame.offsetNanos)
      ((∅ : Std.ExtTreeMap NodeId ChiralFrame).insert (.replicate 1) (.new 0 0 100)) :=
    .insert (fun _ _ _ none => by simp at none) (by decide)
  have frames : Maps.Entries (fun _ (frame : ChiralFrame) => IsI64 frame.offsetNanos)
      halfMicrosecond.nodes :=
    .insert (fun id frame _ found => single id frame found) (by decide)
  refine solve_converged ⟨frames, fun a b twist found => ?_⟩ 1 0 ?_
  · rw [show halfMicrosecond.lut = TwistLUT.new.insert (.replicate 1) (.replicate 2)
      ⟨0, 500, 0, 100, 0⟩ from rfl, TwistLUT.latest_insert, TwistLUT.latest_new,
      if_pos (by decide : NodeId.replicate 1 ≤ NodeId.replicate 2)] at found
    split_ifs at found
    rw [← Option.some.inj found]
    decide
  · simp [solve, solveLoop, halfMicrosecond_result]

end Rtfsn.HolonomySolver
