/-
**A step does not push a node past its neighbours.**

Where the measurements are differences of clock values `x`, a node's error is its offset less its
`x`, and what a node reads from a neighbour is the difference of their errors. Every rounding on
the way, the saturating sum included, moves a value toward zero (`TowardZero`).

* `correctionSum_within`, `correction_within`: so the correction lies between the least and the
  greatest difference read.
* `ErrorsWithin.step`: bounds of the errors stay bounds, and no defect is larger than their
  distance.
* `steps_maximumPrinciple`: over any number of steps.
-/
import Rtfsn.Holonomy.SolverDefects
import Rtfsn.Lib.TowardZero

namespace Rtfsn.HolonomySolver

/-! ### Rounding -/

theorem towardZero_saturateI64 (z : ℤ) : TowardZero (z : ℝ) (saturateI64 z) := by
  have between : min 0 z ≤ saturateI64 z ∧ saturateI64 z ≤ max 0 z := by
    unfold saturateI64 maxI64
    omega
  unfold TowardZero
  exact_mod_cast between

theorem towardZero_toI64 (y : ℝ) : TowardZero y (F64.toI64 y : ℤ) := by
  have clamp (z : ℤ) : TowardZero (z : ℝ) (max (-2 ^ 63) (min z (2 ^ 63 - 1)) : ℤ) :=
    towardZero_saturateI64 z
  have truncate : TowardZero y ((if 0 ≤ y then ⌊y⌋ else ⌈y⌉ : ℤ) : ℝ) := by
    split_ifs with pos
    · exact .of_nonneg (by exact_mod_cast Int.floor_nonneg.mpr pos) (Int.floor_le y)
    · have neg : ⌈y⌉ ≤ 0 := Int.ceil_le.mpr (by exact_mod_cast (not_le.mp pos).le)
      exact .of_nonpos (by exact_mod_cast neg) (Int.le_ceil y)
  exact truncate.trans (clamp _)

/-! ### The correction of a node -/

section Correction

variable {readings : List Reading} {lo hi : ℤ}

theorem weight_nonneg (reading : Reading) : 0 ≤ reading.weight ℝ := by
  simp only [Reading.weight, F64.ofNat_real, F64.lit_real]
  positivity

/-- **The sum of the terms**, wherever it saturates. -/
theorem correctionSum_within (neg : lo ≤ 0) (pos : 0 ≤ hi)
    (within : ∀ reading ∈ readings, lo ≤ reading.error ∧ reading.error ≤ hi) :
    0 ≤ weightSum ℝ readings ∧ lo * weightSum ℝ readings ≤ correctionSum ℝ readings ∧
      correctionSum ℝ readings ≤ hi * weightSum ℝ readings := by
  induction readings using List.reverseRecOn with
  | nil => simp [weightSum, correctionSum]
  | append_singleton readings reading ih =>
    obtain ⟨withinInit, withinLast⟩ := List.forall_mem_append.mp within
    obtain ⟨heavy, sumWithin⟩ := ih withinInit
    obtain ⟨least, most⟩ := withinLast reading (List.mem_singleton.mpr rfl)
    have weight : weightSum ℝ (readings ++ [reading]) =
        weightSum ℝ readings + reading.weight ℝ := by simp [weightSum]
    have sum : correctionSum ℝ (readings ++ [reading]) =
        saturateI64 (correctionSum ℝ readings + reading.term ℝ) := by
      simp [correctionSum, saturatingAddI64]
    have added := towardZero_saturateI64 (correctionSum ℝ readings + reading.term ℝ)
    rw [Int.cast_add] at added
    rw [weight, sum]
    refine ⟨add_nonneg heavy (weight_nonneg reading), ?_⟩
    have read : (lo : ℝ) ≤ reading.error ∧ (reading.error : ℝ) ≤ hi :=
      ⟨by exact_mod_cast least, by exact_mod_cast most⟩
    exact TowardZero.accumulate (by exact_mod_cast neg) (by exact_mod_cast pos) read
      (weight_nonneg reading) heavy sumWithin (towardZero_toI64 _) added

/-- **The correction** is between the bounds of what was read. -/
theorem correction_within {solver : HolonomySolver ℝ} (damping : solver.damping = F64.lit 0.3)
    (neg : lo ≤ 0) (pos : 0 ≤ hi)
    (within : ∀ reading ∈ readings, lo ≤ reading.error ∧ reading.error ≤ hi) {correction : ℤ}
    (corrected : solver.correction readings = some correction) :
    lo ≤ correction ∧ correction ≤ hi := by
  unfold HolonomySolver.correction at corrected
  split_ifs at corrected with heavy
  cases corrected
  have average := TowardZero.average (by simpa using heavy) (correctionSum_within neg pos within).2
  have damped : TowardZero (correctionSum ℝ readings / weightSum ℝ readings : ℝ)
      (correctionSum ℝ readings / weightSum ℝ readings * solver.damping) := by
    rw [damping, F64.lit_real]
    exact TowardZero.mul_right _ (by norm_num) (by norm_num)
  have rounded := (damped.trans (towardZero_toI64 _)).bounds (by exact_mod_cast neg)
    (by exact_mod_cast pos) average
  exact_mod_cast rounded

end Correction

/-! ### Errors -/

section Errors

variable {solver : HolonomySolver ℝ} {x : NodeId → ℤ} {lo hi : ℤ} {nodeOrder : HashOrder NodeId}
  {edgeOrder : HashOrder (NodeId ×ₗ NodeId)}

/-- Every latest measurement is the difference of the clock values. -/
def Consistent (solver : HolonomySolver ℝ) (x : NodeId → ℤ) : Prop :=
  ∀ (a b : NodeId) (twist : TwistIndex), a ≤ b → solver.lut.latest a b = some twist →
    twist.offsetNanos = x b - x a

/-- The clock values of the nodes are small. -/
def SmallClocks (solver : HolonomySolver ℝ) (x : NodeId → ℤ) : Prop :=
  ∀ (id : NodeId) (frame : ChiralFrame), solver.nodes[id]? = some frame → |x id| < 2 ^ 60

/-- Every error lies between the bounds. -/
def ErrorsWithin (solver : HolonomySolver ℝ) (x : NodeId → ℤ) (lo hi : ℤ) : Prop :=
  ∀ (id : NodeId) (frame : ChiralFrame), solver.nodes[id]? = some frame →
    lo ≤ frame.offsetNanos - x id ∧ frame.offsetNanos - x id ≤ hi

/-- **What a node reads from a neighbour** is the difference of their errors. -/
theorem edgeError_consistent (consistent : solver.Consistent x) (small : solver.SmallClocks x)
    (within : solver.ErrorsWithin x lo hi) (least : -2 ^ 61 ≤ lo) (most : hi ≤ 2 ^ 61)
    {a b : NodeId} {frame frame' : ChiralFrame} {twist : TwistIndex}
    (known : solver.nodes[a]? = some frame) (known' : solver.nodes[b]? = some frame')
    (measured : solver.lut.latest a b = some twist) :
    edgeError a b frame frame' twist =
      (frame'.offsetNanos - x b) - (frame.offsetNanos - x a) := by
  have smallA := abs_lt.mp (small a frame known)
  have smallB := abs_lt.mp (small b frame' known')
  have withinA := within a frame known
  have withinB := within b frame' known'
  have fits {z : ℤ} (lower : -2 ^ 63 ≤ z) (upper : z ≤ 2 ^ 63 - 1) : saturateI64 z = z :=
    saturateI64_of_isI64 ⟨lower, upper⟩
  unfold edgeError saturatingAddI64 saturatingSubI64
  dsimp only
  split_ifs with larger
  · have twistEq := consistent b a twist larger.le (solver.lut.latest_comm b a ▸ measured)
    rw [fits (z := frame'.offsetNanos + twist.offsetNanos) (by omega) (by omega),
      fits (by omega) (by omega)]
    omega
  · have twistEq := consistent a b twist (not_lt.mp larger) measured
    rw [fits (z := frame'.offsetNanos - twist.offsetNanos) (by omega) (by omega),
      fits (by omega) (by omega)]
    omega

/-- Every reading of a node is the difference between a known node's error and its own. -/
theorem readings_within (consistent : solver.Consistent x) (small : solver.SmallClocks x)
    (within : solver.ErrorsWithin x lo hi) (least : -2 ^ 61 ≤ lo) (most : hi ≤ 2 ^ 61)
    {id : NodeId} {frame : ChiralFrame} (known : solver.nodes[id]? = some frame) :
    ∀ reading ∈ solver.readings edgeOrder id frame,
      lo - (frame.offsetNanos - x id) ≤ reading.error ∧
        reading.error ≤ hi - (frame.offsetNanos - x id) := by
  intro reading listed
  obtain ⟨neighbor, _, found⟩ := List.mem_filterMap.mp listed
  obtain ⟨twist, measured, found⟩ := Option.bind_eq_some_iff.mp found
  obtain ⟨frame', known', rfl⟩ := Option.map_eq_some_iff.mp found
  have error := edgeError_consistent consistent small within least most known known' measured
  have other := within neighbor frame' known'
  dsimp only
  omega

/-- **One step for one node.** -/
theorem moved_within (damping : solver.damping = F64.lit 0.3) (consistent : solver.Consistent x)
    (small : solver.SmallClocks x) (within : solver.ErrorsWithin x lo hi) (least : -2 ^ 61 ≤ lo)
    (most : hi ≤ 2 ^ 61) {id : NodeId} {frame : ChiralFrame}
    (known : solver.nodes[id]? = some frame) :
    lo ≤ (solver.moved edgeOrder id frame).offsetNanos - x id ∧
      (solver.moved edgeOrder id frame).offsetNanos - x id ≤ hi := by
  have own := within id frame known
  have smallId := abs_lt.mp (small id frame known)
  unfold moved nodeCorrection
  split_ifs with lonely
  · exact own
  · cases corrected : solver.correction (solver.readings edgeOrder id frame) with
    | none => exact own
    | some correction =>
      obtain ⟨lower, upper⟩ := correction_within damping (by omega) (by omega)
        (readings_within consistent small within least most known) corrected
      dsimp only [saturatingAddI64]
      rw [saturateI64_of_isI64 ⟨by omega, by unfold maxI64; omega⟩]
      omega

/-- No defect is larger than the distance of the bounds. -/
theorem maxDefect_within (consistent : solver.Consistent x) (small : solver.SmallClocks x)
    (within : solver.ErrorsWithin x lo hi) (least : -2 ^ 61 ≤ lo) (most : hi ≤ 2 ^ 61) :
    (solver.step nodeOrder edgeOrder).2.maxDefectNanos ≤ (hi - lo).toNat := by
  have each : ∀ defect ∈ solver.stepDefects nodeOrder edgeOrder, defect ≤ (hi - lo).toNat := by
    intro defect listed
    obtain ⟨id, _, listed⟩ := List.mem_flatMap.mp listed
    unfold nodeDefects at listed
    cases known : solver.nodes[id]? with
    | none => simp [known] at listed
    | some frame =>
      simp only [known] at listed
      obtain ⟨reading, read, rfl⟩ := List.mem_map.mp listed
      have bounds := readings_within consistent small within least most known reading read
      have own := within id frame known
      omega
  rw [step_result]
  dsimp only
  cases largest : (solver.stepDefects nodeOrder edgeOrder).max? with
  | none => exact Nat.zero_le _
  | some defect => exact each defect (List.max?_mem largest)

/-- What one step keeps. -/
theorem ErrorsWithin.step (damping : solver.damping = F64.lit 0.3)
    (consistent : solver.Consistent x) (small : solver.SmallClocks x)
    (within : solver.ErrorsWithin x lo hi) (least : -2 ^ 61 ≤ lo) (most : hi ≤ 2 ^ 61) :
    (solver.step nodeOrder edgeOrder).1.ErrorsWithin x lo hi ∧
      (solver.step nodeOrder edgeOrder).1.SmallClocks x := by
  constructor <;> intro id frame found <;> rw [step_nodes] at found <;>
    obtain ⟨before, known, rfl⟩ := Option.map_eq_some_iff.mp found
  · exact moved_within damping consistent small within least most known
  · exact small id before known

/-- A frame whose offset a step keeps is kept. -/
theorem moved_eq_self {id : NodeId} {frame : ChiralFrame}
    (same : (solver.moved edgeOrder id frame).offsetNanos = frame.offsetNanos) :
    solver.moved edgeOrder id frame = frame := by
  unfold moved at *
  cases corrected : solver.nodeCorrection edgeOrder id frame with
  | none => rfl
  | some correction =>
    simp only [corrected] at same
    dsimp only
    rw [same]

/-- Where all errors are equal nothing moves. -/
theorem step_unchanged (damping : solver.damping = F64.lit 0.3) (consistent : solver.Consistent x)
    (small : solver.SmallClocks x) (within : solver.ErrorsWithin x lo hi) (least : -2 ^ 61 ≤ lo)
    (most : hi ≤ 2 ^ 61) (tight : hi ≤ lo) :
    (solver.step nodeOrder edgeOrder).1.nodes = solver.nodes := by
  refine Std.ExtTreeMap.ext_getElem? fun id => ?_
  rw [step_nodes]
  cases known : solver.nodes[id]? with
  | none => rfl
  | some frame =>
    have own := within id frame known
    have still : lo ≤ (solver.moved edgeOrder id frame).offsetNanos - x id ∧
        (solver.moved edgeOrder id frame).offsetNanos - x id ≤ hi :=
      moved_within damping consistent small within least most known
    rw [Option.map_some, moved_eq_self (by omega)]

end Errors

/-! ### Runs -/

section Runs

variable {solver : HolonomySolver ℝ} {x : NodeId → ℤ} {lo hi : ℤ}

/-- A step for each pair of orders. -/
noncomputable def steps (solver : HolonomySolver ℝ)
    (orders : List (HashOrder NodeId × HashOrder (NodeId ×ₗ NodeId))) : HolonomySolver ℝ :=
  orders.foldl (fun solver order => (solver.step order.1 order.2).1) solver

/-- What the steps keep. -/
theorem steps_within (orders : List (HashOrder NodeId × HashOrder (NodeId ×ₗ NodeId)))
    (damping : solver.damping = F64.lit 0.3) (consistent : solver.Consistent x)
    (small : solver.SmallClocks x) (within : solver.ErrorsWithin x lo hi) (least : -2 ^ 61 ≤ lo)
    (most : hi ≤ 2 ^ 61) :
    (solver.steps orders).Consistent x ∧ (solver.steps orders).SmallClocks x ∧
      (solver.steps orders).ErrorsWithin x lo hi ∧
      (hi ≤ lo → (solver.steps orders).nodes = solver.nodes) := by
  induction orders generalizing solver with
  | nil => exact ⟨consistent, small, within, fun _ => rfl⟩
  | cons order rest ih =>
    obtain ⟨withinNext, smallNext⟩ : (solver.step order.1 order.2).1.ErrorsWithin x lo hi ∧
        (solver.step order.1 order.2).1.SmallClocks x :=
      within.step damping consistent small least most
    obtain ⟨consistentEnd, smallEnd, withinEnd, unchanged⟩ :=
      ih ((step_damping solver).trans damping) consistent smallNext withinNext
    exact ⟨consistentEnd, smallEnd, withinEnd, fun tight => (unchanged tight).trans
      (step_unchanged damping consistent small within least most tight)⟩

/-- **The discrete maximum principle.** Where the latest measurements are the differences of clock
values `x`, and all values and offsets are small, every step leaves each error between any bounds
of the initial ones, and reports no defect larger than the distance of the bounds. Frames that agree
with `x` up to a shift stay as they are. -/
theorem steps_maximumPrinciple (damping : solver.damping = F64.lit 0.3)
    (consistent : solver.Consistent x)
    (small : ∀ (id : NodeId) (frame : ChiralFrame), solver.nodes[id]? = some frame →
      |x id| < 2 ^ 60 ∧ |frame.offsetNanos| < 2 ^ 60)
    (orders : List (HashOrder NodeId × HashOrder (NodeId ×ₗ NodeId))) :
    (∀ lo hi, solver.ErrorsWithin x lo hi → (solver.steps orders).ErrorsWithin x lo hi ∧
      ∀ nodeOrder edgeOrder, ((solver.steps orders).step nodeOrder edgeOrder).2.maxDefectNanos ≤
        (hi - lo).toNat) ∧
      ∀ shift, (∀ (id : NodeId) (frame : ChiralFrame), solver.nodes[id]? = some frame →
        frame.offsetNanos = x id + shift) → (solver.steps orders).nodes = solver.nodes := by
  have smallClocks : solver.SmallClocks x := fun id frame known => (small id frame known).1
  -- Bounds farther out than the small values allow are drawn in.
  have drawn (lo hi : ℤ) (within : solver.ErrorsWithin x lo hi) :
      solver.ErrorsWithin x (max lo (-2 ^ 61)) (min hi (2 ^ 61)) := fun id frame known => by
    obtain ⟨smallId, smallFrame⟩ := small id frame known
    have bounds := within id frame known
    rw [abs_lt] at smallId smallFrame
    omega
  constructor
  · intro lo hi within
    obtain ⟨consistentEnd, smallEnd, withinEnd, _⟩ := steps_within orders damping consistent
      smallClocks (drawn lo hi within) (le_max_right _ _) (min_le_right _ _)
    refine ⟨fun id frame known => ?_, fun nodeOrder edgeOrder => ?_⟩
    · have bounds := withinEnd id frame known
      exact ⟨(le_max_left _ _).trans bounds.1, bounds.2.trans (min_le_left _ _)⟩
    · refine (maxDefect_within consistentEnd smallEnd withinEnd (le_max_right _ _)
        (min_le_right _ _)).trans ?_
      omega
  · intro shift agree
    have within : solver.ErrorsWithin x shift shift := fun id frame known => by
      have same := agree id frame known
      omega
    obtain ⟨_, _, _, unchanged⟩ := steps_within orders damping consistent smallClocks
      (drawn shift shift within) (le_max_right _ _) (min_le_right _ _)
    exact unchanged ((min_le_left _ _).trans (le_max_left _ _))

end Runs

/-! ### A line of three clocks -/

section Line

/-- The second clock is a millisecond ahead of the first, the third two ahead of the second. -/
noncomputable def line : HolonomySolver ℝ :=
  ((((new.addNode (.replicate 1) (.new 0 0 100)).addNode (.replicate 2) (.new 0 0 100)).addNode
    (.replicate 3) (.new 0 0 100)).addMeasurement (.replicate 1) (.replicate 2)
      ⟨10000000, 1000000, 0, 100, 1⟩).addMeasurement (.replicate 2) (.replicate 3)
        ⟨10000000, 2000000, 0, 100, 1⟩

/-- What the clocks of the line should read. -/
def lineClock (id : NodeId) : ℤ :=
  if id = .replicate 1 then 0 else if id = .replicate 2 then 1000000 else 3000000

theorem line_consistent : line.Consistent lineClock := by
  intro a b twist ordered measured
  have edges : line.lut = (TwistLUT.new.insert (.replicate 1) (.replicate 2)
      ⟨10000000, 1000000, 0, 100, 1⟩).insert (.replicate 2) (.replicate 3)
        ⟨10000000, 2000000, 0, 100, 1⟩ := rfl
  rw [edges, TwistLUT.latest_insert, TwistLUT.latest_insert, TwistLUT.latest_new,
    TwistLUT.edgeKey_of_le ordered, if_pos (by decide : NodeId.replicate 2 ≤ NodeId.replicate 3),
    if_pos (by decide : NodeId.replicate 1 ≤ NodeId.replicate 2)] at measured
  split_ifs at measured with second first
  · obtain ⟨rfl, rfl⟩ := Prod.ext_iff.mp second
    cases measured
    decide
  · obtain ⟨rfl, rfl⟩ := Prod.ext_iff.mp first
    cases measured
    decide

theorem line_nodes (P : NodeId → ChiralFrame → Prop) (first : P (.replicate 1) (.new 0 0 100))
    (second : P (.replicate 2) (.new 0 0 100)) (third : P (.replicate 3) (.new 0 0 100)) :
    Maps.Entries P line.nodes := by
  have none := Maps.Entries.empty P
  have one := Maps.Entries.insert (fun id frame _ found => none id frame found) first
  have two := Maps.Entries.insert (fun id frame _ found => one id frame found) second
  exact Maps.Entries.insert (fun id frame _ found => two id frame found) third

/-- The errors of the line stay within three milliseconds, whatever is iterated. -/
theorem steps_maximumPrinciple_line :
    ((line.steps [(.asListed, .asListed), (.asListed, .asListed)]).ErrorsWithin lineClock
      (-3000000) 0 ∧
    ∀ nodeOrder edgeOrder, ((line.steps [(.asListed, .asListed), (.asListed, .asListed)]).step
      nodeOrder edgeOrder).2.maxDefectNanos ≤ 3000000) :=
  (steps_maximumPrinciple rfl line_consistent
    (line_nodes _ (by decide) (by decide) (by decide)) _).1 (-3000000) 0
    (line_nodes _ (by decide) (by decide) (by decide))

end Line

end Rtfsn.HolonomySolver
