/-
**The solver on a star**: one node in the middle, measured against each of the others.

* `Star`: the network. It has a potential, so that what is read of an edge is a difference of
  errors.
* `correction_near`: a node goes three tenths of the way to the mean of its neighbours, up to what
  the casts cut off.
* `Star.turn`: so a step is a turn of a star that relaxes.
* `Star.solve_settles`: a solve of 500 iterations converges, and the middle ends half-way between
  where it was and the mean of the others.
-/
import Rtfsn.Holonomy.MaximumPrinciple
import Rtfsn.Lib.Star

namespace Rtfsn.HolonomySolver

/-! ### The network -/

/-- Edges between `own` and each of the leaves, and no others, all of quality 90. -/
structure Star (solver : HolonomySolver ℝ) (own : NodeId) (leaves : Finset NodeId)
    (x : NodeId → ℤ) : Prop where
  damping : solver.damping = F64.lit 0.3
  hub : (solver.nodes[own]?).isSome
  leaf : ∀ p ∈ leaves, (solver.nodes[p]?).isSome
  other : own ∉ leaves
  edges : ∀ key, key ∈ solver.lut.entries ↔ ∃ p ∈ leaves, key = toLex (TwistLUT.edgeKey own p)
  measured : ∀ p ∈ leaves, ∃ twist, solver.lut.latest own p = some twist ∧ twist.quality = 90
  consistent : solver.Consistent x
  small : solver.SmallClocks x

/-- How far a node is from its place. -/
def errorOf (solver : HolonomySolver ℝ) (x : NodeId → ℤ) (id : NodeId) : ℤ :=
  ((solver.nodes[id]?).map fun frame => frame.offsetNanos - x id).getD 0

section Network

variable {solver : HolonomySolver ℝ} {own : NodeId} {leaves : Finset NodeId} {x : NodeId → ℤ}
  {nodeOrder : HashOrder NodeId} {edgeOrder : HashOrder (NodeId ×ₗ NodeId)}

theorem errorOf_of_known {id : NodeId} {frame : ChiralFrame}
    (known : solver.nodes[id]? = some frame) :
    solver.errorOf x id = frame.offsetNanos - x id := by
  rw [errorOf, known]
  rfl

/-- The other end of an edge at `own`. -/
theorem otherEnd_edgeKey {own p : NodeId} (other : p ≠ own) (a b : NodeId) :
    (if (TwistLUT.edgeKey own p).1 = a then some (TwistLUT.edgeKey own p).2
      else if (TwistLUT.edgeKey own p).2 = a then some (TwistLUT.edgeKey own p).1 else none) =
        some b ↔ a = own ∧ b = p ∨ a = p ∧ b = own := by
  by_cases ordered : own ≤ p
  · rw [TwistLUT.edgeKey_of_le ordered]
    by_cases first : own = a
    · subst first
      simp [other.symm, eq_comm]
    · by_cases second : p = a
      · subst second
        simp [other.symm, eq_comm]
      · simp [first, second, eq_comm]
  · rw [TwistLUT.edgeKey_of_not_le ordered]
    by_cases first : p = a
    · subst first
      simp [other, eq_comm]
    · by_cases second : own = a
      · subst second
        simp [other, eq_comm, other.symm]
      · simp [first, second, eq_comm]

theorem Star.ne (star : solver.Star own leaves x) {p : NodeId} (leaf : p ∈ leaves) : p ≠ own :=
  fun same => star.other (same ▸ leaf)

/-- **Who is next to whom.** -/
theorem Star.mem_neighbors (star : solver.Star own leaves x) {a b : NodeId} :
    b ∈ solver.lut.neighbors edgeOrder a ↔ a = own ∧ b ∈ leaves ∨ b = own ∧ a ∈ leaves := by
  unfold TwistLUT.neighbors
  simp only [List.mem_filterMap, edgeOrder.mem, Std.ExtTreeMap.mem_keys, star.edges]
  constructor
  · rintro ⟨_, ⟨p, leaf, rfl⟩, found⟩
    rcases (otherEnd_edgeKey (star.ne leaf) a b).mp found with ⟨rfl, rfl⟩ | ⟨rfl, rfl⟩
    · exact .inl ⟨rfl, leaf⟩
    · exact .inr ⟨rfl, leaf⟩
  · rintro (⟨rfl, leaf⟩ | ⟨rfl, leaf⟩)
    · exact ⟨_, ⟨b, leaf, rfl⟩, (otherEnd_edgeKey (star.ne leaf) a b).mpr (.inl ⟨rfl, rfl⟩)⟩
    · exact ⟨_, ⟨a, leaf, rfl⟩, (otherEnd_edgeKey (star.ne leaf) a b).mpr (.inr ⟨rfl, rfl⟩)⟩

theorem Star.nodup_neighbors (star : solver.Star own leaves x) (a : NodeId) :
    (solver.lut.neighbors edgeOrder a).Nodup := by
  unfold TwistLUT.neighbors
  rw [List.Nodup, List.pairwise_filterMap]
  have keys : (edgeOrder.arrange solver.lut.entries.keys).Nodup :=
    (edgeOrder.perm _).nodup_iff.mpr Std.ExtTreeMap.nodup_keys
  refine keys.imp_of_mem fun {key key'} listed listed' different b found b' found' same => ?_
  subst same
  rw [edgeOrder.mem, Std.ExtTreeMap.mem_keys, star.edges] at listed listed'
  obtain ⟨p, leaf, rfl⟩ := listed
  obtain ⟨p', leaf', rfl⟩ := listed'
  have ends := (otherEnd_edgeKey (star.ne leaf) a b).mp found
  have ends' := (otherEnd_edgeKey (star.ne leaf') a b).mp found'
  refine different ?_
  rcases ends with ⟨rfl, rfl⟩ | ⟨rfl, rfl⟩ <;> rcases ends' with ⟨first, second⟩ | ⟨first, second⟩
  · rw [second]
  · exact absurd first.symm (star.ne leaf')
  · exact absurd first (star.ne leaf)
  · rw [first]

variable (edgeOrder) in
theorem Star.neighbors_hub (star : solver.Star own leaves x) :
    (solver.lut.neighbors edgeOrder own).Perm leaves.toList := by
  refine (List.perm_ext_iff_of_nodup (star.nodup_neighbors own) leaves.nodup_toList).mpr fun p => ?_
  rw [star.mem_neighbors, Finset.mem_toList]
  exact ⟨fun near => near.elim And.right fun far => absurd far.2 star.other, fun leaf =>
    .inl ⟨rfl, leaf⟩⟩

theorem Star.neighbors_leaf (star : solver.Star own leaves x) {p : NodeId} (leaf : p ∈ leaves) :
    solver.lut.neighbors edgeOrder p = [own] := by
  refine List.perm_singleton.mp ((List.perm_ext_iff_of_nodup (star.nodup_neighbors p)
    (List.nodup_singleton own)).mpr fun b => ?_)
  rw [star.mem_neighbors, List.mem_singleton]
  exact ⟨fun near => near.elim (fun far => absurd far.1 (star.ne leaf)) And.left, fun same =>
    .inr ⟨same, leaf⟩⟩

theorem Star.neighbors_other (star : solver.Star own leaves x) {id : NodeId} (notHub : id ≠ own)
    (notLeaf : id ∉ leaves) : solver.lut.neighbors edgeOrder id = [] := by
  refine List.eq_nil_iff_forall_not_mem.mpr fun b near => ?_
  rcases star.mem_neighbors.mp near with ⟨hub, _⟩ | ⟨_, leaf⟩
  · exact notHub hub
  · exact notLeaf leaf

/-! ### What is read -/

variable {bound : ℕ}

/-- **What a node reads along an edge** is the difference of the errors. -/
theorem Star.read (star : solver.Star own leaves x) (within : solver.ErrorsWithin x (-bound) bound)
    (small : bound ≤ 2 ^ 60) {a b : NodeId}
    (joined : a = own ∧ b ∈ leaves ∨ b = own ∧ a ∈ leaves) {frame : ChiralFrame}
    (known : solver.nodes[a]? = some frame) :
    solver.read a frame b = some ⟨solver.errorOf x b - solver.errorOf x a, 90⟩ := by
  obtain ⟨twist, measured, quality⟩ : ∃ twist, solver.lut.latest a b = some twist ∧
      twist.quality = 90 := by
    rcases joined with ⟨rfl, leaf⟩ | ⟨rfl, leaf⟩
    · exact star.measured b leaf
    · obtain ⟨twist, measured, quality⟩ := star.measured a leaf
      exact ⟨twist, solver.lut.latest_comm _ a ▸ measured, quality⟩
  obtain ⟨frame', known'⟩ : ∃ frame', solver.nodes[b]? = some frame' := by
    rcases joined with ⟨_, leaf⟩ | ⟨rfl, _⟩
    · exact Option.isSome_iff_exists.mp (star.leaf b leaf)
    · exact Option.isSome_iff_exists.mp star.hub
  have bounded : (bound : ℤ) ≤ 2 ^ 60 := by exact_mod_cast small
  have error := edgeError_consistent star.consistent star.small within (by linarith) (by linarith)
    known known' measured
  rw [HolonomySolver.read, measured, Option.bind_some, known', Option.map_some, error, quality,
    errorOf_of_known known, errorOf_of_known known']

variable (edgeOrder) in
theorem Star.readings_hub (star : solver.Star own leaves x)
    (within : solver.ErrorsWithin x (-bound) bound) (small : bound ≤ 2 ^ 60) {frame : ChiralFrame}
    (known : solver.nodes[own]? = some frame) :
    (solver.readings edgeOrder own frame).Perm
      (leaves.toList.map fun p => ⟨solver.errorOf x p - solver.errorOf x own, 90⟩) := by
  refine ((star.neighbors_hub edgeOrder).filterMap _).trans ?_
  rw [List.filterMap_eq_map_iff_forall_eq_some.mpr fun p listed =>
    star.read within small (.inl ⟨rfl, Finset.mem_toList.mp listed⟩) known]

variable (edgeOrder) in
theorem Star.readings_leaf (star : solver.Star own leaves x)
    (within : solver.ErrorsWithin x (-bound) bound) (small : bound ≤ 2 ^ 60) {p : NodeId}
    (leaf : p ∈ leaves) {frame : ChiralFrame} (known : solver.nodes[p]? = some frame) :
    solver.readings edgeOrder p frame = [⟨solver.errorOf x own - solver.errorOf x p, 90⟩] := by
  rw [readings, star.neighbors_leaf leaf, List.filterMap_cons, star.read within small
    (.inr ⟨rfl, leaf⟩) known]
  rfl

/-- Every reading is along an edge of the star. -/
theorem Star.of_readings (star : solver.Star own leaves x)
    (within : solver.ErrorsWithin x (-bound) bound) (small : bound ≤ 2 ^ 60) {id : NodeId}
    {frame : ChiralFrame} (known : solver.nodes[id]? = some frame) {reading : Reading}
    (listed : reading ∈ solver.readings edgeOrder id frame) :
    ∃ p ∈ leaves, |reading.error| = |solver.errorOf x p - solver.errorOf x own| := by
  obtain ⟨b, near, read⟩ := List.mem_filterMap.mp listed
  have joined := star.mem_neighbors.mp near
  rw [star.read within small joined known, Option.some.injEq] at read
  subst read
  rcases joined with ⟨rfl, leaf⟩ | ⟨rfl, leaf⟩
  · exact ⟨b, leaf, rfl⟩
  · exact ⟨id, leaf, abs_sub_comm _ _⟩

/-- **No defect is larger** than the distance of a leaf from the middle. -/
theorem Star.maxDefect_le (star : solver.Star own leaves x)
    (within : solver.ErrorsWithin x (-bound) bound) (small : bound ≤ 2 ^ 60) {distance : ℕ}
    (near : ∀ p ∈ leaves, |solver.errorOf x p - solver.errorOf x own| ≤ distance) :
    (solver.step nodeOrder edgeOrder).2.maxDefectNanos ≤ distance := by
  have each : ∀ defect ∈ solver.stepDefects nodeOrder edgeOrder, defect ≤ distance := by
    intro defect listed
    obtain ⟨id, _, listed⟩ := List.mem_flatMap.mp listed
    unfold nodeDefects at listed
    cases known : solver.nodes[id]? with
    | none => simp [known] at listed
    | some frame =>
      simp only [known] at listed
      obtain ⟨reading, read, rfl⟩ := List.mem_map.mp listed
      obtain ⟨p, leaf, error⟩ := star.of_readings within small known read
      have far := near p leaf
      rw [← error, Int.abs_eq_natAbs] at far
      exact_mod_cast far
  rw [step_result]
  dsimp only
  cases largest : (solver.stepDefects nodeOrder edgeOrder).max? with
  | none => exact Nat.zero_le _
  | some defect => exact each defect (List.max?_mem largest)

/-- A leaf is no farther from the middle than the largest defect. -/
theorem Star.near_of_maxDefect (star : solver.Star own leaves x)
    (within : solver.ErrorsWithin x (-bound) bound) (small : bound ≤ 2 ^ 60) {distance : ℕ}
    (least : (solver.step nodeOrder edgeOrder).2.maxDefectNanos ≤ distance) :
    ∀ p ∈ leaves, |solver.errorOf x p - solver.errorOf x own| ≤ distance := by
  intro p leaf
  obtain ⟨frame, known⟩ := Option.isSome_iff_exists.mp star.hub
  obtain ⟨frame', known'⟩ := Option.isSome_iff_exists.mp (star.leaf p leaf)
  obtain ⟨twist, measured, _⟩ := star.measured p leaf
  have bounded : (bound : ℤ) ≤ 2 ^ 60 := by exact_mod_cast small
  have read := (edgeError_le_maxDefect nodeOrder edgeOrder measured known known').trans least
  rw [edgeError_consistent star.consistent star.small within (by linarith) (by linarith) known
    known' measured, ← errorOf_of_known known, ← errorOf_of_known known'] at read
  rw [Int.abs_eq_natAbs]
  exact_mod_cast read

end Network

/-! ### The correction of a node -/

section Correction

/-- The cast cuts off less than one. -/
theorem abs_toI64_sub_le {y : ℝ} (small : |y| ≤ (maxI64 : ℤ)) : |(F64.toI64 y : ℝ) - y| ≤ 1 := by
  obtain ⟨least, most⟩ := abs_le.mp small
  have floor := Int.floor_le y
  have floor' := Int.lt_floor_add_one y
  have ceil := Int.le_ceil y
  have ceil' := Int.ceil_lt_add_one y
  have clamped : F64.toI64 y = if 0 ≤ y then ⌊y⌋ else ⌈y⌉ := by
    have upper : ⌊y⌋ ≤ maxI64 := by exact_mod_cast floor.trans most
    have lower : -maxI64 ≤ ⌈y⌉ := by exact_mod_cast least.trans ceil
    have order := Int.floor_le_ceil y
    have width := Int.ceil_le_floor_add_one y
    show max (-2 ^ 63) (min _ (2 ^ 63 - 1)) = _
    unfold maxI64 at upper lower
    split_ifs with pos
    · have nonneg := Int.floor_nonneg.mpr pos
      omega
    · have nonpos : ⌈y⌉ ≤ 0 := Int.ceil_le.mpr (by exact_mod_cast (not_le.mp pos).le)
      omega
  rw [clamped, abs_le]
  split_ifs <;> constructor <;> linarith

variable {readings : List Reading}

theorem weight_of_ninety {reading : Reading} (quality : reading.quality = 90) :
    reading.weight ℝ = 9 / 10 := by
  rw [Reading.weight, quality, F64.ofNat_real, F64.lit_real]
  norm_num

theorem weightSum_of_ninety (quality : ∀ reading ∈ readings, reading.quality = 90) :
    weightSum ℝ readings = 9 / 10 * readings.length := by
  induction readings using List.reverseRecOn with
  | nil => simp [weightSum]
  | append_singleton readings reading ih =>
    obtain ⟨first, last⟩ := List.forall_mem_append.mp quality
    have before := ih first
    unfold weightSum at *
    rw [List.foldl_append, List.foldl_cons, List.foldl_nil, before,
      weight_of_ninety (last reading (List.mem_singleton.mpr rfl)), List.length_append,
      List.length_singleton]
    push_cast
    ring

/-- A term is nine tenths of the error, up to one, and no larger than it. -/
theorem term_of_ninety {reading : Reading} (quality : reading.quality = 90)
    (fits : |reading.error| ≤ maxI64) :
    |(reading.term ℝ : ℝ) - 9 / 10 * reading.error| ≤ 1 ∧ |reading.term ℝ| ≤ |reading.error| := by
  have small : |(reading.error : ℝ)| ≤ (maxI64 : ℤ) := by exact_mod_cast fits
  have share : reading.term ℝ = F64.toI64 (9 / 10 * reading.error : ℝ) := by
    rw [Reading.term, weight_of_ninety quality, F64.ofInt_real, mul_comm]
  constructor
  · rw [share]
    refine abs_toI64_sub_le ?_
    rw [abs_mul, abs_of_pos (by norm_num : (0 : ℝ) < 9 / 10)]
    linarith [abs_nonneg (reading.error : ℝ)]
  · have toward : TowardZero (reading.error : ℝ) (reading.term ℝ : ℤ) := by
      rw [share, mul_comm]
      exact (TowardZero.mul_right _ (by norm_num) (by norm_num)).trans (towardZero_toI64 _)
    have bounds := toward.bounds (neg_nonpos.mpr (abs_nonneg _)) (abs_nonneg _)
      ⟨neg_abs_le _, le_abs_self _⟩
    rw [← abs_le] at bounds
    exact_mod_cast bounds

/-- **The sum of the terms** does not saturate where the errors are small. -/
theorem correctionSum_of_ninety (quality : ∀ reading ∈ readings, reading.quality = 90)
    (fits : (readings.map fun reading => |reading.error|).sum ≤ maxI64) :
    |(correctionSum ℝ readings : ℝ) - 9 / 10 * (readings.map fun reading => reading.error).sum| ≤
        readings.length ∧
      |correctionSum ℝ readings| ≤ (readings.map fun reading => |reading.error|).sum := by
  induction readings using List.reverseRecOn with
  | nil => simp [correctionSum]
  | append_singleton readings reading ih =>
    obtain ⟨first, last⟩ := List.forall_mem_append.mp quality
    simp only [List.map_append, List.sum_append, List.map_cons, List.map_nil, List.sum_cons,
      List.sum_nil, add_zero, List.length_append, List.length_singleton] at fits ⊢
    have nonneg : 0 ≤ (readings.map fun reading => |reading.error|).sum :=
      List.sum_nonneg fun _ listed => by
        obtain ⟨_, _, rfl⟩ := List.mem_map.mp listed
        exact abs_nonneg _
    have own : 0 ≤ |reading.error| := abs_nonneg _
    obtain ⟨near, less⟩ := ih first (by linarith)
    obtain ⟨nearLast, lessLast⟩ :=
      term_of_ninety (last reading (List.mem_singleton.mpr rfl)) (by linarith)
    have total := abs_add_le (correctionSum ℝ readings) (reading.term ℝ)
    have sum : correctionSum ℝ (readings ++ [reading]) =
        correctionSum ℝ readings + reading.term ℝ := by
      have bounds := abs_le.mp ((total.trans (add_le_add less lessLast)).trans fits)
      rw [correctionSum, List.foldl_append]
      refine saturateI64_of_isI64 (z := correctionSum ℝ readings + reading.term ℝ) ⟨?_, bounds.2⟩
      have lower := bounds.1
      unfold maxI64 at lower
      linarith
    rw [sum]
    refine ⟨?_, total.trans (add_le_add less lessLast)⟩
    rw [Int.cast_add, Int.cast_add, Nat.cast_add, Nat.cast_one]
    have split : ((correctionSum ℝ readings : ℝ) + reading.term ℝ) -
        9 / 10 * ((readings.map fun reading => reading.error).sum + reading.error) =
        ((correctionSum ℝ readings : ℝ) -
          9 / 10 * (readings.map fun reading => reading.error).sum) +
            (reading.term ℝ - 9 / 10 * reading.error) := by
      ring
    rw [split]
    exact (abs_add_le _ _).trans (add_le_add near nearLast)

/-- **A node goes three tenths of the way** to the mean of what it reads. -/
theorem correction_near {solver : HolonomySolver ℝ} (damping : solver.damping = F64.lit 0.3)
    (some : readings ≠ []) (quality : ∀ reading ∈ readings, reading.quality = 90)
    (fits : (readings.map fun reading => |reading.error|).sum ≤ maxI64) :
    ∃ correction, solver.correction readings = .some correction ∧ |(correction : ℝ) - 3 / 10 *
      ((readings.map fun reading => reading.error).sum / readings.length : ℝ)| ≤ 4 / 3 := by
  have positive : (0 : ℝ) < readings.length := by exact_mod_cast List.length_pos_iff.mpr some
  have one : (1 : ℝ) ≤ readings.length := by exact_mod_cast List.length_pos_iff.mpr some
  obtain ⟨near, less⟩ := correctionSum_of_ninety quality fits
  have share : (F64.ofInt (correctionSum ℝ readings) / weightSum ℝ readings * solver.damping : ℝ) =
      correctionSum ℝ readings / (3 * readings.length) := by
    rw [damping, F64.lit_real, F64.ofInt_real, weightSum_of_ninety quality]
    norm_num
    field_simp
    ring
  have small : |(correctionSum ℝ readings / (3 * readings.length) : ℝ)| ≤ (maxI64 : ℤ) := by
    have bounded : |(correctionSum ℝ readings : ℝ)| ≤ (maxI64 : ℤ) := by
      exact_mod_cast less.trans fits
    rw [abs_div, abs_of_pos (by positivity : (0 : ℝ) < 3 * readings.length),
      div_le_iff₀ (by positivity)]
    nlinarith [abs_nonneg (correctionSum ℝ readings : ℝ)]
  have cut := abs_toI64_sub_le small
  refine ⟨F64.toI64 (correctionSum ℝ readings / (3 * readings.length) : ℝ), ?_, ?_⟩
  · rw [HolonomySolver.correction, share, F64.lt_real, if_pos]
    rw [weightSum_of_ninety quality]
    exact decide_eq_true (by positivity)
  · have mean : |(correctionSum ℝ readings / (3 * readings.length) : ℝ) - 3 / 10 *
        ((readings.map fun reading => reading.error).sum / readings.length : ℝ)| ≤ 1 / 3 := by
      have split : (correctionSum ℝ readings / (3 * readings.length) : ℝ) -
          3 / 10 * ((readings.map fun reading => reading.error).sum / readings.length : ℝ) =
          (correctionSum ℝ readings - 9 / 10 * (readings.map fun reading => reading.error).sum) /
            (3 * readings.length) := by
        field_simp
        ring
      rw [split, abs_div, abs_of_pos (by positivity : (0 : ℝ) < 3 * readings.length),
        div_le_iff₀ (by positivity)]
      linarith
    calc _ ≤ |(F64.toI64 (correctionSum ℝ readings / (3 * readings.length) : ℝ) : ℝ) -
          correctionSum ℝ readings / (3 * readings.length)| + _ := abs_sub_le _ _ _
      _ ≤ 1 + 1 / 3 := add_le_add cut mean
      _ = 4 / 3 := by norm_num

end Correction

/-! ### One step -/

section Step

variable {solver : HolonomySolver ℝ} {own : NodeId} {leaves : Finset NodeId} {x : NodeId → ℤ}
  {nodeOrder : HashOrder NodeId} {edgeOrder : HashOrder (NodeId ×ₗ NodeId)} {bound : ℕ}

variable (nodeOrder) in
/-- **A node that reads something** goes three tenths of the way. -/
theorem Star.errorOf_step (star : solver.Star own leaves x)
    (within : solver.ErrorsWithin x (-bound) bound) (small : bound ≤ 2 ^ 60) {id : NodeId}
    {frame : ChiralFrame} (known : solver.nodes[id]? = some frame)
    (some : solver.readings edgeOrder id frame ≠ [])
    (fits : ((solver.readings edgeOrder id frame).map fun reading => |reading.error|).sum ≤
      maxI64) :
    |(((solver.step nodeOrder edgeOrder).1.errorOf x id : ℤ) : ℝ) - (solver.errorOf x id +
      3 / 10 * (((solver.readings edgeOrder id frame).map fun reading => reading.error).sum /
        (solver.readings edgeOrder id frame).length : ℝ))| ≤ 4 / 3 := by
  have bounded : (bound : ℤ) ≤ 2 ^ 60 := by exact_mod_cast small
  have quality : ∀ reading ∈ solver.readings edgeOrder id frame, reading.quality = 90 := by
    intro reading listed
    obtain ⟨b, near, read⟩ := List.mem_filterMap.mp listed
    rw [star.read within small (star.mem_neighbors.mp near) known, Option.some.injEq] at read
    rw [← read]
  obtain ⟨correction, corrected, near⟩ := correction_near star.damping some quality fits
  have inside : ∀ reading ∈ solver.readings edgeOrder id frame,
      -bound - (frame.offsetNanos - x id) ≤ reading.error ∧
        reading.error ≤ bound - (frame.offsetNanos - x id) :=
    readings_within star.consistent star.small within (by linarith) (by linarith) known
  have own := within id frame known
  have clock := abs_lt.mp (star.small id frame known)
  have between := correction_within star.damping (by linarith) (by linarith) inside corrected
  have moves : solver.moved edgeOrder id frame =
      { frame with offsetNanos := frame.offsetNanos + correction } := by
    rw [moved, solver.nodeCorrection_of_readings id frame some, corrected]
    dsimp only [saturatingAddI64]
    rw [saturateI64_of_isI64 ⟨by linarith, by unfold maxI64; linarith⟩]
  have after : (solver.step nodeOrder edgeOrder).1.errorOf x id =
      solver.errorOf x id + correction := by
    have found : (solver.step nodeOrder edgeOrder).1.nodes[id]? = _ := step_nodes solver id
    rw [known, Option.map_some, moves] at found
    rw [errorOf_of_known found, errorOf_of_known known]
    dsimp only
    ring
  rw [after, Int.cast_add, add_sub_add_left_eq_sub]
  exact near

/-- **A step is a turn** of the star. -/
theorem Star.turn (star : solver.Star own leaves x) (someLeaf : leaves.Nonempty)
    (within : solver.ErrorsWithin x (-bound) bound) (small : bound ≤ 2 ^ 60)
    (few : leaves.card * (2 * bound) < 2 ^ 63) :
    Star.Turn leaves (3 / 10) (4 / 3) (solver.errorOf x own)
      ((solver.step nodeOrder edgeOrder).1.errorOf x own) (fun p => solver.errorOf x p)
      (fun p => (solver.step nodeOrder edgeOrder).1.errorOf x p) := by
  obtain ⟨frame, known⟩ := Option.isSome_iff_exists.mp star.hub
  have each : ∀ p ∈ leaves, |solver.errorOf x p - solver.errorOf x own| ≤ 2 * bound := by
    intro p leaf
    obtain ⟨frame', known'⟩ := Option.isSome_iff_exists.mp (star.leaf p leaf)
    have hub := within own frame known
    have far := within p frame' known'
    rw [errorOf_of_known known, errorOf_of_known known', abs_le]
    constructor <;> linarith
  have fitsI64 : (leaves.card : ℤ) * (2 * bound) ≤ maxI64 := by
    have all : ((leaves.card * (2 * bound) : ℕ) : ℤ) < 2 ^ 63 := by exact_mod_cast few
    push_cast at all
    unfold maxI64
    linarith
  constructor
  · -- The middle reads all leaves.
    have reads := star.readings_hub edgeOrder within small known
    have errors : ((solver.readings edgeOrder own frame).map fun reading => reading.error).sum =
        ∑ p ∈ leaves, (solver.errorOf x p - solver.errorOf x own) := by
      rw [(reads.map _).sum_eq, List.map_map]
      exact Finset.sum_map_toList leaves fun p => solver.errorOf x p - solver.errorOf x own
    have sizes : ((solver.readings edgeOrder own frame).map fun reading => |reading.error|).sum =
        ∑ p ∈ leaves, |solver.errorOf x p - solver.errorOf x own| := by
      rw [(reads.map _).sum_eq, List.map_map]
      exact Finset.sum_map_toList leaves fun p => |solver.errorOf x p - solver.errorOf x own|
    have count : (solver.readings edgeOrder own frame).length = leaves.card := by
      rw [reads.length_eq, List.length_map, Finset.length_toList]
    have positive : (0 : ℝ) < leaves.card := by exact_mod_cast someLeaf.card_pos
    have goes := star.errorOf_step nodeOrder within small known
      (fun none => someLeaf.card_pos.ne (by rw [← count, none, List.length_nil])) (by
        rw [sizes]
        refine (Finset.sum_le_card_nsmul _ _ _ each).trans ?_
        rw [nsmul_eq_mul]
        exact_mod_cast fitsI64)
    rw [errors, count] at goes
    have mean : ((∑ p ∈ leaves, (solver.errorOf x p - solver.errorOf x own) : ℤ) : ℝ) /
        leaves.card = Star.mean leaves (fun p => (solver.errorOf x p : ℝ)) -
          solver.errorOf x own := by
      unfold Star.mean
      push_cast
      rw [Finset.sum_sub_distrib, Finset.sum_const, nsmul_eq_mul]
      field_simp
    rw [mean] at goes
    exact goes
  · -- A leaf reads the middle.
    intro p leaf
    obtain ⟨frame', known'⟩ := Option.isSome_iff_exists.mp (star.leaf p leaf)
    have reads := star.readings_leaf edgeOrder within small leaf known'
    have one : (1 : ℤ) ≤ leaves.card := by exact_mod_cast someLeaf.card_pos
    have goes := star.errorOf_step nodeOrder within small known'
      (reads ▸ List.cons_ne_nil _ _) (by
        rw [reads, List.map_singleton, List.sum_singleton, abs_sub_comm]
        nlinarith [each p leaf])
    rw [reads, List.map_singleton, List.sum_singleton, List.length_singleton, Nat.cast_one, div_one,
      Int.cast_sub] at goes
    exact goes

variable (nodeOrder edgeOrder) in
/-- **A step leaves a star.** -/
theorem Star.step (star : solver.Star own leaves x)
    (within : solver.ErrorsWithin x (-bound) bound) (small : bound ≤ 2 ^ 60) :
    (solver.step nodeOrder edgeOrder).1.Star own leaves x ∧
      (solver.step nodeOrder edgeOrder).1.ErrorsWithin x (-bound) bound := by
  have bounded : (bound : ℤ) ≤ 2 ^ 60 := by exact_mod_cast small
  obtain ⟨withinNext, smallNext⟩ :
      (solver.step nodeOrder edgeOrder).1.ErrorsWithin x (-bound) bound ∧
        (solver.step nodeOrder edgeOrder).1.SmallClocks x :=
    within.step star.damping star.consistent star.small (by linarith) (by linarith)
  have kept (id : NodeId) (known : (solver.nodes[id]?).isSome) :
      ((solver.step nodeOrder edgeOrder).1.nodes[id]?).isSome := by
    rw [step_nodes, Option.isSome_map]
    exact known
  exact ⟨{ star with
    hub := kept own star.hub
    leaf := fun p leaf => kept p (star.leaf p leaf)
    small := smallNext }, withinNext⟩

end Step

/-! ### A solve -/

section Solve

variable {F : Type} [F64 F] {nodeOrder : HashOrder NodeId}
  {edgeOrder : HashOrder (NodeId ×ₗ NodeId)}

variable (nodeOrder edgeOrder) in
/-- The solver after `k` steps. -/
def after (solver : HolonomySolver F) (k : ℕ) : HolonomySolver F :=
  (fun s => (s.step nodeOrder edgeOrder).1)^[k] solver

theorem after_zero (solver : HolonomySolver F) : solver.after nodeOrder edgeOrder 0 = solver := rfl

theorem after_succ (solver : HolonomySolver F) (k : ℕ) :
    solver.after nodeOrder edgeOrder (k + 1) =
      ((solver.after nodeOrder edgeOrder k).step nodeOrder edgeOrder).1 :=
  Function.iterate_succ_apply' _ k solver

/-- **The loop stops** no later than the first step whose defects are within the tolerance. -/
theorem solveLoop_stops {tolerance fuel k : ℕ} (enough : k < fuel) {solver : HolonomySolver F}
    (stops : ((solver.after nodeOrder edgeOrder k).step nodeOrder edgeOrder).2.maxDefectNanos ≤
      tolerance) (result : SolveResult) :
    ∃ j ≤ k, (solveLoop nodeOrder edgeOrder tolerance fuel solver result).1 =
        ((solver.after nodeOrder edgeOrder j).step nodeOrder edgeOrder).1 ∧
      ((solver.after nodeOrder edgeOrder j).step nodeOrder edgeOrder).2.maxDefectNanos ≤ tolerance ∧
      (solveLoop nodeOrder edgeOrder tolerance fuel solver result).2.converged = true := by
  induction fuel generalizing k solver result with
  | zero => exact absurd enough (Nat.not_lt_zero k)
  | succ fuel ih =>
    rw [solveLoop]
    dsimp only
    by_cases within : (solver.step nodeOrder edgeOrder).2.maxDefectNanos ≤ tolerance
    · rw [if_pos within]
      exact ⟨0, Nat.zero_le k, rfl, within, rfl⟩
    · rw [if_neg within]
      cases k with
      | zero => exact absurd stops within
      | succ k =>
        obtain ⟨j, before, left, defects, converged⟩ := ih (Nat.lt_of_succ_lt_succ enough)
          (show ((after nodeOrder edgeOrder (solver.step nodeOrder edgeOrder).1 k).step nodeOrder
            edgeOrder).2.maxDefectNanos ≤ tolerance from stops) (solver.step nodeOrder edgeOrder).2
        exact ⟨j + 1, Nat.succ_le_succ before, left, defects, converged⟩

variable {solver : HolonomySolver ℝ} {own : NodeId} {leaves : Finset NodeId} {x : NodeId → ℤ}
  {bound : ℕ}

variable (nodeOrder edgeOrder) in
theorem Star.after (star : solver.Star own leaves x)
    (within : solver.ErrorsWithin x (-bound) bound) (small : bound ≤ 2 ^ 60) (k : ℕ) :
    (solver.after nodeOrder edgeOrder k).Star own leaves x ∧
      (solver.after nodeOrder edgeOrder k).ErrorsWithin x (-bound) bound := by
  induction k with
  | zero => exact ⟨star, within⟩
  | succ k ih =>
    rw [after_succ]
    exact ih.1.step nodeOrder edgeOrder ih.2 small

variable (nodeOrder edgeOrder) in
/-- What the errors of a star do over the steps. -/
theorem Star.turns (star : solver.Star own leaves x) (someLeaf : leaves.Nonempty)
    (within : solver.ErrorsWithin x (-bound) bound) (small : bound ≤ 2 ^ 60)
    (few : leaves.card * (2 * bound) < 2 ^ 63) (k : ℕ) :
    Star.Turn leaves (3 / 10) (4 / 3) ((solver.after nodeOrder edgeOrder k).errorOf x own)
      ((solver.after nodeOrder edgeOrder (k + 1)).errorOf x own)
      (fun p => (solver.after nodeOrder edgeOrder k).errorOf x p)
      (fun p => (solver.after nodeOrder edgeOrder (k + 1)).errorOf x p) := by
  obtain ⟨starAt, withinAt⟩ := star.after nodeOrder edgeOrder within small k
  rw [after_succ]
  exact starAt.turn someLeaf withinAt small few

/-- A leaf and the mean of the leaves, from the bounds. -/
theorem Star.abs_errorOf_le (star : solver.Star own leaves x)
    (within : solver.ErrorsWithin x (-bound) bound) {id : NodeId}
    (listed : id = own ∨ id ∈ leaves) : |(solver.errorOf x id : ℝ)| ≤ bound := by
  obtain ⟨frame, known⟩ : ∃ frame, solver.nodes[id]? = some frame := by
    rcases listed with rfl | leaf
    · exact Option.isSome_iff_exists.mp star.hub
    · exact Option.isSome_iff_exists.mp (star.leaf id leaf)
  have bounds := within id frame known
  rw [← errorOf_of_known known, ← abs_le] at bounds
  exact_mod_cast bounds

/-- **After 102 steps no leaf is a microsecond away.** -/
theorem Star.near_after (star : solver.Star own leaves x)
    (within : solver.ErrorsWithin x (-bound) bound) (small : bound ≤ 2 ^ 60)
    (few : leaves.card * (2 * bound) < 2 ^ 63) {p : NodeId} (leaf : p ∈ leaves) :
    |(solver.after nodeOrder edgeOrder 102).errorOf x p -
      (solver.after nodeOrder edgeOrder 102).errorOf x own| ≤ 1000 := by
  have near := Star.turns_near (n := 102) (by norm_num) (by norm_num) (by norm_num)
    (fun k _ => star.turns nodeOrder edgeOrder ⟨p, leaf⟩ within small few k) leaf
  have bounded : (bound : ℝ) ≤ 2 ^ 60 := by exact_mod_cast small
  have far := star.abs_errorOf_le within (.inr leaf)
  have hub := star.abs_errorOf_le within (.inl rfl)
  have mean : |Star.mean leaves (fun p => (solver.errorOf x p : ℝ))| ≤ bound := by
    have each : ∀ q ∈ leaves, |(solver.errorOf x q : ℝ) - 0| ≤ bound := fun q listed => by
      rw [sub_zero]
      exact star.abs_errorOf_le within (.inr listed)
    have zero := Star.abs_mean_sub_le ⟨p, leaf⟩ each
    rwa [Star.mean_const ⟨p, leaf⟩, sub_zero] at zero
  have begun : |(solver.errorOf x p : ℝ) - Star.mean leaves (fun p => (solver.errorOf x p : ℝ))| +
      |Star.mean leaves (fun p => (solver.errorOf x p : ℝ)) - solver.errorOf x own| ≤ 2 ^ 62 := by
    have first := abs_sub (solver.errorOf x p : ℝ)
      (Star.mean leaves (fun p => (solver.errorOf x p : ℝ)))
    have second := abs_sub (Star.mean leaves (fun p => (solver.errorOf x p : ℝ)))
      (solver.errorOf x own : ℝ)
    linarith
  have shrunk : (1 - 3 / 10 : ℝ) ^ 102 * (|(solver.errorOf x p : ℝ) -
      Star.mean leaves (fun p => (solver.errorOf x p : ℝ))| +
        |Star.mean leaves (fun p => (solver.errorOf x p : ℝ)) - solver.errorOf x own|) ≤ 800 :=
    (mul_le_mul_of_nonneg_left begun (by positivity)).trans (by norm_num)
  have close := near.trans (add_le_add_left shrunk _)
  have tail : (800 : ℝ) + 3 * (4 / 3) / (3 / 10) ≤ 1000 := by norm_num
  exact_mod_cast close.trans tail

variable (nodeOrder edgeOrder) in
/-- **A solve settles.** It converges, and leaves the middle half-way between where it was and the
mean of the leaves, up to `339 ns`. -/
theorem Star.solve_settles (star : solver.Star own leaves x) (someLeaf : leaves.Nonempty)
    (within : solver.ErrorsWithin x (-bound) bound) (small : bound ≤ 2 ^ 60)
    (few : leaves.card * (2 * bound) < 2 ^ 63) :
    (solver.solve nodeOrder edgeOrder 500 1000).2.converged = true ∧
      (solver.solve nodeOrder edgeOrder 500 1000).1.Star own leaves x ∧
      (solver.solve nodeOrder edgeOrder 500 1000).1.ErrorsWithin x (-bound) bound ∧
      |2 * ((solver.solve nodeOrder edgeOrder 500 1000).1.errorOf x own : ℝ) -
        (solver.errorOf x own + Star.mean leaves fun p => (solver.errorOf x p : ℝ))| ≤ 678 := by
  obtain ⟨star102, within102⟩ := star.after nodeOrder edgeOrder within small 102
  obtain ⟨j, soon, left, defects, converged⟩ := solveLoop_stops (by norm_num : 102 < 500)
    (star102.maxDefect_le within102 small fun p leaf => star.near_after within small few leaf)
    ⟨0, maxU64, maxU64, false⟩
  obtain ⟨starAt, withinAt⟩ := star.after nodeOrder edgeOrder within small j
  have turns := star.turns nodeOrder edgeOrder someLeaf within small few
  rw [← after_succ] at left
  have ends : (solver.solve nodeOrder edgeOrder 500 1000).1 =
      solver.after nodeOrder edgeOrder (j + 1) := left
  obtain ⟨starEnd, withinEnd⟩ := star.after nodeOrder edgeOrder within small (j + 1)
  rw [ends]
  refine ⟨converged, starEnd, withinEnd, ?_⟩
  -- The sum of the middle and the mean has hardly changed, and the two are close.
  have total := Star.turns_total (n := j + 1) someLeaf fun k _ => turns k
  rw [after_zero] at total
  have count : ((j + 1 : ℕ) : ℝ) * (2 * (4 / 3)) ≤ 275 := by
    have steps : ((j + 1 : ℕ) : ℝ) ≤ 103 := by exact_mod_cast Nat.succ_le_succ soon
    linarith
  have gap := (turns j).gap someLeaf
  have close : |Star.mean leaves (fun p =>
      ((solver.after nodeOrder edgeOrder j).errorOf x p : ℝ)) -
        (solver.after nodeOrder edgeOrder j).errorOf x own| ≤ 1000 := by
    have each : ∀ p ∈ leaves, |((solver.after nodeOrder edgeOrder j).errorOf x p : ℝ) -
        (solver.after nodeOrder edgeOrder j).errorOf x own| ≤ 1000 := fun p leaf => by
      exact_mod_cast starAt.near_of_maxDefect withinAt small defects p leaf
    have near := Star.abs_mean_sub_le someLeaf each
    rwa [Star.mean_const someLeaf] at near
  rw [abs_le] at total gap close ⊢
  constructor <;> linarith

end Solve

end Rtfsn.HolonomySolver
