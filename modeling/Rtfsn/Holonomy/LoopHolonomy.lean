/-
**The holonomy of a loop does not depend on who measured, nor on where the loop starts.**

* `latest_insert`: what the table says of an edge after a measurement.
* `walk_outcome`: a walk that does not overflow has summed the offsets along its steps, or has met
  an edge nobody measured.
* `walk_differences`: where every offset is a difference of clock values, the total after each step
  is one too, so that nothing overflows and a closed walk ends at zero.
* `loopHolonomy_laws`: both, with what rotating and reversing a loop do. A step from a node to
  itself has no direction to reverse: its offset is read the same way both times.
-/
import Rtfsn.Holonomy.Twist
import Rtfsn.Lib.ClosedWalk

namespace Rtfsn

open ClosedWalk

namespace TwistLUT

/-! ### The table -/

theorem edgeKey_comm (a b : NodeId) : edgeKey a b = edgeKey b a := by
  unfold edgeKey
  rcases lt_trichotomy a b with less | same | more
  · rw [if_pos less, if_neg (not_lt_of_gt less)]
  · rw [same]
  · rw [if_neg (not_lt_of_gt more), if_pos more]

theorem edgeKey_fst {a b : NodeId} : (edgeKey a b).1 = a ↔ a ≤ b := by
  unfold edgeKey
  by_cases less : a < b
  · simp [less, less.le]
  · rw [if_neg less]
    exact ⟨fun same => same.ge, fun below => le_antisymm (not_lt.mp less) below⟩

theorem edgeKey_of_le {a b : NodeId} (ordered : a ≤ b) : edgeKey a b = (a, b) := by
  unfold edgeKey
  by_cases less : a < b
  · rw [if_pos less]
  · rw [if_neg less, le_antisymm ordered (not_lt.mp less)]

/-- The larger id's measurement is stored as the smaller one's. -/
theorem edgeKey_of_not_le {a b : NodeId} (ordered : ¬ a ≤ b) : edgeKey a b = (b, a) := by
  rw [edgeKey_comm, edgeKey_of_le (le_of_not_ge ordered)]

theorem latest_comm (lut : TwistLUT) (a b : NodeId) : lut.latest a b = lut.latest b a := by
  unfold latest get
  rw [edgeKey_comm]

@[simp] theorem latest_new (a b : NodeId) : new.latest a b = none := by
  simp [latest, get, new]

/-- **The latest measurement of an edge** is the last one made, from whichever end. -/
theorem latest_insert (lut : TwistLUT) (a b : NodeId) (twist : TwistIndex) (x y : NodeId) :
    (lut.insert a b twist).latest x y =
      if edgeKey x y = edgeKey a b then some (if a ≤ b then twist else twist.reversed)
      else lut.latest x y := by
  unfold insert latest get
  rw [Std.ExtTreeMap.getElem?_insert]
  by_cases same : edgeKey x y = edgeKey a b
  · rw [if_pos same, same, if_pos Std.ReflCmp.compare_self, Option.bind_some,
      List.getLast?_append_of_ne_nil _ (by simp), List.getLast?_singleton]
    by_cases ordered : a ≤ b <;> simp [edgeKey_fst, ordered]
  · rw [if_neg same, if_neg fun equal =>
      same (toLex_inj.mp (Std.LawfulEqCmp.eq_of_compare equal)).symm]

/-- The table after a sequence of measurements, each `(a, b, twist)` made by `a` of `b`. -/
def recorded (measurements : List (NodeId × NodeId × TwistIndex)) : TwistLUT :=
  measurements.foldl (fun lut m => lut.insert m.1 m.2.1 m.2.2) new

@[simp] theorem recorded_nil : recorded [] = new := rfl

theorem recorded_concat (measurements : List (NodeId × NodeId × TwistIndex))
    (m : NodeId × NodeId × TwistIndex) :
    recorded (measurements ++ [m]) = (recorded measurements).insert m.1 m.2.1 m.2.2 := by
  rw [recorded, List.foldl_append]
  rfl

/-! ### What a walk adds up -/

/-- The offset of the edge read along a step, as the walk adds it. -/
def stepOffset (lut : TwistLUT) (step : NodeId × NodeId) : ℤ :=
  match lut.latest step.1 step.2 with
  | none => 0
  | some twist => if step.1 ≤ step.2 then twist.offsetNanos else -twist.offsetNanos

theorem addStep_of_measured {lut : TwistLUT} {a b : NodeId} {twist : TwistIndex}
    (measured : lut.latest a b = some twist) (total : ℤ) :
    lut.addStep total a b = (checkedI64 (total + lut.stepOffset (a, b))).map some := by
  unfold addStep stepOffset
  simp only [measured, edgeKey_fst]
  by_cases ordered : a ≤ b
  · rw [if_pos ordered, if_pos ordered]
  · rw [if_neg ordered, if_neg ordered, sub_eq_add_neg]

/-- **A walk that does not overflow** has added every step, or found one unmeasured. -/
theorem walk_outcome {lut : TwistLUT} {total : ℤ} {walked : List (NodeId × NodeId)}
    {result : Option ℤ} (fits : lut.walk total walked = some result) :
    result = if ∀ step ∈ walked, (lut.latest step.1 step.2).isSome then
      some (total + (walked.map lut.stepOffset).sum) else none := by
  induction walked generalizing total with
  | nil =>
    rw [walk, Option.some.injEq] at fits
    simp [← fits]
  | cons step rest ih =>
    obtain ⟨a, b⟩ := step
    unfold walk at fits
    cases measured : lut.latest a b with
    | none =>
      simp only [addStep, measured, Option.some.injEq] at fits
      simp [← fits, measured]
    | some twist =>
      rw [addStep_of_measured measured] at fits
      cases next : checkedI64 (total + lut.stepOffset (a, b)) with
      | none => simp [next] at fits
      | some total' =>
        simp only [next, Option.map_some] at fits
        have added := (checkedI64_eq_some.mp next).2
        rw [ih fits, ← added, List.map_cons, List.sum_cons, add_assoc]
        exact if_congr (by simp [measured]) rfl rfl

theorem loopHolonomy_eq_walk {lut : TwistLUT} {path : List NodeId} (long : 3 ≤ path.length) :
    lut.loopHolonomy path = lut.walk 0 (steps path) := by
  have pairs : ((List.finRange path.length).map fun i =>
      (path.get i, path.get ⟨(i + 1) % path.length, Nat.mod_lt _ i.pos⟩)) = steps path := by
    refine List.ext_getElem (by simp) fun i _ _ => ?_
    rw [getElem_steps]
    simp
  unfold loopHolonomy
  rw [if_neg (by omega), pairs]

/-- **What a loop that does not overflow returns.** -/
theorem loopHolonomy_outcome {lut : TwistLUT} {path : List NodeId} {result : Option ℤ}
    (fits : lut.loopHolonomy path = some result) :
    result = if 3 ≤ path.length ∧ ∀ step ∈ steps path, (lut.latest step.1 step.2).isSome then
      some ((steps path).map lut.stepOffset).sum else none := by
  by_cases long : 3 ≤ path.length
  · rw [loopHolonomy_eq_walk long] at fits
    rw [walk_outcome fits, zero_add]
    exact if_congr (by simp [long]) rfl rfl
  · rw [loopHolonomy, if_pos (by omega), Option.some.injEq] at fits
    simp [← fits, long]

/-! ### Turning a loop round -/

/-- The offsets of the steps of a path that lead from a node to itself. -/
def selfOffsets (lut : TwistLUT) (path : List NodeId) : ℤ :=
  ((steps path).map fun step => if step.1 = step.2 then lut.stepOffset step else 0).sum

theorem selfOffsets_eq_zero (lut : TwistLUT) {path : List NodeId}
    (moving : ∀ step ∈ steps path, step.1 ≠ step.2) : lut.selfOffsets path = 0 := by
  unfold selfOffsets
  refine List.sum_eq_zero fun term inside => ?_
  obtain ⟨step, taken, rfl⟩ := List.mem_map.mp inside
  rw [if_neg (moving step taken)]

theorem stepOffset_swap (lut : TwistLUT) (step : NodeId × NodeId) :
    lut.stepOffset step.swap =
      2 * (if step.1 = step.2 then lut.stepOffset step else 0) - lut.stepOffset step := by
  obtain ⟨a, b⟩ := step
  unfold stepOffset
  simp only [Prod.fst_swap, Prod.snd_swap, lut.latest_comm b a]
  cases lut.latest a b with
  | none => simp
  | some twist =>
    rcases lt_trichotomy a b with less | same | more
    · simp [less.le, less.ne, not_le_of_gt less]
    · simp only [same, le_refl, if_true]
      ring
    · simp [more.le, more.ne', not_le_of_gt more]

theorem loopHolonomy_rotate {lut : TwistLUT} {path : List NodeId} (n : ℕ) {r r' : Option ℤ}
    (fits : lut.loopHolonomy path = some r)
    (fits' : lut.loopHolonomy (path.rotate n) = some r') : r' = r := by
  have same : ∀ step, step ∈ steps (path.rotate n) ↔ step ∈ steps path := fun step => by
    rw [steps_rotate, List.mem_rotate]
  rw [loopHolonomy_outcome fits, loopHolonomy_outcome fits', sum_steps_rotate]
  simp only [List.length_rotate, same]

theorem loopHolonomy_reverse {lut : TwistLUT} {path : List NodeId} {r r' : Option ℤ}
    (fits : lut.loopHolonomy path = some r)
    (fits' : lut.loopHolonomy path.reverse = some r') :
    r' = r.map fun total => 2 * lut.selfOffsets path - total := by
  have same : (∀ step ∈ steps path.reverse, (lut.latest step.1 step.2).isSome) ↔
      ∀ step ∈ steps path, (lut.latest step.1 step.2).isSome := by
    simp only [(steps_reverse path).mem_iff, List.mem_map, forall_exists_index, and_imp,
      forall_apply_eq_imp_iff₂, Prod.fst_swap, Prod.snd_swap, lut.latest_comm]
  have sum : ((steps path.reverse).map lut.stepOffset).sum =
      2 * lut.selfOffsets path - ((steps path).map lut.stepOffset).sum := by
    rw [sum_steps_reverse, selfOffsets, ← List.sum_map_mul_left, eq_sub_iff_add_eq,
      ← List.sum_map_add]
    refine congrArg List.sum (List.map_congr_left fun step _ => ?_)
    rw [stepOffset_swap]
    ring
  rw [loopHolonomy_outcome fits, loopHolonomy_outcome fits', sum]
  simp only [List.length_reverse, same]
  split <;> rfl

/-! ### Offsets that are differences of clock values -/

section Differences

variable {clock : NodeId → ℤ} {measurements : List (NodeId × NodeId × TwistIndex)}

/-- Every measurement found the responder's clock less the initiator's. -/
def Differences (clock : NodeId → ℤ) (measurements : List (NodeId × NodeId × TwistIndex)) : Prop :=
  ∀ m ∈ measurements, m.2.2.offsetNanos = clock m.2.1 - clock m.1

/-- Some measurement was made between the two nodes, by either. -/
def MeasuredPair (measurements : List (NodeId × NodeId × TwistIndex)) (a b : NodeId) : Prop :=
  ∃ m ∈ measurements, (m.1 = a ∧ m.2.1 = b) ∨ (m.1 = b ∧ m.2.1 = a)

/-- The stored offset runs from the smaller id to the larger one, whoever measured. -/
theorem latest_recorded (bounded : ∀ node, |clock node| < 2 ^ 62)
    (differences : Differences clock measurements) {a b : NodeId} {twist : TwistIndex}
    (found : (recorded measurements).latest a b = some twist) :
    twist.offsetNanos = clock (edgeKey a b).2 - clock (edgeKey a b).1 := by
  induction measurements using List.reverseRecOn with
  | nil => simp at found
  | append_singleton earlier m ih =>
    obtain ⟨x, y, measured⟩ := m
    have offset : measured.offsetNanos = clock y - clock x := differences (x, y, measured) (by simp)
    rw [recorded_concat, latest_insert] at found
    by_cases same : edgeKey a b = edgeKey x y
    · rw [if_pos same, Option.some.injEq] at found
      rw [same, ← found]
      by_cases ordered : x ≤ y
      · rw [if_pos ordered, edgeKey_of_le ordered, offset]
      · have near := abs_lt.mp (bounded x)
        have near' := abs_lt.mp (bounded y)
        rw [if_neg ordered, edgeKey_of_not_le ordered]
        show TwistIndex.saturatingNeg measured.offsetNanos = _
        rw [offset, TwistIndex.saturatingNeg, if_neg (by omega)]
        ring
    · rw [if_neg same] at found
      exact ih (fun m member => differences m (List.mem_append_left _ member)) found

theorem latest_isSome_of_measured {a b : NodeId} (measured : MeasuredPair measurements a b) :
    ((recorded measurements).latest a b).isSome := by
  induction measurements using List.reverseRecOn with
  | nil =>
    obtain ⟨m, member, _⟩ := measured
    cases member
  | append_singleton earlier last ih =>
    rw [recorded_concat, latest_insert]
    by_cases same : edgeKey a b = edgeKey last.1 last.2.1
    · rw [if_pos same, Option.isSome_some]
    · rw [if_neg same]
      obtain ⟨m, member, ends⟩ := measured
      rcases List.mem_append.mp member with before | now
      · exact ih ⟨m, before, ends⟩
      · rw [List.mem_singleton] at now
        refine absurd ?_ same
        rcases ends with ⟨rfl, rfl⟩ | ⟨rfl, rfl⟩
        · rw [now]
        · rw [now, edgeKey_comm]

/-- Read along a step, the offset is the difference of the clocks in that direction. -/
theorem stepOffset_recorded (bounded : ∀ node, |clock node| < 2 ^ 62)
    (differences : Differences clock measurements) {a b : NodeId}
    (measured : MeasuredPair measurements a b) :
    (recorded measurements).stepOffset (a, b) = clock b - clock a := by
  obtain ⟨twist, found⟩ := Option.isSome_iff_exists.mp (latest_isSome_of_measured measured)
  have offset := latest_recorded bounded differences found
  unfold stepOffset
  simp only [found]
  by_cases ordered : a ≤ b
  · rw [if_pos ordered, offset, edgeKey_of_le ordered]
  · rw [if_neg ordered, offset, edgeKey_of_not_le ordered]
    ring

/-- **The total is a difference of clock values after every step**, so no sum overflows. -/
theorem walk_differences (bounded : ∀ node, |clock node| < 2 ^ 62)
    (differences : Differences clock measurements) (start last : NodeId) (rest : List NodeId)
    (a : NodeId) (measured : ∀ step ∈ (a :: rest).zip (rest ++ [last]),
      MeasuredPair measurements step.1 step.2) :
    (recorded measurements).walk (clock a - clock start) ((a :: rest).zip (rest ++ [last])) =
      some (some (clock last - clock start)) := by
  have near (node : NodeId) := abs_lt.mp (bounded node)
  -- One step takes the total from the difference at `a` to the difference at `b`.
  have oneStep (a b : NodeId) (pair : MeasuredPair measurements a b) :
      (recorded measurements).addStep (clock a - clock start) a b =
        some (some (clock b - clock start)) := by
    obtain ⟨twist, found⟩ := Option.isSome_iff_exists.mp (latest_isSome_of_measured pair)
    rw [addStep_of_measured found, stepOffset_recorded bounded differences pair]
    have fits : IsI64 (clock b - clock start) := by
      have nearStart := near start
      have nearEnd := near b
      unfold IsI64 maxI64
      omega
    rw [show clock a - clock start + (clock b - clock a) = clock b - clock start by ring,
      checkedI64_eq_some.mpr ⟨fits, rfl⟩, Option.map_some]
  induction rest generalizing a with
  | nil =>
    simp only [List.nil_append, List.zip_cons_cons, List.zip_nil_left, walk,
      oneStep a last (measured (a, last) (by simp))]
  | cons b rest ih =>
    simp only [List.cons_append, List.zip_cons_cons, walk, oneStep a b (measured (a, b) (by simp))]
    exact ih b fun step taken => measured step (by simp [taken])

theorem loopHolonomy_differences (bounded : ∀ node, |clock node| < 2 ^ 62)
    (differences : Differences clock measurements) {path : List NodeId} (long : 3 ≤ path.length)
    (measured : ∀ step ∈ steps path, MeasuredPair measurements step.1 step.2) :
    (recorded measurements).loopHolonomy path = some (some 0) := by
  cases path with
  | nil => simp at long
  | cons start rest =>
    rw [steps_cons] at measured
    rw [loopHolonomy_eq_walk long, steps_cons]
    simpa using walk_differences bounded differences start start rest start measured

end Differences

/-- **Loop holonomy.** Measurements that are differences of clock values, made from either end,
add up to zero around every measured loop, without overflow. Whatever was measured, a loop started
elsewhere has the same holonomy, and a reversed loop the negated one up to the steps from a node to
itself. -/
theorem loopHolonomy_laws :
    (∀ (clock : NodeId → ℤ) (measurements : List (NodeId × NodeId × TwistIndex))
      (path : List NodeId), (∀ node, |clock node| < 2 ^ 62) → Differences clock measurements →
      3 ≤ path.length → (∀ step ∈ steps path, MeasuredPair measurements step.1 step.2) →
      (recorded measurements).loopHolonomy path = some (some 0)) ∧
    (∀ (lut : TwistLUT) (path : List NodeId) (n : ℕ) (r r' : Option ℤ),
      lut.loopHolonomy path = some r → lut.loopHolonomy (path.rotate n) = some r' → r' = r) ∧
    (∀ (lut : TwistLUT) (path : List NodeId) (r r' : Option ℤ),
      lut.loopHolonomy path = some r → lut.loopHolonomy path.reverse = some r' →
      r' = r.map fun total => 2 * lut.selfOffsets path - total) ∧
    (∀ (lut : TwistLUT) (path : List NodeId) (r r' : Option ℤ),
      (∀ step ∈ steps path, step.1 ≠ step.2) →
      lut.loopHolonomy path = some r → lut.loopHolonomy path.reverse = some r' →
      r' = r.map fun total => -total) := by
  refine ⟨fun clock measurements path bounded differences long measured =>
    loopHolonomy_differences bounded differences long measured,
    fun lut path n r r' fits fits' => loopHolonomy_rotate n fits fits',
    fun lut path r r' fits fits' => loopHolonomy_reverse fits fits',
    fun lut path r r' moving fits fits' => ?_⟩
  rw [loopHolonomy_reverse fits fits', lut.selfOffsets_eq_zero moving]
  simp

/-- A triangle measured from both ends: clocks `0`, `1 ms` and `3 ms`. -/
theorem loopHolonomy_laws_triangle :
    (recorded [(.replicate 2, .replicate 1, ⟨10000000, -1000000, 0, 100, 0⟩),
      (.replicate 2, .replicate 3, ⟨10000000, 2000000, 0, 100, 0⟩),
      (.replicate 3, .replicate 1, ⟨10000000, -3000000, 0, 100, 0⟩)]).loopHolonomy
      [.replicate 1, .replicate 2, .replicate 3] = some (some 0) := by
  refine loopHolonomy_laws.1 (fun node => if node = .replicate 1 then 0 else
    if node = .replicate 2 then 1000000 else 3000000) _ _ (fun node => ?_) ?_ (by simp) ?_
  · split
    · norm_num
    · split <;> norm_num
  · simp [Differences]
  · simp [steps_cons, MeasuredPair]

/-- A node that measured itself: both directions of the loop read the same five nanoseconds. -/
theorem loopHolonomy_reverse_self :
    ¬ ∀ (lut : TwistLUT) (path : List NodeId) (total total' : ℤ),
      lut.loopHolonomy path = some (some total) →
      lut.loopHolonomy path.reverse = some (some total') → total' = -total := by
  intro negated
  have ordered : NodeId.replicate 1 < NodeId.replicate 2 := by decide
  let lut := recorded [(.replicate 1, .replicate 1, ⟨0, 5, 0, 100, 0⟩),
    (.replicate 1, .replicate 2, ⟨0, 0, 0, 100, 0⟩)]
  have forwards :
      lut.loopHolonomy [.replicate 1, .replicate 1, .replicate 2] = some (some 5) := by
    rw [loopHolonomy_eq_walk (by simp), steps_cons]
    simp [lut, walk, addStep, recorded, latest_insert, edgeKey, ordered, ordered.le, ordered.not_gt,
      checkedI64, IsI64, maxI64]
  have backwards :
      lut.loopHolonomy [.replicate 2, .replicate 1, .replicate 1] = some (some 5) := by
    rw [loopHolonomy_eq_walk (by simp), steps_cons]
    simp [lut, walk, addStep, recorded, latest_insert, edgeKey, ordered, ordered.le, ordered.not_gt,
      checkedI64, IsI64, maxI64]
  have impossible := negated lut [.replicate 1, .replicate 1, .replicate 2] 5 5 forwards backwards
  norm_num at impossible

end TwistLUT

end Rtfsn
