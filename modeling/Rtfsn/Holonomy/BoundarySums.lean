/-
**The estimates of a boundary are added up.**

An estimate is a time since 1970 in nanoseconds, near `2 ^ 61`: a handful of them make a sum that
does not fit.

* `estimates`: what the nodes say of the boundary, forward and backward, in integers.
* `Fits`: the sums on the way. `solveBoundary_between_iff`: with overflow checks a boundary is
  solved, to a time between the estimates, where they fit, and only there.
* `solveBoundary_six`: six nodes that agree. A build with overflow checks stops, and a release build
  finds a time before 1970.

A node is its offset and its drift.
-/
import Rtfsn.Holonomy.MirrorConvergence

namespace Rtfsn.EpochBoundarySolver

/-- `epoch_duration_nanos as i64`. -/
def dt (solver : EpochBoundarySolver) : ℤ := wrapI64 solver.epochDurationNanos

/-- The boundary that is to be solved, by the clock of the last one. -/
def boundary (solver : EpochBoundarySolver) (prev : ℕ) : ℤ := wrapI64 prev + solver.dt

def backwardEstimate (solver : EpochBoundarySolver) (prev : ℕ) (node : ℤ × ℤ) : ℤ :=
  solver.boundary prev + node.1

def forwardEstimate (solver : EpochBoundarySolver) (prev : ℕ) (node : ℤ × ℤ) : ℤ :=
  solver.backwardEstimate prev node + (node.2 * solver.dt).tdiv 1000000000

/-- All estimates of the nodes. -/
def estimates (solver : EpochBoundarySolver) (prev : ℕ) (nodes : List (ℤ × ℤ)) : List ℤ :=
  nodes.map (solver.forwardEstimate prev) ++ nodes.map (solver.backwardEstimate prev)

/-- What has to fit besides the estimates. -/
structure Fits (solver : EpochBoundarySolver) (prev : ℕ) (nodes : List (ℤ × ℤ)) : Prop where
  boundary : nodes ≠ [] → IsI64 (solver.boundary prev)
  drifts : ∀ node ∈ nodes, IsI64 (node.2 * solver.dt)
  forward : Overflow.panics.SumFits (nodes.map (solver.forwardEstimate prev))
  backward : Overflow.panics.SumFits (nodes.map (solver.backwardEstimate prev))
  /-- Of two nodes on, the sum of the means fits where the sums do. -/
  single : ∀ node, nodes = [node] →
    IsI64 (solver.forwardEstimate prev node + solver.backwardEstimate prev node)

section

variable {F : Type} [F64 F] {solver : EpochBoundarySolver} {prev : ℕ} {nodes : List (ℤ × ℤ)}

theorem backward_panics (node : ℤ × ℤ) (r : ℤ) :
    backward .panics solver.dt (wrapI64 prev) node.1 = some r ↔
      (IsI64 (solver.boundary prev) ∧ IsI64 (solver.backwardEstimate prev node)) ∧
        solver.backwardEstimate prev node = r := by
  rw [backward, Overflow.bind_eq_some fun s => Overflow.i64_panics_iff, Overflow.i64_panics_iff,
    and_assoc]
  rfl

theorem forward_panics (node : ℤ × ℤ) (r : ℤ) :
    forward .panics solver.dt (wrapI64 prev) node = some r ↔
      ((IsI64 (solver.boundary prev) ∧ IsI64 (solver.backwardEstimate prev node)) ∧
        IsI64 (node.2 * solver.dt) ∧ IsI64 (solver.forwardEstimate prev node)) ∧
        solver.forwardEstimate prev node = r := by
  rw [forward, Overflow.bind_eq_some fun s => Overflow.i64_panics_iff,
    Overflow.bind_eq_some fun s => Overflow.i64_panics_iff,
    Overflow.bind_eq_some fun s => Overflow.i64_panics_iff, Overflow.i64_panics_iff]
  simp only [and_assoc]
  rfl

/-- **What solving a boundary comes to**: the estimates of every node, and their fixed point. -/
theorem solveBoundary_panics {mirror : TemporalMirror} {solver' : EpochBoundarySolver} :
    solveBoundary F .panics solver (nodes.map Prod.fst) (nodes.map Prod.snd) prev =
        some (mirror, solver') ↔
      (∀ node ∈ nodes, (IsI64 (solver.boundary prev) ∧ IsI64 (solver.backwardEstimate prev node)) ∧
        IsI64 (node.2 * solver.dt) ∧ IsI64 (solver.forwardEstimate prev node)) ∧
      TemporalMirror.findFixedPoint F .panics (nodes.map (solver.forwardEstimate prev))
        (nodes.map (solver.backwardEstimate prev)) 50 = some mirror ∧
      solver' = { solver with mirrors := solver.mirrors ++ [mirror] } := by
  have paired : (nodes.map Prod.fst).zip (nodes.map Prod.snd) = nodes := by
    rw [List.zip_map']
    exact List.map_id nodes
  have mapped : (nodes.map Prod.fst).mapM (backward .panics solver.dt (wrapI64 prev)) =
      nodes.mapM fun node => backward .panics solver.dt (wrapI64 prev) node.1 := List.mapM_map
  have solved : solveBoundary F .panics solver (nodes.map Prod.fst) (nodes.map Prod.snd) prev =
      (nodes.mapM (forward .panics solver.dt (wrapI64 prev))).bind fun forwards =>
        (nodes.mapM fun node => backward .panics solver.dt (wrapI64 prev) node.1).bind
          fun backwards => (TemporalMirror.findFixedPoint F .panics forwards backwards 50).bind
            fun mirror => some (mirror, { solver with mirrors := solver.mirrors ++ [mirror] }) := by
    rw [← mapped, solveBoundary, paired]
    rfl
  simp only [solved, Option.bind_eq_some_iff, Option.some_inj, Prod.mk.injEq,
    Overflow.mapM_eq_some_iff fun node _ => forward_panics node,
    Overflow.mapM_eq_some_iff fun node _ => backward_panics node]
  constructor
  · rintro ⟨_, ⟨forwards, rfl⟩, _, ⟨_, rfl⟩, mirror', found, rfl, rfl⟩
    exact ⟨forwards, found, rfl⟩
  · rintro ⟨forwards, found, rfl⟩
    exact ⟨_, ⟨forwards, rfl⟩, _, ⟨fun node member => (forwards node member).1, rfl⟩, mirror, found,
      rfl, rfl⟩

theorem solveBoundary_of_found {overflow : Overflow} {offsets drifts forwards backwards : List ℤ}
    {mirror : TemporalMirror}
    (first : (offsets.zip drifts).mapM (forward overflow solver.dt (wrapI64 prev)) = some forwards)
    (second : offsets.mapM (backward overflow solver.dt (wrapI64 prev)) = some backwards)
    (found : TemporalMirror.findFixedPoint F overflow forwards backwards 50 = some mirror) :
    solveBoundary F overflow solver offsets drifts prev =
      some (mirror, { solver with mirrors := solver.mirrors ++ [mirror] }) := by
  unfold dt at first second
  simp only [solveBoundary, first, second, found, Option.bind_eq_bind, Option.bind_some,
    Option.pure_def]

/-! ### The means -/

/-- The mirrors start from the means of the estimates. -/
def means (solver : EpochBoundarySolver) (prev : ℕ) (nodes : List (ℤ × ℤ)) : Mirrors :=
  TemporalMirror.initial (nodes.map (solver.forwardEstimate prev))
    (nodes.map (solver.backwardEstimate prev))

/-- A drift moves an estimate by less than ten seconds. -/
theorem forwardEstimate_near (prev : ℕ) {node : ℤ × ℤ} (drift : IsI64 (node.2 * solver.dt)) :
    (solver.forwardEstimate prev node - solver.backwardEstimate prev node).natAbs ≤ 2 ^ 34 := by
  have magnitude : (node.2 * solver.dt).natAbs ≤ 2 ^ 63 := by
    unfold IsI64 maxI64 at drift
    omega
  rw [forwardEstimate, add_sub_cancel_left, Int.natAbs_tdiv]
  calc (node.2 * solver.dt).natAbs / Int.natAbs 1000000000
      ≤ 2 ^ 63 / Int.natAbs 1000000000 := Nat.div_le_div_right magnitude
    _ ≤ 2 ^ 34 := by norm_num

theorem gap_means_le (some : nodes ≠ []) (drifts : ∀ node ∈ nodes, IsI64 (node.2 * solver.dt)) :
    (means solver prev nodes).gap ≤ 2 ^ 53 := by
  have near := mean_near some fun node member =>
    forwardEstimate_near prev (drifts node member)
  unfold means TemporalMirror.initial Mirrors.gap
  rw [List.length_map, List.length_map]
  exact near.trans (by norm_num)

/-- What a sum that fits is divided to. -/
theorem isI64_mul_mean {xs : List ℤ} (sums : Overflow.panics.SumFits xs) {m : ℕ}
    (less : m ≤ xs.length) : IsI64 (m * xs.sum.tdiv xs.length) :=
  (towardZero_mul_tdiv xs.sum less).bounds (by norm_num) (by norm_num [maxI64]) sums.total

theorem isI64_mean {xs : List ℤ} (sums : Overflow.panics.SumFits xs) (some : xs ≠ []) :
    IsI64 (xs.sum.tdiv xs.length) := by
  have mean := isI64_mul_mean (m := 1) sums (List.length_pos_iff.mpr some)
  rwa [Nat.cast_one, one_mul] at mean

/-- Halves of numbers that fit. -/
theorem isI64_add_of_double {x y : ℤ} (first : IsI64 ((2 : ℕ) * x)) (second : IsI64 ((2 : ℕ) * y)) :
    IsI64 (x + y) := by
  unfold IsI64 maxI64 at *
  omega

/-- A single estimate is its mean. -/
theorem sum_means_singleton (node : ℤ × ℤ) :
    (means solver prev [node]).predictive + (means solver prev [node]).retrodictive =
      solver.forwardEstimate prev node + solver.backwardEstimate prev node := by
  unfold means TemporalMirror.initial
  rw [List.map_singleton, List.map_singleton, List.sum_singleton, List.sum_singleton,
    List.length_singleton, List.length_singleton, Nat.cast_one, Int.tdiv_one, Int.tdiv_one]

theorem sum_means (fits : Fits solver prev nodes) (some : nodes ≠ []) :
    IsI64 ((means solver prev nodes).predictive + (means solver prev nodes).retrodictive) := by
  rcases Nat.lt_or_ge 1 nodes.length with two | one
  · have forward := isI64_mul_mean (m := 2) fits.forward (by simpa using Nat.succ_le_of_lt two)
    have backward := isI64_mul_mean (m := 2) fits.backward (by simpa using Nat.succ_le_of_lt two)
    exact isI64_add_of_double forward backward
  · obtain ⟨node, rfl⟩ :=
      List.length_eq_one_iff.mp (le_antisymm one (List.length_pos_iff.mpr some))
    rw [sum_means_singleton]
    exact fits.single node rfl

theorem steady_means (some : nodes ≠ []) (fits : Fits solver prev nodes) :
    (means solver prev nodes).Steady (2 ^ 53) where
  predictive := isI64_mean fits.forward (by simpa using some)
  retrodictive := isI64_mean fits.backward (by simpa using some)
  sum := sum_means fits some
  apart := gap_means_le some fits.drifts

/-! ### The boundary -/

/-- A time between the smallest and the largest estimate. -/
def Between (estimates : List ℤ) (time : ℤ) : Prop :=
  ∀ lo ∈ estimates.min?, ∀ hi ∈ estimates.max?, lo ≤ time ∧ time ≤ hi

theorem means_within {lo hi : ℤ} (some : nodes ≠ [])
    (within : ∀ e ∈ solver.estimates prev nodes, lo ≤ e ∧ e ≤ hi) :
    (means solver prev nodes).Within lo hi := by
  have listed := List.forall_mem_append.mp within
  exact ⟨mean_bounds (by simpa using some) listed.1, mean_bounds (by simpa using some) listed.2⟩

theorem fits_nil (solver : EpochBoundarySolver) (prev : ℕ) : Fits solver prev [] := by
  have empty : Overflow.panics.SumFits [] := fun n => by
    rw [List.take_nil]
    decide
  exact ⟨fun none => absurd rfl none, List.forall_mem_nil _, empty, empty, fun _ none => by
    cases none⟩

/-- A boundary that was solved has added up sums that fit. -/
theorem fits_of_solveBoundary {mirror : TemporalMirror} {solver' : EpochBoundarySolver}
    (some : nodes ≠ []) (solved : solveBoundary F .panics solver (nodes.map Prod.fst)
      (nodes.map Prod.snd) prev = .some (mirror, solver')) : Fits solver prev nodes := by
  obtain ⟨each, found, -⟩ := solveBoundary_panics.mp solved
  obtain ⟨forward, backward, sum⟩ :=
    TemporalMirror.sums_of_findFixedPoint (by simpa using some) (by simpa using some) found
  refine ⟨fun _ => ?_, fun node member => (each node member).2.1, forward, backward, ?_⟩
  · obtain ⟨node, member⟩ := List.exists_mem_of_ne_nil nodes some
    exact (each node member).1.1
  · rintro node rfl
    rw [← sum_means_singleton]
    exact sum

/-- **When a boundary is solved.** Where every estimate fits, a build with overflow checks goes
through, to a time between the estimates, just where the sums on the way fit too. -/
theorem solveBoundary_between_iff (halves : F64.Halves F (2 ^ 53))
    (single : ∀ e ∈ solver.estimates prev nodes, IsI64 e) :
    (∃ mirror solver', solveBoundary F .panics solver (nodes.map Prod.fst) (nodes.map Prod.snd)
        prev = some (mirror, solver') ∧
      Between (solver.estimates prev nodes) (wrapI64 mirror.fixedPointNanos)) ↔
    Fits solver prev nodes := by
  rcases eq_or_ne nodes [] with rfl | some
  · have nothing : Between (solver.estimates prev []) 0 := fun lo none => by cases none
    exact iff_of_true ⟨_, _, solveBoundary_panics.mpr ⟨List.forall_mem_nil _, rfl, rfl⟩, nothing⟩
      (fits_nil solver prev)
  constructor
  · rintro ⟨mirror, solver', solved, -⟩
    exact fits_of_solveBoundary some solved
  · intro fits
    obtain ⟨forward, backward⟩ := List.forall_mem_append.mp single
    have steady := steady_means some fits
    obtain ⟨k, -, found, -⟩ := TemporalMirror.findFixedPoint_eq halves (by norm_num)
      (by simpa using some) (by simpa using some) fits.forward fits.backward steady 50
    refine ⟨_, _, solveBoundary_panics.mpr ⟨fun node member => ?_, found, rfl⟩, ?_⟩
    · exact ⟨⟨fits.boundary some, backward _ (List.mem_map_of_mem member)⟩,
        fits.drifts node member, forward _ (List.mem_map_of_mem member)⟩
    · intro lo least hi most
      have below := (List.min?_eq_some_iff.mp least).2
      have above := (List.max?_eq_some_iff.mp most).2
      have settled := Mirrors.within_iterate
        (means_within some fun e member => ⟨below e member, above e member⟩) k
      have middle := (steady.iterate k).sum.half
      exact (TemporalMirror.wrapI64_wrapU64 middle).symm ▸ settled.midpoint

/-- Five nodes, with an offset and a drift each. -/
def drifting : List (ℤ × ℤ) := [(100, 10), (-200, -5), (50, 3), (-80, -2), (150, 8)]

/-- Half a minute after the zero of the clocks. -/
theorem solveBoundary_between_iff_drifting :
    (∃ mirror solver', solveBoundary ℝ .panics (new 30000000000) (drifting.map Prod.fst)
        (drifting.map Prod.snd) 0 = some (mirror, solver') ∧
      Between ((new 30000000000).estimates 0 drifting) (wrapI64 mirror.fixedPointNanos)) ↔
    Fits (new 30000000000) 0 drifting :=
  solveBoundary_between_iff (F64.halves_real (by norm_num)) (by decide)

/-! ### Six nodes -/

/-- Nodes without an offset or a drift. -/
def agreeing (count : ℕ) : List (ℤ × ℤ) := List.replicate count (0, 0)

/-- The mean of six times of today, whose sum was wrapped. -/
def wrapped : Mirrors := ⟨-1274457315618258602, -1274457315618258602⟩

/-- **A handful of nodes is too many.** Six that agree on a time of today: a build with overflow
checks stops, and a release build settles before 1970. -/
theorem solveBoundary_six :
    (¬ ∀ (solver : EpochBoundarySolver) (prev : ℕ) (nodes : List (ℤ × ℤ)),
      (∀ e ∈ solver.estimates prev nodes, IsI64 e) →
      ∃ mirror solver', solveBoundary ℝ .panics solver (nodes.map Prod.fst) (nodes.map Prod.snd)
          prev = some (mirror, solver') ∧
        Between (solver.estimates prev nodes) (wrapI64 mirror.fixedPointNanos)) ∧
    ∃ mirror solver', solveBoundary ℝ .wraps (new 30000000000) ((agreeing 6).map Prod.fst)
        ((agreeing 6).map Prod.snd) 1800000000000000000 = some (mirror, solver') ∧
      wrapI64 mirror.fixedPointNanos = -1274457315618258602 := by
  constructor
  · intro all
    obtain ⟨mirror, solver', solved, -⟩ :=
      all (new 30000000000) 1800000000000000000 (agreeing 6) (by decide)
    have fits := fits_of_solveBoundary (by decide) solved
    exact absurd (fits.forward 6) (by decide)
  · have start : wrapped.Steady (2 ^ 53) := ⟨by decide, by decide, by decide, by decide⟩
    have mean : meanEstimate .wraps (List.replicate 6 1800000030000000000) =
        some wrapped.predictive := by
      decide
    obtain ⟨k, -, found, -⟩ := TemporalMirror.findFixedPoint_of_means
      (F64.halves_real (by norm_num)) (by norm_num) (by decide) (by decide) mean mean start 50
    have forwards : (((agreeing 6).map Prod.fst).zip ((agreeing 6).map Prod.snd)).mapM
        (forward .wraps (new 30000000000).dt (wrapI64 (1800000000000000000 : ℕ))) =
          some (List.replicate 6 1800000030000000000) := by
      decide
    have backwards : ((agreeing 6).map Prod.fst).mapM
        (backward .wraps (new 30000000000).dt (wrapI64 (1800000000000000000 : ℕ))) =
          some (List.replicate 6 1800000030000000000) := by
      decide
    have solved := solveBoundary_of_found forwards backwards found
    have settled := Mirrors.within_iterate (m := wrapped) ⟨⟨le_rfl, le_rfl⟩, le_rfl, le_rfl⟩ k
    have middle := (start.iterate k).sum.half
    exact ⟨_, _, solved, (TemporalMirror.wrapI64_wrapU64 middle).trans
      (le_antisymm settled.midpoint.2 settled.midpoint.1)⟩

end

end Rtfsn.EpochBoundarySolver
