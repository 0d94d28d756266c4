/-
What a frame solves, in exact reals.

* `spans`: the edges inside the component connect its members, and every standard deviation has a
  positive floor, so each least-squares problem of a frame has one solution.
* `solve_balanced`, `solve_eq`: its normal equations hold, and any other solution is the result,
  measured from the reference.
* `residuals_eq`: the residuals, edge by edge.
-/
import Rtfsn.Sync.FundamentalCycles

namespace Rtfsn

open LeastSquares

variable {n : ℕ}

theorem EdgeEstimate.usable_iff (e : EdgeEstimate ℝ) :
    e.usable = true ↔ e.fromNode ≠ e.toNode ∧ -1 < e.relation.drift := by
  simp [EdgeEstimate.usable]

/-- An edge taken when its clock read zero, with one nanosecond of spread. -/
def sampleEdge (fromNode toNode : NodeId) (offsetNs drift : ℝ) : EdgeEstimate ℝ where
  fromNode := fromNode
  toNode := toNode
  relation := { atNs := 0, offsetNs, drift, sigmaOffsetNs := 1, sigmaDrift := 0 }
  rttFloorNs := 0
  samples := 1

/-- The ends of a usable edge are joined. -/
theorem joined_sampleEdge {fromNode toNode : NodeId} (distinct : fromNode ≠ toNode) (offsetNs : ℝ)
    {drift : ℝ} (forward : -1 < drift) :
    Connected [sampleEdge fromNode toNode offsetNs drift] fromNode toNode :=
  .of_usable (List.mem_singleton_self (sampleEdge fromNode toNode offsetNs drift))
    ((EdgeEstimate.usable_iff _).mpr ⟨distinct, forward⟩)

namespace Network

variable {net : Network ℝ n}

/-- Readings that keep the ends of the edges they read. -/
structure Reads (f : Placed ℝ n → Obs ℝ n) : Prop where
  a : ∀ p, (f p).a = p.a
  b : ∀ p, (f p).b = p.b
  positive : ∀ p, 0 < (f p).sigma

theorem reads_driftOb : Reads (Placed.driftOb (F := ℝ) (n := n)) where
  a _ := rfl
  b _ := rfl
  positive p := lt_max_of_lt_right (by norm_num [minSigmaDrift])

theorem reads_offsetOb (net : Network ℝ n) (offset : Fin n → ℝ) : Reads (net.offsetOb offset) where
  a _ := rfl
  b _ := rfl
  positive p := lt_max_of_lt_right (by norm_num [minSigmaNs])

/-- **The edges inside connect the members.** -/
theorem spans {f : Placed ℝ n → Obs ℝ n} (reads : Reads f) :
    Spans ((net.inside.map f).map Obs.measurement) net.members := by
  refine Spans.of_reachable (r := net.r) (fun o listed => ?_) fun i member => ?_
  · rw [List.map_map] at listed
    obtain ⟨p, inside, rfl⟩ := List.mem_map.mp listed
    simp only [Function.comp, Obs.measurement, reads.a, reads.b]
    exact inside_ends inside
  · have path := mem_members.mp member
    clear member
    induction path with
    | refl => exact Relation.ReflTransGen.refl
    | tail reached adjacent ih =>
      refine ih.tail ?_
      obtain ⟨p, inside, ends⟩ := measured_of_adjacent (mem_members.mpr reached) adjacent
      refine ⟨(f p).measurement, ?_, ?_⟩
      · rw [List.map_map]
        exact List.mem_map.mpr ⟨p, inside, rfl⟩
      · simpa only [Measurement.Joins, Obs.measurement, reads.a, reads.b] using ends

theorem positive {f : Placed ℝ n → Obs ℝ n} (reads : Reads f) : Positive (net.inside.map f) := by
  intro o listed
  obtain ⟨p, _, rfl⟩ := List.mem_map.mp listed
  exact reads.positive p

/-- The values solved from readings of the edges inside. -/
noncomputable def solve (net : Network ℝ n) (f : Placed ℝ n → Obs ℝ n) : Fin n → ℝ :=
  (laplacianSolve net.r net.members (net.inside.map f)).1

/-- The normal equations of readings of the edges inside. -/
def Fits (net : Network ℝ n) (f : Placed ℝ n → Obs ℝ n) (x : Fin n → ℝ) : Prop :=
  Balanced ((net.inside.map f).map Obs.measurement) x

theorem solve_fits {f : Placed ℝ n → Obs ℝ n} (reads : Reads f) : net.Fits f (net.solve f) :=
  (laplacianSolve_balanced (positive reads) (spans reads) fun _ => root_mem).1

theorem solve_root {f : Placed ℝ n → Obs ℝ n} (reads : Reads f) : net.solve f net.r = 0 :=
  (laplacianSolve_balanced (positive reads) (spans reads) fun _ => root_mem).2 _
    fun both => both.2 rfl

/-- **Any values that fit are the result**, measured from the reference. -/
theorem solve_eq {f : Placed ℝ n → Obs ℝ n} (reads : Reads f) {x : Fin n → ℝ} (fits : net.Fits f x)
    {i : Fin n} (member : i ∈ net.members) : net.solve f i = x i - x net.r :=
  laplacianSolve_eq (positive reads) (spans reads) root_mem fits member

/-- Fitting reads the misfits only. -/
theorem Fits.congr {f g : Placed ℝ n → Obs ℝ n} {x y : Fin n → ℝ} (fits : net.Fits f x)
    (readsF : Reads f) (readsG : Reads g)
    (same : ∀ p ∈ net.inside, (f p).sigma = (g p).sigma ∧
      x p.b - x p.a - (f p).m = y p.b - y p.a - (g p).m) : net.Fits g y := by
  unfold Fits at fits ⊢
  rw [List.map_map] at fits ⊢
  refine fits.map_congr fun p inside => ?_
  obtain ⟨sigma, misfit⟩ := same p inside
  simp only [Function.comp, Obs.measurement, Measurement.misfit, readsF.a, readsF.b, readsG.a,
    readsG.b, sigma, misfit, true_and]

theorem reading_offset (net : Network ℝ n) :
    net.reading.offset = net.solve (net.offsetOb net.settling) := rfl

/-- **The residuals, edge by edge.** -/
theorem residuals_eq {F : Type} [F64 F] (net : Network F n) : net.residuals =
    net.inside.map fun p => net.residual p (net.offsetOb net.settling p) p.driftOb := by
  have rezip : ∀ l : List (Placed F n),
      (l.zip (l.map fun p => (net.offsetOb net.settling p, p.driftOb))).map
        (fun (p, oo, od) => net.residual p oo od) =
      l.map fun p => net.residual p (net.offsetOb net.settling p) p.driftOb := by
    intro l
    induction l with
    | nil => rfl
    | cons p l ih => simp only [List.map_cons, List.zip_cons_cons, ih]
  rw [residuals, zip_obs, rezip]

end Network

namespace Solves

variable {solver reference : NodeId} {atNs : ℕ} {ids : List NodeId}

/-- The frame of a member. -/
theorem node_eq {F : Type} [F64 F] {edges : List (EdgeEstimate F)} {net : Network F ids.length}
    {frame : NetworkFrame F} (solves : Solves solver reference atNs edges ids net frame)
    {v : Fin ids.length} (member : v ∈ net.members) :
    frame.node (ids.get v) = some (net.nodeFrame ids.get v) := by
  have listed := Network.mem_order.mpr member
  rw [NetworkFrame.node, solves.nodes_eq, List.find?_map]
  have found : net.component.order.find? ((fun node => decide (node.id = ids.get v)) ∘
      net.nodeFrame ids.get) = some v := by
    cases first : net.component.order.find? ((fun node => decide (node.id = ids.get v)) ∘
        net.nodeFrame ids.get) with
    | none =>
      have none := List.find?_eq_none.mp first v listed
      exact absurd (decide_eq_true rfl) none
    | some w =>
      have matched := List.find?_some first
      have same : ids.get w = ids.get v := of_decide_eq_true matched
      rw [solves.places.injective same]
  rw [found]
  rfl

end Solves

end Rtfsn
