/-
**What `laplacian_solve` minimises, and what its standard deviations are.**

* `connected_spans`: members that the observations connect to the held node make a connected set,
  parallel, reversed and repeated observations included.
* `system_eq_submatrix`: the summed matrix is the Laplacian without the held node, in the order of
  the unknowns.
* `laplacianSolve_optimal`: so the factorisation never fails, the values are the one minimiser with
  the held node at zero, and the squares of the standard deviations are the diagonal of the inverse.
-/
import Rtfsn.Sync.Laplacian

namespace Rtfsn

open LeastSquares Matrix

variable {n : ℕ} {fixed : Fin n} {members : Finset (Fin n)} {obs : List (Obs ℝ n)}

/-- The sum of the squared misfits, each in units of its standard deviation. -/
noncomputable def Obs.cost (obs : List (Obs ℝ n)) (x : Fin n → ℝ) : ℝ :=
  (obs.map fun o => ((x o.b - x o.a - o.m) / o.sigma) ^ 2).sum

theorem Obs.cost_eq (obs : List (Obs ℝ n)) (x : Fin n → ℝ) :
    Obs.cost obs x = LeastSquares.cost (obs.map Obs.measurement) x := by
  unfold Obs.cost LeastSquares.cost
  rw [List.map_map]
  refine congrArg List.sum (List.map_congr_left fun o _ => ?_)
  simp only [Function.comp, Obs.measurement, Measurement.misfit]
  rw [div_pow]
  ring

/-! ### The members are a connected set -/

/-- An observation joins the two nodes, in either direction. -/
def Linked (obs : List (Obs ℝ n)) (i j : Fin n) : Prop :=
  ∃ o ∈ obs, (o.a = i ∧ o.b = j) ∨ (o.a = j ∧ o.b = i)

/-- Members that are connected to the held node have it among them. -/
theorem fixed_mem (inside : ∀ o ∈ obs, o.a ∈ members ∧ o.b ∈ members)
    (connected : ∀ i ∈ members, Relation.ReflTransGen (Linked obs) fixed i)
    (nonempty : members.Nonempty) : fixed ∈ members := by
  obtain ⟨i, member⟩ := nonempty
  rcases (connected i member).cases_head with same | ⟨j, ⟨o, recorded, ends⟩, _⟩
  · exact same ▸ member
  · obtain ⟨a, b⟩ := inside o recorded
    rcases ends with ⟨same, _⟩ | ⟨_, same⟩
    · exact same ▸ a
    · exact same ▸ b

theorem connected_spans (inside : ∀ o ∈ obs, o.a ∈ members ∧ o.b ∈ members)
    (connected : ∀ i ∈ members, Relation.ReflTransGen (Linked obs) fixed i) :
    Spans (obs.map Obs.measurement) members := by
  refine Spans.of_reachable (r := fixed) (fun o member => ?_) fun i member => ?_
  · obtain ⟨o', recorded, rfl⟩ := List.mem_map.mp member
    exact inside o' recorded
  · refine Relation.ReflTransGen.mono (fun j k linked => ?_) _ _ (connected i member)
    obtain ⟨o, recorded, ends⟩ := linked
    exact ⟨o.measurement, List.mem_map_of_mem recorded, ends⟩

/-! ### The Laplacian without the held node -/

/-- The nodes that are solved for. -/
abbrev Grounded (fixed : Fin n) (members : Finset (Fin n)) : Type :=
  {i : Fin n // i ∈ members ∧ i ≠ fixed}

noncomputable def groundedLaplacian (fixed : Fin n) (members : Finset (Fin n))
    (obs : List (Obs ℝ n)) : Matrix (Grounded fixed members) (Grounded fixed members) ℝ :=
  (laplacian (obs.map Obs.measurement)).submatrix Subtype.val Subtype.val

/-- The order of the unknowns. -/
def unknownsEquiv (fixed : Fin n) (members : Finset (Fin n)) :
    Fin (unknowns fixed members).length ≃ Grounded fixed members :=
  ((nodup_unknowns fixed members).getEquiv _).trans
    (Equiv.subtypeEquivRight fun _ => mem_unknowns)

theorem foldl_absorb_mat_apply {k : ℕ} (pos : Fin n → Option (Fin k)) (obs : List (Obs ℝ n))
    (eqs : NormalEquations ℝ k) (p q : Fin k) :
    (obs.foldl (NormalEquations.absorb pos) eqs).mat p q =
      eqs.mat p q + (obs.map fun o => o.measurement.weight * o.row pos p * o.row pos q).sum := by
  induction obs generalizing eqs with
  | nil => simp
  | cons o obs ih => rw [List.foldl_cons, ih, absorb_mat, List.map_cons, List.sum_cons, add_assoc]

/-- **The summed matrix is the Laplacian without the held node.** -/
theorem system_eq_submatrix : of (system fixed members obs).mat =
    (groundedLaplacian fixed members obs).submatrix (unknownsEquiv fixed members)
      (unknownsEquiv fixed members) := by
  ext p q
  rw [of_apply, system, foldl_absorb_mat_apply]
  simp only [NormalEquations.zero, zero_add, groundedLaplacian, laplacian, submatrix_apply,
    of_apply, List.map_map]
  refine congrArg List.sum (List.map_congr_left fun o _ => ?_)
  rw [row_eq_incidence, row_eq_incidence]
  rfl

theorem groundedLaplacian_posDef (positive : Positive obs)
    (spans : Spans (obs.map Obs.measurement) members) (root : members.Nonempty → fixed ∈ members) :
    (groundedLaplacian fixed members obs).PosDef := by
  have posDef := system_posDef positive spans root
  rw [system_eq_submatrix] at posDef
  have back := posDef.submatrix (unknownsEquiv fixed members).symm.injective
  rwa [submatrix_submatrix, Equiv.self_comp_symm, submatrix_id_id] at back

/-! ### The solution -/

theorem scatter_unknown (v : Fin (unknowns fixed members).length → ℝ)
    (i : Grounded fixed members) :
    scatter (unknowns fixed members).finIdxOf? v i = v ((unknownsEquiv fixed members).symm i) := by
  obtain ⟨p, rfl⟩ := (unknownsEquiv fixed members).surjective i
  rw [Equiv.symm_apply_apply]
  exact scatter_get v p

/-- **`laplacian_solve` on every connected set of members.** It never leaves the zeros in place: the
factorisation succeeds, the held node and the nodes outside are zero, the values are the only ones
of least cost with the held node at zero, and the squares of the standard deviations are the
diagonal of the inverse of the Laplacian without the held node. -/
theorem laplacianSolve_optimal (positive : Positive obs)
    (inside : ∀ o ∈ obs, o.a ∈ members ∧ o.b ∈ members)
    (connected : ∀ i ∈ members, Relation.ReflTransGen (Linked obs) fixed i) :
    (spdSolve (system fixed members obs).mat (system fixed members obs).rhs).isSome ∧
      (laplacianSolve fixed members obs).1 fixed = 0 ∧
      (∀ i ∉ members, (laplacianSolve fixed members obs).1 i = 0) ∧
      (∀ x : Fin n → ℝ, x fixed = 0 →
        Obs.cost obs (laplacianSolve fixed members obs).1 ≤ Obs.cost obs x ∧
        (Obs.cost obs x ≤ Obs.cost obs (laplacianSolve fixed members obs).1 →
          ∀ i ∈ members, x i = (laplacianSolve fixed members obs).1 i)) ∧
      (groundedLaplacian fixed members obs).PosDef ∧
      ∀ i : Grounded fixed members, (laplacianSolve fixed members obs).2 i ^ 2 =
        (groundedLaplacian fixed members obs)⁻¹ i i := by
  have root := fixed_mem inside connected
  have spans := connected_spans inside connected
  have posDef := groundedLaplacian_posDef positive spans root
  obtain ⟨balanced, zero⟩ := laplacianSolve_balanced positive spans root
  obtain ⟨x, d, solved, _, inverse⟩ := spdSolve_spec (system_posDef positive spans root)
    (system fixed members obs).rhs
  have held : (laplacianSolve fixed members obs).1 fixed = 0 := zero fixed fun both => both.2 rfl
  refine ⟨Option.isSome_iff_exists.mpr ⟨_, solved⟩, held,
    fun i outside => zero i fun both => outside both.1, fun x' grounded => ?_, posDef, fun i => ?_⟩
  · rw [Obs.cost_eq, Obs.cost_eq]
    refine ⟨balanced.cost_le positive.weighted x', fun least i member => ?_⟩
    have same := balanced.sub_eq_sub_of_cost_le positive.weighted spans least member
      (root ⟨i, member⟩)
    rwa [grounded, held, sub_zero, sub_zero] at same
  · have sigma : (laplacianSolve fixed members obs).2 =
        scatter (unknowns fixed members).finIdxOf? fun p => √(max (d p) 0) :=
      congrArg Prod.snd (laplacianSolve_of_solved solved)
    have diagonal : d ((unknownsEquiv fixed members).symm i) =
        (groundedLaplacian fixed members obs)⁻¹ i i := by
      rw [inverse, system_eq_submatrix, inv_submatrix_equiv, submatrix_apply,
        Equiv.apply_symm_apply]
    rw [sigma, scatter_unknown, diagonal, max_eq_left posDef.inv.diag_pos.le,
      Real.sq_sqrt posDef.inv.diag_pos.le]

/-- Two nodes, observed once in either direction. -/
theorem laplacianSolve_optimal_pair :
    let obs : List (Obs ℝ 2) := [⟨0, 1, 1, 1⟩, ⟨1, 0, -3, 2⟩]
    let r := laplacianSolve 0 Finset.univ obs
    (∀ x : Fin 2 → ℝ, x 0 = 0 → Obs.cost obs r.1 ≤ Obs.cost obs x ∧
      (Obs.cost obs x ≤ Obs.cost obs r.1 → ∀ i ∈ Finset.univ, x i = r.1 i)) ∧
    r.2 1 ^ 2 = (groundedLaplacian 0 Finset.univ obs)⁻¹ ⟨1, by decide⟩ ⟨1, by decide⟩ := by
  intro obs r
  have positive : Positive obs := by
    intro o member
    simp only [obs, List.mem_cons, List.not_mem_nil, or_false] at member
    obtain rfl | rfl := member <;> norm_num
  have connected : ∀ i ∈ Finset.univ, Relation.ReflTransGen (Linked obs) 0 i := by
    intro i _
    fin_cases i
    · exact .refl
    · exact .single ⟨_, List.mem_cons_self, Or.inl ⟨rfl, rfl⟩⟩
  obtain ⟨_, _, _, least, _, sigma⟩ := laplacianSolve_optimal positive
    (fun _ _ => ⟨Finset.mem_univ _, Finset.mem_univ _⟩) connected
  exact ⟨least, sigma ⟨1, by decide⟩⟩

end Rtfsn
