/-
`laplacian_solve`: weighted least squares for node values, one node held at zero.

* `laplacianSolve_balanced`: on a connected set of members the result satisfies every normal
  equation, the held node's included, and is zero at the held node and outside the set.
* `laplacianSolve_eq`: so it is any other solution, measured from the held node.
* `laplacianSolve_sigma`: the standard deviations do not read the measured values.
-/
import Rtfsn.Sync.Spd
import Rtfsn.Lib.LeastSquares

namespace Rtfsn

open LeastSquares Matrix

variable {F : Type} [F64 F] {n k : ℕ}

/-- One weighted measurement of `value[b] − value[a]`. -/
structure Obs (F : Type) (n : ℕ) where
  a : Fin n
  b : Fin n
  m : F
  sigma : F

/-- The matrix and the right-hand side, while they are summed. -/
structure NormalEquations (F : Type) (k : ℕ) where
  mat : Fin k → Fin k → F
  rhs : Fin k → F

/-- Update one entry of a matrix. -/
def modifyAt (mat : Fin k → Fin k → F) (p q : Fin k) (f : F → F) : Fin k → Fin k → F :=
  Function.update mat p (Function.update (mat p) q (f (mat p q)))

namespace NormalEquations

def zero : NormalEquations F k := ⟨fun _ _ => 0, fun _ => 0⟩

/-- Add one measurement; `pos` is the place of a node among the unknowns. -/
def absorb (pos : Fin n → Option (Fin k)) (eqs : NormalEquations F k) (o : Obs F n) :
    NormalEquations F k :=
  let w := 1 / F64.powi o.sigma 2
  let eqs := match pos o.a with
    | some pa =>
      { mat := modifyAt eqs.mat pa pa (· + w)
        rhs := Function.update eqs.rhs pa (eqs.rhs pa - w * o.m) }
    | none => eqs
  let eqs := match pos o.b with
    | some pb =>
      { mat := modifyAt eqs.mat pb pb (· + w)
        rhs := Function.update eqs.rhs pb (eqs.rhs pb + w * o.m) }
    | none => eqs
  match pos o.a, pos o.b with
  | some pa, some pb =>
    { eqs with mat := modifyAt (modifyAt eqs.mat pa pb (· - w)) pb pa (· - w) }
  | _, _ => eqs

end NormalEquations

/-- The members whose values are solved for. -/
def unknowns (fixed : Fin n) (members : Finset (Fin n)) : List (Fin n) :=
  members.sort.filter (· ≠ fixed)

/-- The values of the unknowns as values of all nodes, zero elsewhere. -/
def scatter (pos : Fin n → Option (Fin k)) (x : Fin k → F) (i : Fin n) : F :=
  match pos i with
  | some p => x p
  | none => 0

/-- Each node's value and standard deviation, with node `fixed` held at zero. -/
def laplacianSolve (fixed : Fin n) (members : Finset (Fin n)) (obs : List (Obs F n)) :
    (Fin n → F) × (Fin n → F) :=
  let pos := (unknowns fixed members).finIdxOf?
  let eqs := obs.foldl (NormalEquations.absorb pos) NormalEquations.zero
  match spdSolve eqs.mat eqs.rhs with
  | some (x, diag) => (scatter pos x, scatter pos fun p => F64.sqrt (F64.max (diag p) 0))
  | none => (fun _ => 0, fun _ => 0)

/-! ### The standard deviations -/

theorem absorb_mat_congr (pos : Fin n → Option (Fin k)) {eqs eqs' : NormalEquations F k}
    (mat : eqs.mat = eqs'.mat) {o o' : Obs F n} (a : o.a = o'.a) (b : o.b = o'.b)
    (sigma : o.sigma = o'.sigma) : (eqs.absorb pos o).mat = (eqs'.absorb pos o').mat := by
  simp only [NormalEquations.absorb, a, b, sigma]
  cases pos o'.a <;> cases pos o'.b <;> simp only [mat]

/-- The matrix does not read the measured values. -/
theorem foldl_absorb_mat {P : Type} (pos : Fin n → Option (Fin k)) (l : List P)
    (f g : P → Obs F n)
    (same : ∀ p ∈ l, (f p).a = (g p).a ∧ (f p).b = (g p).b ∧ (f p).sigma = (g p).sigma)
    {eqs eqs' : NormalEquations F k} (mat : eqs.mat = eqs'.mat) :
    ((l.map f).foldl (NormalEquations.absorb pos) eqs).mat =
      ((l.map g).foldl (NormalEquations.absorb pos) eqs').mat := by
  induction l generalizing eqs eqs' with
  | nil => exact mat
  | cons p l ih =>
    obtain ⟨a, b, sigma⟩ := same p List.mem_cons_self
    exact ih (fun q member => same q (List.mem_cons_of_mem _ member))
      (absorb_mat_congr pos mat a b sigma)

theorem laplacianSolve_sigma {P : Type} (fixed : Fin n) (members : Finset (Fin n)) (l : List P)
    (f g : P → Obs F n)
    (same : ∀ p ∈ l, (f p).a = (g p).a ∧ (f p).b = (g p).b ∧ (f p).sigma = (g p).sigma) :
    (laplacianSolve fixed members (l.map f)).2 = (laplacianSolve fixed members (l.map g)).2 := by
  have mat := foldl_absorb_mat (unknowns fixed members).finIdxOf? l f g same
    (rfl : NormalEquations.zero.mat = NormalEquations.zero.mat)
  simp only [laplacianSolve, spdSolve, mat]
  cases cholesky ((l.map g).foldl (NormalEquations.absorb (unknowns fixed members).finIdxOf?)
    NormalEquations.zero).mat <;> rfl

/-! ### The normal equations over the reals -/

section Real

/-- What a measurement weighs and says. -/
noncomputable def Obs.measurement (o : Obs ℝ n) : Measurement (Fin n) where
  src := o.a
  dst := o.b
  value := o.m
  weight := 1 / o.sigma ^ 2

/-- The row of a measurement in the unknowns. -/
noncomputable def Obs.row (pos : Fin n → Option (Fin k)) (o : Obs ℝ n) (p : Fin k) : ℝ :=
  (if pos o.b = some p then 1 else 0) - if pos o.a = some p then 1 else 0

theorem modifyAt_add (mat : Fin k → Fin k → ℝ) (p q : Fin k) (w : ℝ) (i j : Fin k) :
    modifyAt mat p q (· + w) i j =
      mat i j + w * (if p = i then 1 else 0) * if q = j then 1 else 0 := by
  unfold modifyAt
  rcases eq_or_ne p i with rfl | row
  · rcases eq_or_ne q j with rfl | column
    · simp
    · simp [column, column.symm]
  · simp [row, row.symm]

theorem modifyAt_sub (mat : Fin k → Fin k → ℝ) (p q : Fin k) (w : ℝ) (i j : Fin k) :
    modifyAt mat p q (· - w) i j =
      mat i j - w * (if p = i then 1 else 0) * if q = j then 1 else 0 := by
  simp only [sub_eq_add_neg, modifyAt_add]
  ring

theorem update_eq_add (rhs : Fin k → ℝ) (p : Fin k) (c : ℝ) (i : Fin k) :
    Function.update rhs p c i = rhs i + (c - rhs p) * if p = i then 1 else 0 := by
  rcases eq_or_ne p i with rfl | other
  · simp
  · simp [other, other.symm]

/-- One measurement adds its weighted row to the matrix. -/
theorem absorb_mat (pos : Fin n → Option (Fin k)) (eqs : NormalEquations ℝ k) (o : Obs ℝ n)
    (p q : Fin k) : (eqs.absorb pos o).mat p q =
      eqs.mat p q + o.measurement.weight * o.row pos p * o.row pos q := by
  simp only [NormalEquations.absorb, Obs.row, Obs.measurement, F64.powi_real]
  cases pos o.a <;> cases pos o.b <;>
    simp only [modifyAt_add, modifyAt_sub, Option.some.injEq, reduceCtorEq, if_false] <;> ring

theorem absorb_rhs (pos : Fin n → Option (Fin k)) (eqs : NormalEquations ℝ k) (o : Obs ℝ n)
    (p : Fin k) : (eqs.absorb pos o).rhs p =
      eqs.rhs p + o.measurement.weight * o.m * o.row pos p := by
  simp only [NormalEquations.absorb, Obs.row, Obs.measurement, F64.powi_real]
  cases pos o.a <;> cases pos o.b <;>
    simp only [update_eq_add, Option.some.injEq, reduceCtorEq, if_false] <;> ring

theorem sum_row_mul (pos : Fin n → Option (Fin k)) (o : Obs ℝ n) (v : Fin k → ℝ) :
    ∑ p, o.row pos p * v p = scatter pos v o.b - scatter pos v o.a := by
  simp only [Obs.row, scatter, sub_mul, Finset.sum_sub_distrib]
  cases pos o.a <;> cases pos o.b <;> simp

theorem sum_mul_rows (pos : Fin n → Option (Fin k)) (obs : List (Obs ℝ n)) (c : Obs ℝ n → ℝ)
    (v : Fin k → ℝ) : ∑ p, v p * (obs.map fun o => c o * o.row pos p).sum =
      (obs.map fun o => c o * (scatter pos v o.b - scatter pos v o.a)).sum := by
  induction obs with
  | nil => simp
  | cons o obs ih =>
    simp only [List.map_cons, List.sum_cons, mul_add, Finset.sum_add_distrib, ih,
      ← sum_row_mul pos o v, Finset.mul_sum]
    exact congrArg (· + _) (Finset.sum_congr rfl fun p _ => by ring)

/-- The matrix at values of the unknowns. -/
theorem foldl_absorb_mulVec (pos : Fin n → Option (Fin k)) (obs : List (Obs ℝ n))
    (eqs : NormalEquations ℝ k) (v : Fin k → ℝ) (p : Fin k) :
    (of (obs.foldl (NormalEquations.absorb pos) eqs).mat *ᵥ v) p = (of eqs.mat *ᵥ v) p +
      (obs.map fun o => o.measurement.weight * (scatter pos v o.b - scatter pos v o.a) *
        o.row pos p).sum := by
  induction obs generalizing eqs with
  | nil => simp
  | cons o obs ih =>
    have first : (of (eqs.absorb pos o).mat *ᵥ v) p = (of eqs.mat *ᵥ v) p +
        o.measurement.weight * (scatter pos v o.b - scatter pos v o.a) * o.row pos p := by
      rw [← sum_row_mul pos o v]
      simp only [mulVec, dotProduct, of_apply, absorb_mat, add_mul, Finset.sum_add_distrib,
        Finset.mul_sum, Finset.sum_mul]
      exact congrArg _ (Finset.sum_congr rfl fun q _ => by ring)
    rw [List.foldl_cons, ih, first, List.map_cons, List.sum_cons, add_assoc]

theorem foldl_absorb_rhs (pos : Fin n → Option (Fin k)) (obs : List (Obs ℝ n))
    (eqs : NormalEquations ℝ k) (p : Fin k) :
    (obs.foldl (NormalEquations.absorb pos) eqs).rhs p =
      eqs.rhs p + (obs.map fun o => o.measurement.weight * o.m * o.row pos p).sum := by
  induction obs generalizing eqs with
  | nil => simp
  | cons o obs ih => rw [List.foldl_cons, ih, absorb_rhs, List.map_cons, List.sum_cons, add_assoc]

theorem foldl_absorb_symm (pos : Fin n → Option (Fin k)) (obs : List (Obs ℝ n))
    (eqs : NormalEquations ℝ k) (symm : ∀ p q, eqs.mat p q = eqs.mat q p) (p q : Fin k) :
    (obs.foldl (NormalEquations.absorb pos) eqs).mat p q =
      (obs.foldl (NormalEquations.absorb pos) eqs).mat q p := by
  induction obs generalizing eqs with
  | nil => exact symm p q
  | cons o obs ih =>
    refine ih _ fun p q => ?_
    rw [absorb_mat, absorb_mat, symm p q]
    ring

/-! ### The unknowns -/

variable {fixed : Fin n} {members : Finset (Fin n)}

theorem mem_unknowns {i : Fin n} : i ∈ unknowns fixed members ↔ i ∈ members ∧ i ≠ fixed := by
  simp [unknowns]

theorem nodup_unknowns (fixed : Fin n) (members : Finset (Fin n)) :
    (unknowns fixed members).Nodup := (members.sort_nodup _).filter _

theorem pos_eq_some {i : Fin n} {p : Fin (unknowns fixed members).length} :
    (unknowns fixed members).finIdxOf? i = some p ↔ (unknowns fixed members)[p] = i := by
  rw [List.finIdxOf?_eq_some_iff]
  refine ⟨And.left, fun found => ⟨found, fun q before same => ?_⟩⟩
  have equal := (nodup_unknowns fixed members).injective_get (same.trans found.symm)
  exact absurd equal before.ne

theorem pos_eq_none {i : Fin n} :
    (unknowns fixed members).finIdxOf? i = none ↔ ¬ (i ∈ members ∧ i ≠ fixed) := by
  rw [List.finIdxOf?_eq_none_iff, mem_unknowns]

/-- Nodes that are not solved for stay zero. -/
theorem scatter_of_not_mem {i : Fin n} (outside : ¬ (i ∈ members ∧ i ≠ fixed))
    (v : Fin (unknowns fixed members).length → ℝ) :
    scatter (unknowns fixed members).finIdxOf? v i = 0 := by
  rw [scatter, pos_eq_none.mpr outside]

theorem scatter_get (v : Fin (unknowns fixed members).length → ℝ)
    (p : Fin (unknowns fixed members).length) :
    scatter (unknowns fixed members).finIdxOf? v (unknowns fixed members)[p] = v p := by
  rw [scatter, pos_eq_some.mpr rfl]

theorem row_eq_incidence (o : Obs ℝ n) (p : Fin (unknowns fixed members).length) :
    o.row (unknowns fixed members).finIdxOf? p =
      o.measurement.incidence (unknowns fixed members)[p] := by
  have found : ∀ i, (if (unknowns fixed members).finIdxOf? i = some p then (1 : ℝ) else 0) =
      if i = (unknowns fixed members)[p] then 1 else 0 := fun i =>
    if_congr (pos_eq_some.trans eq_comm) rfl rfl
  unfold Obs.row Measurement.incidence
  rw [found, found]
  rfl

/-! ### The solution -/

variable {obs : List (Obs ℝ n)}

/-- The summed system. -/
noncomputable def system (fixed : Fin n) (members : Finset (Fin n)) (obs : List (Obs ℝ n)) :
    NormalEquations ℝ (unknowns fixed members).length :=
  obs.foldl (NormalEquations.absorb (unknowns fixed members).finIdxOf?) NormalEquations.zero

/-- What the system asks of the unknowns is the inflow of their values. -/
theorem system_sub (v : Fin (unknowns fixed members).length → ℝ)
    (p : Fin (unknowns fixed members).length) :
    (of (system fixed members obs).mat *ᵥ v) p - (system fixed members obs).rhs p =
      inflow (obs.map Obs.measurement) (scatter (unknowns fixed members).finIdxOf? v)
        (unknowns fixed members)[p] := by
  have start : (of (NormalEquations.zero (F := ℝ)).mat *ᵥ v) p = 0 := by
    simp [NormalEquations.zero, mulVec, dotProduct]
  rw [system, foldl_absorb_mulVec, foldl_absorb_rhs, start]
  simp only [NormalEquations.zero, zero_add, inflow, List.map_map]
  rw [sub_eq_iff_eq_add, ← List.sum_map_add]
  refine congrArg List.sum (List.map_congr_left fun o _ => ?_)
  simp only [Function.comp, Measurement.misfit, row_eq_incidence, Obs.measurement]
  ring

/-- The quadratic form of the matrix is that of the measurements. -/
theorem system_form (v : Fin (unknowns fixed members).length → ℝ) :
    v ⬝ᵥ of (system fixed members obs).mat *ᵥ v =
      ((obs.map Obs.measurement).map fun o => o.weight *
        (scatter (unknowns fixed members).finIdxOf? v o.dst -
          scatter (unknowns fixed members).finIdxOf? v o.src) ^ 2).sum := by
  have rows : ∀ p, (of (system fixed members obs).mat *ᵥ v) p =
      (obs.map fun o => o.measurement.weight *
        (scatter (unknowns fixed members).finIdxOf? v o.b -
          scatter (unknowns fixed members).finIdxOf? v o.a) *
        o.row (unknowns fixed members).finIdxOf? p).sum := by
    intro p
    rw [system, foldl_absorb_mulVec]
    simp [NormalEquations.zero, mulVec, dotProduct]
  simp only [dotProduct, rows, sum_mul_rows, List.map_map]
  refine congrArg List.sum (List.map_congr_left fun o _ => ?_)
  simp only [Function.comp, Obs.measurement]
  ring

/-- Every standard deviation is positive. -/
def Positive (obs : List (Obs ℝ n)) : Prop := ∀ o ∈ obs, 0 < o.sigma

theorem Positive.weighted (positive : Positive obs) : Weighted (obs.map Obs.measurement) := by
  intro o member
  obtain ⟨o', member', rfl⟩ := List.mem_map.mp member
  exact one_div_pos.mpr (pow_pos (positive o' member') 2)

/-- With one node of a connected set held at zero, the system is positive definite. -/
theorem system_posDef (positive : Positive obs) (spans : Spans (obs.map Obs.measurement) members)
    (root : members.Nonempty → fixed ∈ members) : (of (system fixed members obs).mat).PosDef := by
  refine PosDef.of_dotProduct_mulVec_pos ?_ fun v nonzero => ?_
  · ext p q
    exact foldl_absorb_symm _ obs _ (fun _ _ => rfl) q p
  · obtain ⟨p, entry⟩ := Function.ne_iff.mp nonzero
    have place := mem_unknowns.mp (List.getElem_mem (l := unknowns fixed members) p.isLt)
    rw [star_trivial, system_form]
    refine form_pos positive.weighted spans (root ⟨_, place.1⟩)
      (scatter_of_not_mem (fun both => both.2 rfl) v) place.1 ?_
    exact (scatter_get v p).trans_ne entry

/-- The result where the system is solved. -/
theorem laplacianSolve_of_solved {x d : Fin (unknowns fixed members).length → ℝ}
    (solved : spdSolve (system fixed members obs).mat (system fixed members obs).rhs =
      some (x, d)) :
    laplacianSolve fixed members obs = (scatter (unknowns fixed members).finIdxOf? x,
      scatter (unknowns fixed members).finIdxOf? fun p => √(max (d p) 0)) := by
  simp only [system] at solved
  simp only [laplacianSolve, solved]
  rfl

/-- **The result satisfies every normal equation**, and is zero at the held node and outside the
members. -/
theorem laplacianSolve_balanced (positive : Positive obs)
    (spans : Spans (obs.map Obs.measurement) members) (root : members.Nonempty → fixed ∈ members) :
    Balanced (obs.map Obs.measurement) (laplacianSolve fixed members obs).1 ∧
      ∀ i, ¬ (i ∈ members ∧ i ≠ fixed) → (laplacianSolve fixed members obs).1 i = 0 := by
  obtain ⟨x, d, solved, solves, _⟩ := spdSolve_spec (system_posDef positive spans root)
    (system fixed members obs).rhs
  rw [laplacianSolve_of_solved solved]
  refine ⟨Balanced.of_others fixed fun i other => ?_, fun i outside => scatter_of_not_mem outside x⟩
  by_cases member : i ∈ members
  · obtain ⟨p, found⟩ := List.get_of_mem (mem_unknowns.mpr ⟨member, other⟩)
    have entry : _ = inflow (obs.map Obs.measurement) _ _ := system_sub x p
    rw [solves, sub_self] at entry
    rw [← found]
    exact entry.symm
  · -- No measurement touches a node outside the set.
    refine List.sum_eq_zero fun term inside => ?_
    obtain ⟨o, touched, rfl⟩ := List.mem_map.mp inside
    obtain ⟨src, dst⟩ := spans.inside o touched
    have apart : o.incidence i = 0 := by
      rw [Measurement.incidence, if_neg fun same : o.dst = i => member (same ▸ dst),
        if_neg fun same : o.src = i => member (same ▸ src), sub_self]
    rw [apart, mul_zero]

/-- **Any solution of the normal equations is the result**, measured from the held node. -/
theorem laplacianSolve_eq (positive : Positive obs)
    (spans : Spans (obs.map Obs.measurement) members) (root : fixed ∈ members) {x : Fin n → ℝ}
    (balanced : Balanced (obs.map Obs.measurement) x) {i : Fin n} (member : i ∈ members) :
    (laplacianSolve fixed members obs).1 i = x i - x fixed := by
  obtain ⟨solves, zero⟩ := laplacianSolve_balanced positive spans fun _ => root
  rw [balanced.sub_eq_sub solves positive.weighted spans member root,
    zero fixed fun both => both.2 rfl, sub_zero]

end Real

end Rtfsn
