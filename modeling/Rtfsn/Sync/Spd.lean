/-
`spd_solve`: Cholesky factorisation and two triangular substitutions.

The row-major `n × n` vectors of the source are read as functions of a row and a column, so an
index is in range by its type. Each nested loop writes every entry once, in order, and is a
`Loop.fill` over the list of the positions it visits.

* `cholesky_spec`: the factorisation of a symmetric matrix either gives its factor, or stops and
  the matrix is not positive definite.
* `spdSolve_spec`: a positive definite system is solved, with the diagonal of the inverse.
-/
import Rtfsn.Numbers
import Rtfsn.Lib.Loop
import Rtfsn.Lib.Cholesky

namespace Rtfsn

open Matrix

variable {F : Type} [F64 F] {n : ℕ}

/-- The positions of `for i in 0..n { for j in 0..=i { .. } }`. -/
def lowerTriangle (n : ℕ) : List (Fin n × Fin n) :=
  (List.finRange n).flatMap fun i : Fin n => (Loop.below (i.val + 1)).map fun j : Fin n => (i, j)

/-- One entry of the factor from those before it: `None` at a pivot that is not positive. -/
def choleskyEntry (a : Fin n → Fin n → F) (l : Fin n × Fin n → F) (at_ : Fin n × Fin n) :
    Option F :=
  let (i, j) := at_
  let s := (Loop.below j).foldl (fun s k => s - l (i, k) * l (j, k)) (a i j)
  if i = j then
    if F64.le s 0 || !F64.isFinite s then none else some (F64.sqrt s)
  else some (s / l (j, j))

/-- The lower-triangular factor. -/
def cholesky (a : Fin n → Fin n → F) : Option (Fin n × Fin n → F) :=
  Loop.fill (choleskyEntry a) (lowerTriangle n) fun _ => 0

/-- One entry of `y` in `L y = rhs`, from those before it. -/
def forwardEntry (l : Fin n × Fin n → F) (rhs y : Fin n → F) (i : Fin n) : F :=
  (Loop.below i).foldl (fun s k => s - l (i, k) * y k) (rhs i) / l (i, i)

/-- One entry of `x` in `Lᵀ x = y`, from those after it. -/
def backEntry (l : Fin n × Fin n → F) (y x : Fin n → F) (i : Fin n) : F :=
  (Loop.above i).foldl (fun s k => s - l (k, i) * x k) (y i) / l (i, i)

/-- `L Lᵀ x = rhs`, by a substitution from the first row and one from the last. -/
def substitute (l : Fin n × Fin n → F) (rhs : Fin n → F) : Fin n → F :=
  let y := Loop.fillAll (forwardEntry l rhs) (List.finRange n) fun _ => 0
  Loop.fillAll (backEntry l y) (List.finRange n).reverse fun _ => 0

/-- Solve `A x = b` for symmetric positive definite `A`, with the diagonal of `A⁻¹`. -/
def spdSolve (a : Fin n → Fin n → F) (b : Fin n → F) : Option ((Fin n → F) × (Fin n → F)) := do
  let l ← cholesky a
  let x := substitute l b
  let diag := fun i => substitute l (Function.update (fun _ => 0) i 1) i
  return (x, diag)

/-! ### The order of the factorisation -/

/-- Row by row, each row from the left. -/
def RowMajor (p q : Fin n × Fin n) : Prop := p.1 < q.1 ∨ p.1 = q.1 ∧ p.2 < q.2

theorem RowMajor.asymm (p q : Fin n × Fin n) (before : RowMajor p q) : ¬ RowMajor q p := by
  unfold RowMajor at *
  omega

theorem mem_lowerTriangle {p : Fin n × Fin n} : p ∈ lowerTriangle n ↔ p.2 ≤ p.1 := by
  obtain ⟨i, j⟩ := p
  simp [lowerTriangle, Loop.mem_below]

theorem pairwise_lowerTriangle : (lowerTriangle n).Pairwise RowMajor := by
  rw [lowerTriangle, List.pairwise_flatMap]
  constructor
  · intro i _
    rw [List.pairwise_map]
    exact (Loop.pairwise_below _).imp fun before => Or.inr ⟨rfl, before⟩
  · refine (List.pairwise_lt_finRange n).imp fun {i i'} before p inside q inside' => ?_
    obtain ⟨_, _, rfl⟩ := List.mem_map.mp inside
    obtain ⟨_, _, rfl⟩ := List.mem_map.mp inside'
    exact Or.inl before

theorem nodup_lowerTriangle : (lowerTriangle n).Nodup :=
  pairwise_lowerTriangle.imp fun {p q} before (same : p = q) =>
    RowMajor.asymm _ _ before (same ▸ before)

/-- The positions an entry reads come before it. -/
theorem before_lowerTriangle {before after : List (Fin n × Fin n)} {p q : Fin n × Fin n}
    (split : lowerTriangle n = before ++ p :: after) (inside : q.2 ≤ q.1) (smaller : RowMajor q p) :
    q ∈ before :=
  Loop.before_of_rel RowMajor.asymm pairwise_lowerTriangle split (mem_lowerTriangle.mpr inside)
    smaller

theorem choleskyEntry_readsBack (a : Fin n → Fin n → F) :
    Loop.ReadsBack (choleskyEntry a) (lowerTriangle n) := by
  rintro before ⟨i, j⟩ after split y y' agree
  have inside : j ≤ i :=
    mem_lowerTriangle.mp (show (i, j) ∈ lowerTriangle n by rw [split]; simp)
  have row : ∀ k ∈ Loop.below (n := n) j, y (i, k) = y' (i, k) := fun k member => by
    have left : k < j := Loop.mem_below.mp member
    exact agree _ (before_lowerTriangle split (left.le.trans inside) (Or.inr ⟨rfl, left⟩))
  have above : ∀ k ∈ Loop.below (n := n) j, y (j, k) = y' (j, k) := fun k member => by
    have left : k < j := Loop.mem_below.mp member
    refine agree _ (before_lowerTriangle split left.le ?_)
    rcases inside.eq_or_lt with same | lower
    · exact Or.inr ⟨same, left⟩
    · exact Or.inl lower
  have sums : (Loop.below j).foldl (fun s k => s - y (i, k) * y (j, k)) (a i j) =
      (Loop.below j).foldl (fun s k => s - y' (i, k) * y' (j, k)) (a i j) :=
    List.foldl_ext _ _ _ fun s k member => by rw [row k member, above k member]
  simp only [choleskyEntry]
  rw [sums]
  split_ifs with diagonal stop
  · rfl
  · rfl
  · have lower : j < i := lt_of_le_of_ne inside (Ne.symm diagonal)
    rw [agree (j, j) (before_lowerTriangle split le_rfl (Or.inl lower))]

/-! ### The factorisation over the reals -/

section Real

variable {a : Matrix (Fin n) (Fin n) ℝ}

/-- The written entries as a matrix. -/
def factor (l : Fin n × Fin n → ℝ) : Matrix (Fin n) (Fin n) ℝ := fun p q => l (p, q)

theorem choleskyEntry_sum (l : Fin n × Fin n → ℝ) (i j : Fin n) :
    (Loop.below j).foldl (fun s k => s - l (i, k) * l (j, k)) (a i j) =
      a i j - ∑ k with k < j, factor l i k * factor l j k := by
  rw [Loop.foldl_sub fun k => l (i, k) * l (j, k), Loop.sum_below]
  rfl

/-- A filled prefix that is closed to the left and above is a factor there. -/
theorem filled_factor {done : List (Fin n × Fin n)} {l : Fin n × Fin n → ℝ}
    (filled : Loop.Filled (choleskyEntry a) (fun _ => 0) done l)
    (inside : ∀ p ∈ done, p.2 ≤ p.1) :
    Cholesky.Lower (factor l) ∧ (∀ p, (p, p) ∈ done → 0 < factor l p p) ∧
      ∀ p q, (p, q) ∈ done → (q, q) ∈ done → (factor l * (factor l)ᵀ) p q = a p q := by
  have lower : Cholesky.Lower (factor l) := fun p q below =>
    filled.untouched (p, q) fun member => absurd (inside _ member) (not_le.mpr below)
  have positive : ∀ p, (p, p) ∈ done → 0 < factor l p p ∧
      factor l p p * factor l p p = a p p - ∑ k with k < p, factor l p k * factor l p k := by
    intro p member
    have entry := filled.holds (p, p) member
    simp only [choleskyEntry, choleskyEntry_sum, if_true, F64.le_real, F64.isFinite_real,
      Bool.not_true, Bool.or_false, F64.sqrt_real, decide_eq_true_eq] at entry
    split_ifs at entry with stop
    rw [not_le] at stop
    have root := Option.some.inj entry
    rw [show factor l p p = l (p, p) from rfl, ← root]
    exact ⟨Real.sqrt_pos.mpr stop, Real.mul_self_sqrt stop.le⟩
  refine ⟨lower, fun p member => (positive p member).1, fun p q member diagonal => ?_⟩
  rw [lower.mul_transpose_apply]
  rcases eq_or_ne p q with rfl | other
  · rw [(positive p member).2]
    ring
  · have entry := filled.holds (p, q) member
    simp only [choleskyEntry, choleskyEntry_sum, if_neg other] at entry
    rw [show factor l p q = l (p, q) from rfl, ← Option.some.inj entry,
      show l (q, q) = factor l q q from rfl, div_mul_cancel₀ _ (positive q diagonal).1.ne']
    ring

theorem factor_symm (l : Matrix (Fin n) (Fin n) ℝ) (p q : Fin n) :
    (l * lᵀ) p q = (l * lᵀ) q p := by
  rw [← transpose_apply (l * lᵀ), transpose_mul, transpose_transpose]

/-- **The factorisation gives the factor of a symmetric matrix, or the matrix is not positive
definite.** -/
theorem cholesky_spec (symm : aᵀ = a) :
    (∃ l, cholesky a = some l ∧ Cholesky.Lower (factor l) ∧ (∀ p, 0 < factor l p p) ∧
      factor l * (factor l)ᵀ = a) ∨
    (cholesky a = none ∧ ¬ a.PosDef) := by
  obtain ⟨l, eq, filled⟩ | ⟨eq, before, ⟨i, j⟩, after, l, split, filled, stopped⟩ :=
    Loop.fill_spec (choleskyEntry_readsBack a) nodup_lowerTriangle fun _ => (0 : ℝ)
  · obtain ⟨lower, positive, factored⟩ :=
      filled_factor filled fun p member => mem_lowerTriangle.mp member
    have all : ∀ p, (p, p) ∈ lowerTriangle n := fun p => mem_lowerTriangle.mpr le_rfl
    refine Or.inl ⟨l, eq, lower, fun p => positive p (all p), ?_⟩
    ext p q
    rcases le_total q p with left | right
    · exact factored p q (mem_lowerTriangle.mpr left) (all q)
    · have mirrored := factored q p (mem_lowerTriangle.mpr right) (all p)
      rw [factor_symm, mirrored, ← transpose_apply a, symm]
  · refine Or.inr ⟨eq, fun posDef => ?_⟩
    -- The loop stopped at a pivot that is not positive, with all rows above factored.
    have inside : ∀ p ∈ before, p.2 ≤ p.1 := fun p member =>
      mem_lowerTriangle.mp (by rw [split]; simp [member])
    obtain ⟨lower, positive, factored⟩ := filled_factor filled inside
    have fresh : (i, j) ∉ before := fun member =>
      List.disjoint_of_nodup_append (split ▸ nodup_lowerTriangle) member List.mem_cons_self
    have earlier : ∀ p q, q ≤ p → RowMajor (p, q) (i, j) → (p, q) ∈ before :=
      fun p q left smaller => before_lowerTriangle split left smaller
    simp only [choleskyEntry, choleskyEntry_sum, F64.le_real, F64.isFinite_real, Bool.not_true,
      Bool.or_false, decide_eq_true_eq] at stopped
    split_ifs at stopped with diagonal stop
    subst diagonal
    have unwritten : factor l i i = 0 := filled.untouched (i, i) fresh
    have above : ∀ p, p < i → (p, p) ∈ before := fun p row => earlier p p le_rfl (Or.inl row)
    have half : ∀ p q, q ≤ p → p ≤ i → ¬ (p = i ∧ q = i) →
        (factor l * (factor l)ᵀ) p q = a p q := by
      intro p q left row other
      rcases row.eq_or_lt with rfl | row
      · have before_q : q < p := lt_of_le_of_ne left fun same => other ⟨rfl, same⟩
        exact factored p q (earlier p q left (Or.inr ⟨rfl, before_q⟩)) (above q before_q)
      · exact factored p q (earlier p q left (Or.inl row)) (above q (left.trans_lt row))
    have pivot := Cholesky.pivot_pos posDef lower i (fun p row => (positive p (above p row)).ne')
      unwritten fun p q rowP rowQ other => by
        rcases le_total q p with left | right
        · exact half p q left rowP other
        · rw [factor_symm, half q p right rowQ fun both => other both.symm, ← transpose_apply a,
            symm]
    rw [lower.mul_transpose_apply, unwritten, mul_zero, add_zero] at pivot
    exact absurd pivot (not_lt.mpr stop)

/-! ### The substitutions -/

theorem forwardEntry_readsBack (l : Fin n × Fin n → F) (rhs : Fin n → F) :
    Loop.ReadsBack (fun y i => some (forwardEntry l rhs y i)) (List.finRange n) := by
  intro before i after split y y' agree
  have same : ∀ k ∈ Loop.below (n := n) i, y k = y' k := fun k member =>
    agree k (Loop.before_of_rel (fun _ _ => lt_asymm) (List.pairwise_lt_finRange n) split
      (List.mem_finRange k) (Loop.mem_below.mp member))
  have sums : (Loop.below i).foldl (fun s k => s - l (i, k) * y k) (rhs i) =
      (Loop.below i).foldl (fun s k => s - l (i, k) * y' k) (rhs i) :=
    List.foldl_ext _ _ _ fun s k member => by rw [same k member]
  simp only [forwardEntry, sums]

theorem backEntry_readsBack (l : Fin n × Fin n → F) (y : Fin n → F) :
    Loop.ReadsBack (fun x i => some (backEntry l y x i)) (List.finRange n).reverse := by
  intro before i after split x x' agree
  have same : ∀ k ∈ Loop.above (n := n) i, x k = x' k := fun k member =>
    agree k (Loop.before_of_rel (r := fun p q => q < p) (fun _ _ => lt_asymm)
      (List.pairwise_reverse.mpr (List.pairwise_lt_finRange n)) split (by simp)
      (Loop.mem_above.mp member))
  have sums : (Loop.above i).foldl (fun s k => s - l (k, i) * x k) (y i) =
      (Loop.above i).foldl (fun s k => s - l (k, i) * x' k) (y i) :=
    List.foldl_ext _ _ _ fun s k member => by rw [same k member]
  simp only [backEntry, sums]

/-- The first substitution solves `L y = rhs`. -/
theorem forward_mulVec {l : Fin n × Fin n → ℝ} (lower : Cholesky.Lower (factor l))
    (positive : ∀ p, 0 < factor l p p) (rhs : Fin n → ℝ) :
    factor l *ᵥ Loop.fillAll (forwardEntry l rhs) (List.finRange n) (fun _ => 0) = rhs := by
  ext i
  have entry := Loop.fillAll_spec (forwardEntry_readsBack l rhs) (List.nodup_finRange n)
    (fun _ => 0) i (List.mem_finRange i)
  generalize Loop.fillAll (forwardEntry l rhs) (List.finRange n) (fun _ => 0) = y at entry ⊢
  rw [forwardEntry, Loop.foldl_sub fun k => l (i, k) * y k, Loop.sum_below,
    show l (i, i) = factor l i i from rfl, eq_div_iff (positive i).ne', mul_comm] at entry
  rw [lower.mulVec_apply, entry]
  exact add_sub_cancel _ _

/-- The second substitution solves `Lᵀ x = y`. -/
theorem back_mulVec {l : Fin n × Fin n → ℝ} (lower : Cholesky.Lower (factor l))
    (positive : ∀ p, 0 < factor l p p) (y : Fin n → ℝ) :
    (factor l)ᵀ *ᵥ Loop.fillAll (backEntry l y) (List.finRange n).reverse (fun _ => 0) = y := by
  ext i
  have entry := Loop.fillAll_spec (backEntry_readsBack l y)
    (List.nodup_reverse.mpr (List.nodup_finRange n)) (fun _ => 0) i (by simp)
  generalize Loop.fillAll (backEntry l y) (List.finRange n).reverse (fun _ => 0) = x at entry ⊢
  rw [backEntry, Loop.foldl_sub fun k => l (k, i) * x k, Loop.sum_above,
    show l (i, i) = factor l i i from rfl, eq_div_iff (positive i).ne', mul_comm] at entry
  rw [lower.transpose_mulVec_apply, entry]
  exact add_sub_cancel _ _

theorem substitute_mulVec {l : Fin n × Fin n → ℝ} (lower : Cholesky.Lower (factor l))
    (positive : ∀ p, 0 < factor l p p) (rhs : Fin n → ℝ) :
    (factor l * (factor l)ᵀ) *ᵥ substitute l rhs = rhs := by
  rw [← mulVec_mulVec, substitute, back_mulVec lower positive, forward_mulVec lower positive]

/-- **`spd_solve` solves positive definite systems**, and gives the diagonal of the inverse. -/
theorem spdSolve_spec (posDef : a.PosDef) (b : Fin n → ℝ) :
    ∃ x d, spdSolve a b = some (x, d) ∧ a *ᵥ x = b ∧ ∀ i, d i = a⁻¹ i i := by
  have symm : aᵀ = a :=
    (conjTranspose_eq_transpose_of_trivial a).symm.trans posDef.isHermitian.eq
  obtain ⟨l, eq, lower, positive, factored⟩ | ⟨_, notPosDef⟩ := cholesky_spec symm
  · have unit := (isUnit_iff_isUnit_det _).mp posDef.isUnit
    have solves : ∀ rhs, a *ᵥ substitute l rhs = rhs := fun rhs => by
      rw [← factored]
      exact substitute_mulVec lower positive rhs
    refine ⟨_, _, by simp only [spdSolve, eq, Option.bind_eq_bind, Option.bind_some]; rfl, solves b,
      fun i => ?_⟩
    have column := congrArg (a⁻¹ *ᵥ ·) (solves (Pi.single i 1))
    simp only [mulVec_mulVec, nonsing_inv_mul _ unit, one_mulVec, mulVec_single_one] at column
    exact congrFun column i
  · exact absurd posDef notPosDef

end Real

end Rtfsn
