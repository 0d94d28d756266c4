/-
`spd_solve` on the flat row-major vectors of the source.

Every read and write is at a checked index and every divisor is checked not to be zero: the outer
`none` is such a fault, the inner one the `None` that the source returns.

* `choleskyFlat_eq`, `solveFlat_eq`: on the lists of a matrix and a vector the loops are those of
  `cholesky` and `substitute`, and no check fails.
* `spdSolveFlat_spec`: for every symmetric matrix `spd_solve` returns `None` exactly when it is not
  positive definite, and else the solution and the diagonal of the inverse.
-/
import Rtfsn.Sync.Spd
import Rtfsn.Lib.Flat

set_option linter.unusedSectionVars false

namespace Rtfsn

open Matrix

variable {F : Type} [F64 F] {n : ℕ}

/-! ### The flat loops -/

/-- A division; a divisor of zero fails. -/
def divide (s d : F) : Option F := if F64.le d 0 && F64.le 0 d then none else some (s / d)

/-- `l[i * n + j]`. -/
def rowMajorIndex (n : ℕ) (p : ℕ × ℕ) : ℕ := p.1 * n + p.2

/-- The inner loops: `s -= xs[at(k)] * ys[at'(k)]` for each `k`. -/
def subtractProducts (xs : List F) (at_ : ℕ → ℕ) (ys : List F) (at' : ℕ → ℕ) (ks : List ℕ)
    (s : F) : Option F :=
  ks.foldlM (fun s k => do return s - (← xs[at_ k]?) * (← ys[at' k]?)) s

/-- One entry of the factor. -/
def choleskyEntryFlat (a : List F) (n : ℕ) (l : List F) (p : ℕ × ℕ) : Option (Option F) := do
  let (i, j) := p
  let s ← a[i * n + j]?
  let s ← subtractProducts l (i * n + ·) l (j * n + ·) (List.range j) s
  if i = j then
    if F64.le s 0 || !F64.isFinite s then return none else return some (F64.sqrt s)
  else
    let q ← divide s (← l[j * n + j]?)
    return some q

/-- The factorisation loop. -/
def choleskyFlat (a : List F) (n : ℕ) : Option (Option (List F)) :=
  Flat.fill (choleskyEntryFlat a n) (rowMajorIndex n)
    ((List.range n).flatMap fun i => (List.range (i + 1)).map fun j => (i, j))
    (List.replicate (n * n) 0)

def forwardEntryFlat (l rhs : List F) (n : ℕ) (y : List F) (i : ℕ) : Option F := do
  let s ← rhs[i]?
  let s ← subtractProducts l (i * n + ·) y id (List.range i) s
  divide s (← l[i * n + i]?)

def backEntryFlat (l y : List F) (n : ℕ) (x : List F) (i : ℕ) : Option F := do
  let s ← y[i]?
  let s ← subtractProducts l (· * n + i) x id (List.range' (i + 1) (n - (i + 1))) s
  divide s (← l[i * n + i]?)

/-- The closure `solve`. -/
def solveFlat (l : List F) (n : ℕ) (rhs : List F) : Option (List F) := do
  let y ← Flat.fillAll (forwardEntryFlat l rhs n) id (List.range n) (List.replicate n 0)
  Flat.fillAll (backEntryFlat l y n) id (List.range n).reverse (List.replicate n 0)

/-- One turn of the loop over the unit vectors, which share the vector `e`. -/
def diagTurn (l : List F) (n : ℕ) (s : List F × List F) (i : ℕ) : Option (List F × List F) := do
  let (e, diag) := s
  let e ← Flat.put e i 1
  let column ← solveFlat l n e
  let diag ← Flat.put diag i (← column[i]?)
  let e ← Flat.put e i 0
  return (e, diag)

def spdSolveFlat (a b : List F) (n : ℕ) : Option (Option (List F × List F)) := do
  match ← choleskyFlat a n with
  | none => return none
  | some l =>
    let x ← solveFlat l n b
    let (_, diag) ← (List.range n).foldlM (diagTurn l n)
      (List.replicate n 0, List.replicate n 0)
    return some (x, diag)

/-- A matrix as a row-major vector. -/
def rowMajor (a : Fin n → Fin n → F) : List F :=
  List.ofFn fun m : Fin (n * n) => a m.divNat m.modNat

/-! ### Positions and their indices -/

/-- A position as the loops count it. -/
def position (p : Fin n × Fin n) : ℕ × ℕ := (p.1.val, p.2.val)

theorem index_eq (p : Fin n × Fin n) :
    rowMajorIndex n (position p) = (finProdFinEquiv p).val := by
  show p.1.val * n + p.2.val = p.2.val + n * p.1.val
  rw [mul_comm, add_comm]

theorem index_lt (p : Fin n × Fin n) : rowMajorIndex n (position p) < n * n := by
  rw [index_eq]
  exact (finProdFinEquiv p).isLt

theorem index_injective :
    Function.Injective fun p : Fin n × Fin n => rowMajorIndex n (position p) := fun p q equal => by
  simp only [index_eq] at equal
  exact finProdFinEquiv.injective (Fin.ext equal)

theorem holds_rowMajor (a : Fin n → Fin n → F) :
    Flat.Holds (fun p => rowMajorIndex n (position p)) (rowMajor a) fun p => a p.1 p.2 := by
  intro p
  have back : ((finProdFinEquiv p).divNat, (finProdFinEquiv p).modNat) = p :=
    finProdFinEquiv.symm_apply_apply p
  simp only [index_eq, rowMajor]
  rw [Flat.holds_ofFn _ (finProdFinEquiv p)]
  rw [show (finProdFinEquiv p).divNat = p.1 from congrArg Prod.fst back,
    show (finProdFinEquiv p).modNat = p.2 from congrArg Prod.snd back]

/-- The positions of the factorisation loop. -/
theorem positions_eq :
    ((List.range n).flatMap fun i => (List.range (i + 1)).map fun j => (i, j)) =
      (lowerTriangle n).map position := by
  rw [lowerTriangle, List.map_flatMap, ← List.map_coe_finRange_eq_range, List.flatMap_map]
  refine List.flatMap_congr fun i _ => ?_
  rw [← Loop.map_val_below (Nat.succ_le_of_lt i.isLt), List.map_map, List.map_map]
  rfl

theorem subtractProducts_eq {xs ys : List F} {at_ at' : ℕ → ℕ} {u v : Fin n → F}
    (left : ∀ k : Fin n, xs[at_ k]? = some (u k)) (right : ∀ k : Fin n, ys[at' k]? = some (v k))
    (ks : List (Fin n)) (s : F) :
    subtractProducts xs at_ ys at' (ks.map Fin.val) s =
      some (ks.foldl (fun s k => s - u k * v k) s) := by
  rw [subtractProducts, List.foldlM_map]
  refine Loop.foldlM_eq_foldl (fun k _ s => ?_) s
  rw [left, right]
  rfl

/-! ### The factorisation -/

section Real

variable {a : Matrix (Fin n) (Fin n) ℝ}

theorem divide_real {s d : ℝ} (nonzero : d ≠ 0) : divide s d = some (s / d) := by
  have apart : ¬ (d ≤ 0 ∧ 0 ≤ d) := fun both => nonzero (le_antisymm both.1 both.2)
  simp [divide, apart]

/-- One entry of the factor reads in range, and divides by a pivot found positive before. -/
theorem choleskyEntryFlat_eq {done after : List (Fin n × Fin n)} {p : Fin n × Fin n}
    {l : Fin n × Fin n → ℝ} {xs : List ℝ} (split : lowerTriangle n = done ++ p :: after)
    (filled : Loop.Filled (choleskyEntry a) (fun _ => 0) done l)
    (holds : Flat.Holds (fun p => rowMajorIndex n (position p)) xs l) :
    choleskyEntryFlat (rowMajor a) n xs (position p) = some (choleskyEntry a l p) := by
  obtain ⟨i, j⟩ := p
  have inside : j ≤ i :=
    mem_lowerTriangle.mp (show (i, j) ∈ lowerTriangle n by rw [split]; simp)
  have entry : (rowMajor a)[i.val * n + j.val]? = some (a i j) := holds_rowMajor a (i, j)
  have sum : subtractProducts xs (i.val * n + ·) xs (j.val * n + ·) (List.range j) (a i j) =
      some ((Loop.below j).foldl (fun s k => s - l (i, k) * l (j, k)) (a i j)) := by
    rw [← Loop.map_val_below j.isLt.le]
    exact subtractProducts_eq (fun k => holds (i, k)) (fun k => holds (j, k)) _ _
  have pivot : xs[j.val * n + j.val]? = some (l (j, j)) := holds (j, j)
  simp only [choleskyEntryFlat, position, entry, pivot, sum, Option.bind_eq_bind,
    Option.bind_some, choleskyEntry, Fin.val_inj]
  split_ifs with diagonal stop
  · rfl
  · rfl
  · have lower : j < i := lt_of_le_of_ne inside (Ne.symm diagonal)
    have earlier : (j, j) ∈ done := before_lowerTriangle split le_rfl (Or.inl lower)
    have positive : 0 < l (j, j) := (filled_factor filled fun q member =>
      mem_lowerTriangle.mp (by rw [split]; simp [member])).2.1 j earlier
    rw [divide_real positive.ne']
    rfl

/-- **The flat factorisation is that of the matrix.** -/
theorem choleskyFlat_eq (a : Matrix (Fin n) (Fin n) ℝ) :
    (cholesky a = none → choleskyFlat (rowMajor a) n = some none) ∧
      ∀ l, cholesky a = some l → ∃ xs, choleskyFlat (rowMajor a) n = some (some xs) ∧
        Flat.Holds (fun p => rowMajorIndex n (position p)) xs l := by
  have zeros : Flat.Holds (fun p => rowMajorIndex n (position p))
      (List.replicate (n * n) (0 : ℝ)) fun _ => 0 := Flat.holds_replicate index_lt 0
  obtain ⟨stops, fills⟩ := Flat.fill_holds index_injective (choleskyEntry_readsBack a)
    nodup_lowerTriangle
    (fun _ _ _ _ _ split filled holds => choleskyEntryFlat_eq split filled holds) zeros
  rw [choleskyFlat, positions_eq]
  refine ⟨stops, fun l found => ?_⟩
  obtain ⟨xs, eq, holds, _⟩ := fills l found
  exact ⟨xs, eq, holds⟩

/-! ### The substitutions -/

section Solve

variable {l : Fin n × Fin n → ℝ} {ls : List ℝ}

theorem forwardEntryFlat_eq (positive : ∀ p, 0 < factor l p p)
    (factored : Flat.Holds (fun p => rowMajorIndex n (position p)) ls l) {rhs y : Fin n → ℝ}
    {bs ys : List ℝ} (given : Flat.Holds Fin.val bs rhs) (holds : Flat.Holds Fin.val ys y)
    (i : Fin n) : forwardEntryFlat ls bs n ys i = some (forwardEntry l rhs y i) := by
  have sum : subtractProducts ls (i.val * n + ·) ys id (List.range i) (rhs i) =
      some ((Loop.below i).foldl (fun s k => s - l (i, k) * y k) (rhs i)) := by
    rw [← Loop.map_val_below i.isLt.le]
    exact subtractProducts_eq (fun k => factored (i, k)) (fun k => holds k) _ _
  have pivot : ls[i.val * n + i.val]? = some (l (i, i)) := factored (i, i)
  simp only [forwardEntryFlat, given i, sum, pivot, Option.bind_eq_bind, Option.bind_some]
  exact divide_real (positive i).ne'

theorem backEntryFlat_eq (positive : ∀ p, 0 < factor l p p)
    (factored : Flat.Holds (fun p => rowMajorIndex n (position p)) ls l) {y x : Fin n → ℝ}
    {ys xs : List ℝ} (given : Flat.Holds Fin.val ys y) (holds : Flat.Holds Fin.val xs x)
    (i : Fin n) : backEntryFlat ls ys n xs i = some (backEntry l y x i) := by
  have sum : subtractProducts ls (· * n + i.val) xs id (List.range' (i + 1) (n - (i + 1))) (y i) =
      some ((Loop.above i).foldl (fun s k => s - l (k, i) * x k) (y i)) := by
    rw [← Loop.map_val_above i]
    exact subtractProducts_eq (fun k => factored (k, i)) (fun k => holds k) _ _
  have pivot : ls[i.val * n + i.val]? = some (l (i, i)) := factored (i, i)
  simp only [backEntryFlat, given i, sum, pivot, Option.bind_eq_bind, Option.bind_some]
  exact divide_real (positive i).ne'

/-- **The flat substitutions are those of the factor.** -/
theorem solveFlat_eq (positive : ∀ p, 0 < factor l p p)
    (factored : Flat.Holds (fun p => rowMajorIndex n (position p)) ls l) {rhs : Fin n → ℝ}
    {bs : List ℝ} (given : Flat.Holds Fin.val bs rhs) :
    ∃ xs, solveFlat ls n bs = some xs ∧ Flat.Holds Fin.val xs (substitute l rhs) ∧
      xs.length = n := by
  have zeros : Flat.Holds Fin.val (List.replicate n (0 : ℝ)) fun _ : Fin n => 0 :=
    Flat.holds_replicate Fin.isLt 0
  obtain ⟨ys, forward, held, _⟩ := Flat.fillAll_vector
    (fun i y ys holds => forwardEntryFlat_eq positive factored given holds i) (List.finRange n)
    zeros
  obtain ⟨xs, back, held', length⟩ := Flat.fillAll_vector
    (fun i x xs holds => backEntryFlat_eq positive factored held holds i) (List.finRange n).reverse
    zeros
  refine ⟨xs, ?_, held', by rw [length, List.length_replicate]⟩
  rw [List.map_coe_finRange_eq_range] at forward
  rw [List.map_reverse, List.map_coe_finRange_eq_range] at back
  rw [solveFlat, forward]
  exact back

/-- **The loop over the unit vectors**, from where it has come to: `e` is zero again after every
turn. -/
theorem foldlM_diagTurn (positive : ∀ p, 0 < factor l p p)
    (factored : Flat.Holds (fun p => rowMajorIndex n (position p)) ls l) (order : List (Fin n))
    {es ds : List ℝ} {d : Fin n → ℝ} (zero : Flat.Holds Fin.val es fun _ : Fin n => 0)
    (holds : Flat.Holds Fin.val ds d) :
    ∃ es' ds', (order.map Fin.val).foldlM (diagTurn ls n) (es, ds) = some (es', ds') ∧
      Flat.Holds Fin.val ds' (Loop.fillAll
        (fun _ i => substitute l (Function.update (fun _ => 0) i 1) i) order d) ∧
      ds'.length = ds.length := by
  induction order generalizing es ds d with
  | nil => exact ⟨es, ds, rfl, holds, rfl⟩
  | cons i order ih =>
    obtain ⟨unit, put, holdsUnit, _⟩ := zero.put Fin.val_injective i 1
    obtain ⟨column, solved, holdsColumn, _⟩ := solveFlat_eq positive factored holdsUnit
    obtain ⟨ds', put', holds', length⟩ := holds.put Fin.val_injective i
      (substitute l (Function.update (fun _ => 0) i 1) i)
    obtain ⟨es', put'', zero', _⟩ := holdsUnit.put Fin.val_injective i 0
    rw [Function.update_idem, Function.update_eq_self] at zero'
    obtain ⟨es'', ds'', rest, final, length'⟩ := ih zero' holds'
    refine ⟨es'', ds'', ?_, final, length'.trans length⟩
    have turn : diagTurn ls n (es, ds) i = some (es', ds') := by
      simp only [diagTurn, put, solved, holdsColumn i, put', put'', Option.bind_eq_bind,
        Option.bind_some]
      rfl
    rw [List.map_cons, List.foldlM_cons, turn]
    exact rest

end Solve

/-- A positive definite system goes through, as `spdSolve` does. -/
theorem spdSolveFlat_some {l : Fin n × Fin n → ℝ} (eq : cholesky a = some l)
    (positive : ∀ p, 0 < factor l p p) (b : Fin n → ℝ) :
    ∃ x d, spdSolve a b = some (x, d) ∧
      spdSolveFlat (rowMajor a) (List.ofFn b) n = some (some (List.ofFn x, List.ofFn d)) := by
  obtain ⟨ls, factored, held⟩ := (choleskyFlat_eq a).2 l eq
  obtain ⟨xs, solved, holdsX, lengthX⟩ := solveFlat_eq positive held (Flat.holds_ofFn b)
  have zeros : Flat.Holds Fin.val (List.replicate n (0 : ℝ)) fun _ : Fin n => 0 :=
    Flat.holds_replicate Fin.isLt 0
  obtain ⟨es, ds, turns, holdsD, lengthD⟩ :=
    foldlM_diagTurn positive held (List.finRange n) zeros zeros
  rw [List.map_coe_finRange_eq_range] at turns
  rw [List.length_replicate] at lengthD
  have diag : (Loop.fillAll (fun _ i => substitute l (Function.update (fun _ => 0) i 1) i)
      (List.finRange n) fun _ => 0) =
      fun i => substitute l (Function.update (fun _ => 0) i 1) i := by
    ext i
    exact Loop.fillAll_spec (fun _ _ _ _ _ _ _ => rfl) (List.nodup_finRange n) (fun _ => 0) i
      (List.mem_finRange i)
  rw [diag] at holdsD
  refine ⟨_, _, by simp only [spdSolve, eq, Option.bind_eq_bind, Option.bind_some]; rfl, ?_⟩
  rw [← Flat.eq_ofFn holdsX lengthX, ← Flat.eq_ofFn holdsD lengthD]
  simp only [spdSolveFlat, factored, solved, turns, Option.bind_eq_bind, Option.bind_some]
  rfl

/-- **`spd_solve` on every symmetric system**: it returns `None` exactly when the matrix is not
positive definite, and else the solution and the diagonal of the inverse. No index is out of range
and no divisor is zero. -/
theorem spdSolveFlat_spec (symm : aᵀ = a) (b : Fin n → ℝ) :
    (spdSolveFlat (rowMajor a) (List.ofFn b) n = some none ↔ ¬ a.PosDef) ∧
      (a.PosDef → ∃ x d, spdSolveFlat (rowMajor a) (List.ofFn b) n =
          some (some (List.ofFn x, List.ofFn d)) ∧
        a *ᵥ x = b ∧ ∀ i, d i = a⁻¹ i i) := by
  obtain ⟨l, eq, lower, positive, factored⟩ | ⟨eq, notPosDef⟩ := cholesky_spec symm
  · obtain ⟨x, d, solved, flat⟩ := spdSolveFlat_some eq positive b
    have posDef : a.PosDef := factored ▸ lower.posDef fun p => (positive p).ne'
    refine ⟨⟨fun none => absurd (flat.symm.trans none) (by simp), fun not => absurd posDef not⟩,
      fun _ => ⟨x, d, flat, ?_⟩⟩
    obtain ⟨x', d', solved', solution, inverse⟩ := spdSolve_spec posDef b
    obtain ⟨rfl, rfl⟩ : x = x' ∧ d = d' := by simpa [solved] using solved'
    exact ⟨solution, inverse⟩
  · have stopped : spdSolveFlat (rowMajor a) (List.ofFn b) n = some none := by
      simp only [spdSolveFlat, (choleskyFlat_eq a).1 eq, Option.bind_eq_bind, Option.bind_some]
      rfl
    exact ⟨⟨fun _ => notPosDef, fun _ => stopped⟩, fun posDef => absurd posDef notPosDef⟩

/-- A system of two unknowns. -/
theorem spdSolveFlat_spec_two :
    let a : Matrix (Fin 2) (Fin 2) ℝ := !![2, 1; 1, 2]
    (spdSolveFlat (rowMajor a) (List.ofFn ![1, 2]) 2 = some none ↔ ¬ a.PosDef) ∧
      (a.PosDef → ∃ x d, spdSolveFlat (rowMajor a) (List.ofFn ![1, 2]) 2 =
          some (some (List.ofFn x, List.ofFn d)) ∧
        a *ᵥ x = ![1, 2] ∧ ∀ i, d i = a⁻¹ i i) :=
  spdSolveFlat_spec (by ext i j; fin_cases i <;> fin_cases j <;> rfl) _

end Real

end Rtfsn
