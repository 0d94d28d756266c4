/-
Integer arithmetic that minds its range.

* `checked…`: the plain operators. A build with overflow checks panics where the result does not
  fit, which is `none` here.
* `saturating…`, `absDiff`: the methods of these names.

The `i64` of the holonomy code is an integer, as in the tables it reads, and so is an `i128`. A
`u64` whose bytes are hashed or sent is a `UInt64`.
-/
import Rtfsn.Numbers

namespace Rtfsn

/-! ### `i64` -/

/-- The values of an `i64`. -/
def IsI64 (z : ℤ) : Prop := -2 ^ 63 ≤ z ∧ z ≤ maxI64

instance (z : ℤ) : Decidable (IsI64 z) := inferInstanceAs (Decidable (_ ∧ _))

def checkedI64 (z : ℤ) : Option ℤ := if IsI64 z then some z else none

/-- The `i64` nearest to `z`. -/
def saturateI64 (z : ℤ) : ℤ := max (-2 ^ 63) (min z maxI64)

def saturatingAddI64 (a b : ℤ) : ℤ := saturateI64 (a + b)

def saturatingSubI64 (a b : ℤ) : ℤ := saturateI64 (a - b)

theorem checkedI64_eq_some {z r : ℤ} : checkedI64 z = some r ↔ IsI64 z ∧ z = r := by
  unfold checkedI64
  by_cases fits : IsI64 z <;> simp [fits]

theorem isI64_saturateI64 (z : ℤ) : IsI64 (saturateI64 z) := by
  unfold IsI64 saturateI64 maxI64
  omega

theorem saturateI64_of_isI64 {z : ℤ} (fits : IsI64 z) : saturateI64 z = z := by
  unfold saturateI64 IsI64 at *
  omega

/-- The value itself when it fits, else the end of the range on its side. -/
theorem saturateI64_cases (z : ℤ) :
    (IsI64 z ∧ saturateI64 z = z) ∨ (maxI64 < z ∧ saturateI64 z = maxI64) ∨
      (z < -2 ^ 63 ∧ saturateI64 z = -2 ^ 63) := by
  unfold IsI64 saturateI64 maxI64
  omega

/-- A value that fits is the only one that `as i64` keeps. -/
theorem wrapI64_eq_iff {z : ℤ} : wrapI64 z = z ↔ IsI64 z := by
  unfold wrapI64 IsI64 maxI64
  constructor
  · intro kept
    have lower : -(2 ^ 64 / 2) ≤ z.bmod (2 ^ 64) := Int.le_bmod (by norm_num)
    have upper : z.bmod (2 ^ 64) < (2 ^ 64 + 1) / 2 := Int.bmod_lt (by norm_num)
    omega
  · intro fits
    exact Int.bmod_eq_of_le (by omega) (by omega)

/-- Half, rounded toward zero. -/
theorem tdiv_two_cases (z : ℤ) :
    (0 ≤ z ∧ z.tdiv 2 = z / 2) ∨ (z < 0 ∧ z.tdiv 2 = -(-z / 2)) := by
  rw [Int.tdiv_eq_ediv, show Int.sign 2 = 1 from rfl]
  split_ifs <;> omega

/-- Half of an `i64`, rounded toward zero. -/
theorem IsI64.half {z : ℤ} (fits : IsI64 z) : IsI64 (z.tdiv 2) := by
  have halves := tdiv_two_cases z
  unfold IsI64 maxI64 at *
  omega

/-! ### `i128` -/

/-- The values of an `i128`. -/
def IsI128 (z : ℤ) : Prop := -2 ^ 127 ≤ z ∧ z < 2 ^ 127

instance (z : ℤ) : Decidable (IsI128 z) := inferInstanceAs (Decidable (_ ∧ _))

def checkedI128 (z : ℤ) : Option ℤ := if IsI128 z then some z else none

theorem checkedI128_of_fits {z : ℤ} (fits : IsI128 z) : checkedI128 z = some z := if_pos fits

/-- `a % b`, which panics on zero. -/
def remI128 (a b : ℤ) : Option ℤ := if b = 0 then none else some (a.tmod b)

/-! ### `u64` -/

/-- The values of a `u64`. -/
def IsU64 (z : ℤ) : Prop := 0 ≤ z ∧ z ≤ maxU64

instance (z : ℤ) : Decidable (IsU64 z) := inferInstanceAs (Decidable (_ ∧ _))

/-- A `u64` operation on values kept as natural numbers. -/
def checkedU64 (z : ℤ) : Option ℕ := if IsU64 z then some z.toNat else none

/-- A value that fits is the only one that `as u64` keeps. -/
theorem wrapU64_eq_iff {z : ℤ} : (wrapU64 z : ℤ) = z ↔ IsU64 z := by
  unfold wrapU64 IsU64 maxU64
  omega

theorem wrapU64_le (z : ℤ) : wrapU64 z ≤ maxU64 := by
  unfold wrapU64 maxU64
  omega

/-- A difference of natural numbers in range. -/
theorem checkedU64_sub {a b : ℕ} (below : b ≤ a) (fits : a ≤ maxU64) :
    checkedU64 (a - b : ℤ) = some (a - b) := by
  rw [checkedU64, if_pos ⟨by omega, by omega⟩]
  congr 1
  omega

theorem checkedU64_natCast {n : ℕ} (fits : n ≤ maxU64) : checkedU64 n = some n :=
  if_pos ⟨by omega, by exact_mod_cast fits⟩

theorem checkedU64_eq (n : ℕ) : checkedU64 n = if n < 2 ^ 64 then some n else none := by
  by_cases fits : n < 2 ^ 64
  · rw [if_pos fits, checkedU64_natCast (Nat.le_sub_one_of_lt fits)]
  · rw [if_neg fits, checkedU64, if_neg]
    unfold IsU64 maxU64
    omega

/-- **A chain of additions** fits exactly when its total does. -/
theorem foldlM_checkedU64 (terms : List ℕ) {start : ℕ} (fits : start < 2 ^ 64) :
    terms.foldlM (fun sum term => checkedU64 (sum + term : ℕ)) start =
      if start + terms.sum < 2 ^ 64 then some (start + terms.sum) else none := by
  induction terms generalizing start with
  | nil =>
    rw [List.foldlM_nil, List.sum_nil, add_zero, if_pos fits]
    rfl
  | cons term rest ih =>
    rw [List.foldlM_cons, checkedU64_eq, List.sum_cons, ← add_assoc]
    by_cases next : start + term < 2 ^ 64
    · rw [if_pos next]
      exact ih next
    · rw [if_neg next, if_neg (by omega)]
      rfl

/-- A chain of multiplications by positive factors fits when its product does. -/
theorem foldlM_checkedU64_mul {factors : List ℕ} (pos : ∀ factor ∈ factors, 0 < factor) {start : ℕ}
    (fits : start * factors.prod < 2 ^ 64) :
    factors.foldlM (fun product factor => checkedU64 (product * factor : ℕ)) start =
      some (start * factors.prod) := by
  induction factors generalizing start with
  | nil =>
    rw [List.foldlM_nil, List.prod_nil, mul_one]
    rfl
  | cons factor rest ih =>
    obtain ⟨_, others⟩ := List.forall_mem_cons.mp pos
    rw [List.prod_cons, ← mul_assoc] at fits ⊢
    have next : start * factor < 2 ^ 64 :=
      (Nat.le_mul_of_pos_right _ (List.prod_pos others)).trans_lt fits
    rw [List.foldlM_cons, checkedU64_eq, if_pos next]
    exact ih others fits

/-- `a / b`, which panics on zero. -/
def divU64 (a b : ℕ) : Option ℕ := if b = 0 then none else some (a / b)

/-- `a % b`, which panics on zero. -/
def remU64 (a b : ℕ) : Option ℕ := if b = 0 then none else some (a % b)

namespace U64

def checkedAdd (a b : UInt64) : Option UInt64 :=
  if a.toNat + b.toNat < 2 ^ 64 then some (a + b) else none

def checkedSub (a b : UInt64) : Option UInt64 := if b ≤ a then some (a - b) else none

def checkedMul (a b : UInt64) : Option UInt64 :=
  if a.toNat * b.toNat < 2 ^ 64 then some (a * b) else none

def saturatingSub (a b : UInt64) : UInt64 := if b ≤ a then a - b else 0

def absDiff (a b : UInt64) : UInt64 := if b ≤ a then a - b else b - a

theorem checkedAdd_eq_some {a b r : UInt64} :
    checkedAdd a b = some r ↔ a.toNat + b.toNat = r.toNat := by
  unfold checkedAdd
  by_cases fits : a.toNat + b.toNat < 2 ^ 64
  · rw [if_pos fits, Option.some.injEq, ← UInt64.toNat_inj, UInt64.toNat_add, Nat.mod_eq_of_lt fits]
  · have small := r.toNat_lt
    rw [if_neg fits]
    constructor
    · intro impossible
      cases impossible
    · intro equal
      omega

/-- A sum that fits. -/
theorem exists_checkedAdd {a b : UInt64} (fits : a.toNat + b.toNat < 2 ^ 64) :
    ∃ r, checkedAdd a b = some r ∧ r.toNat = a.toNat + b.toNat :=
  ⟨a + b, if_pos fits, by rw [UInt64.toNat_add, Nat.mod_eq_of_lt fits]⟩

/-- A product that fits. -/
theorem exists_checkedMul {a b : UInt64} (fits : a.toNat * b.toNat < 2 ^ 64) :
    ∃ r, checkedMul a b = some r ∧ r.toNat = a.toNat * b.toNat :=
  ⟨a * b, if_pos fits, by rw [UInt64.toNat_mul, Nat.mod_eq_of_lt fits]⟩

theorem checkedSub_eq_some {a b r : UInt64} :
    checkedSub a b = some r ↔ a.toNat = b.toNat + r.toNat := by
  unfold checkedSub
  by_cases fits : b ≤ a
  · have below := UInt64.le_iff_toNat_le.mp fits
    rw [if_pos fits, Option.some.injEq, ← UInt64.toNat_inj, UInt64.toNat_sub_of_le _ _ fits]
    omega
  · have above := mt UInt64.le_iff_toNat_le.mpr fits
    rw [if_neg fits]
    constructor
    · intro impossible
      cases impossible
    · intro equal
      omega

/-- A difference that does not underflow. -/
theorem exists_checkedSub {a b : UInt64} (fits : b ≤ a) :
    ∃ r, checkedSub a b = some r ∧ a.toNat = b.toNat + r.toNat :=
  ⟨a - b, if_pos fits, checkedSub_eq_some.mp (if_pos fits)⟩

theorem checkedSub_eq_none {a b : UInt64} : checkedSub a b = none ↔ a < b := by
  unfold checkedSub
  by_cases fits : b ≤ a
  · simp [fits]
  · simp [fits, UInt64.not_le.mp fits]

theorem toNat_saturatingSub (a b : UInt64) :
    (saturatingSub a b).toNat = a.toNat - b.toNat := by
  unfold saturatingSub
  by_cases fits : b ≤ a
  · rw [if_pos fits, UInt64.toNat_sub_of_le _ _ fits]
  · have above := mt UInt64.le_iff_toNat_le.mpr fits
    rw [if_neg fits, UInt64.toNat_zero]
    omega

theorem toNat_absDiff (a b : UInt64) :
    (absDiff a b).toNat = (a.toNat - b.toNat) + (b.toNat - a.toNat) := by
  unfold absDiff
  by_cases fits : b ≤ a
  · have below := UInt64.le_iff_toNat_le.mp fits
    rw [if_pos fits, UInt64.toNat_sub_of_le _ _ fits]
    omega
  · have above := mt UInt64.le_iff_toNat_le.mpr fits
    rw [if_neg fits, UInt64.toNat_sub_of_le _ _ (UInt64.le_of_lt (UInt64.not_le.mp fits))]
    omega

theorem toNat_max (a b : UInt64) : (max a b).toNat = max a.toNat b.toNat := by
  show (if a ≤ b then b else a).toNat = _
  by_cases below : a ≤ b
  · rw [if_pos below, max_eq_right (UInt64.le_iff_toNat_le.mp below)]
  · have above := UInt64.le_of_lt (UInt64.not_le.mp below)
    rw [if_neg below, max_eq_left (UInt64.le_iff_toNat_le.mp above)]

end U64

end Rtfsn
