/-
The numbers of the crate.

* `F64`: the operations of `f64` that the crate uses, with no law attached. Everything the model
  defines over a type with these operations reads the source once; a statement proved for every
  such type holds of IEEE arithmetic, NaN and rounding included.
* `realF64`: the exact reading of `f64` at the real numbers. A statement about exact reals is a
  statement about this instance; the `simp` lemmas below turn its operations into Mathlib's.
* `wrapU64`, `wrapI64`: the wrapping of `as u64` and `as i64`, and of `+` and `-` in a release
  build. A `u64` is a natural number and an `i64` an integer.
-/
import Mathlib

namespace Rtfsn

/-- The operations of `f64` the crate uses. -/
class F64 (F : Type) extends Zero F, One F, Add F, Sub F, Mul F, Div F, Neg F where
  /-- A decimal literal. -/
  lit : ℚ → F
  /-- `as f64` of an unsigned integer. -/
  ofNat : ℕ → F
  /-- `as f64` of a signed integer. -/
  ofInt : ℤ → F
  /-- `as u64`: toward zero, saturating. -/
  toU64 : F → ℕ
  /-- `as i64`: toward zero, saturating. -/
  toI64 : F → ℤ
  /-- The comparison `<`. -/
  lt : F → F → Bool
  /-- The comparison `<=`. -/
  le : F → F → Bool
  /-- `total_cmp` is not `Greater`. -/
  totalLe : F → F → Bool
  /-- `is_finite`. -/
  isFinite : F → Bool
  /-- `f64::max`. -/
  max : F → F → F
  /-- `abs`. -/
  abs : F → F
  /-- `powi`, for the exponents the crate raises to. -/
  powi : F → ℕ → F
  /-- `sqrt`. -/
  sqrt : F → F
  /-- `exp`. -/
  exp : F → F
  /-- `exp_m1`. -/
  expM1 : F → F
  /-- `ln_1p`. -/
  ln1p : F → F

/-- `f64` read as exact reals. -/
noncomputable instance realF64 : F64 ℝ where
  lit q := q
  ofNat n := n
  ofInt z := z
  toU64 x := min ⌊x⌋.toNat (2 ^ 64 - 1)
  toI64 x := Max.max (-2 ^ 63) (min (if 0 ≤ x then ⌊x⌋ else ⌈x⌉) (2 ^ 63 - 1))
  lt x y := decide (x < y)
  le x y := decide (x ≤ y)
  totalLe x y := decide (x ≤ y)
  isFinite _ := true
  max := Max.max
  abs x := |x|
  powi x n := x ^ n
  sqrt := Real.sqrt
  exp := Real.exp
  expM1 x := Real.exp x - 1
  ln1p x := Real.log (1 + x)

/-- The operations of `f64` that only coordinates need. -/
class F64Coord (F : Type) extends F64 F where
  /-- `floor`. -/
  floor : F → F
  /-- `signum`: one or minus one. -/
  signum : F → F

noncomputable instance realF64Coord : F64Coord ℝ where
  floor x := ⌊x⌋
  signum x := if 0 ≤ x then 1 else -1

namespace F64

/-- `sum`: from the left, starting at `-0.0`. -/
def sum {F : Type} [F64 F] (xs : List F) : F := xs.foldl (· + ·) (-0)

/-! ### The exact reading -/

@[simp] theorem lit_real (q : ℚ) : (lit q : ℝ) = q := rfl

@[simp] theorem ofNat_real (n : ℕ) : (F64.ofNat n : ℝ) = n := rfl

@[simp] theorem ofInt_real (z : ℤ) : (ofInt z : ℝ) = z := rfl

@[simp] theorem lt_real (x y : ℝ) : lt x y = decide (x < y) := rfl

@[simp] theorem le_real (x y : ℝ) : le x y = decide (x ≤ y) := rfl

@[simp] theorem totalLe_real (x y : ℝ) : totalLe x y = decide (x ≤ y) := rfl

@[simp] theorem isFinite_real (x : ℝ) : isFinite x = true := rfl

@[simp] theorem max_real (x y : ℝ) : F64.max x y = Max.max x y := rfl

@[simp] theorem abs_real (x : ℝ) : F64.abs x = |x| := rfl

@[simp] theorem powi_real (x : ℝ) (n : ℕ) : powi x n = x ^ n := rfl

@[simp] theorem sqrt_real (x : ℝ) : F64.sqrt x = Real.sqrt x := rfl

@[simp] theorem exp_real (x : ℝ) : F64.exp x = Real.exp x := rfl

@[simp] theorem expM1_real (x : ℝ) : expM1 x = Real.exp x - 1 := rfl

@[simp] theorem floor_real (x : ℝ) : F64Coord.floor x = (⌊x⌋ : ℝ) := rfl

@[simp] theorem signum_real (x : ℝ) : F64Coord.signum x = if 0 ≤ x then 1 else -1 := rfl

@[simp] theorem sum_real (xs : List ℝ) : F64.sum xs = xs.sum := by
  unfold F64.sum
  rw [neg_zero, List.sum_eq_foldl]

end F64

/-! ### Indices and numerals

Facts that instance search would prove again in every definition that needs them. -/

instance atLeastTwo : Nat.AtLeastTwo 2 := inferInstance

instance finLeTrans {n : ℕ} : IsTrans (Fin n) (· ≤ ·) := inferInstance

instance finLeAntisymm {n : ℕ} : Std.Antisymm (α := Fin n) (· ≤ ·) := inferInstance

instance finLeTotal {n : ℕ} : Std.Total (α := Fin n) (· ≤ ·) := inferInstance

instance finPairTransOrd {n : ℕ} : Std.TransOrd (Fin n ×ₗ Fin n) := inferInstance

/-! ### Machine integers -/

/-- `as u64` of a wider integer, and a `u64` result in a release build. -/
def wrapU64 (z : ℤ) : ℕ := (z % 2 ^ 64).toNat

/-- `as i64` of a wider integer, and an `i64` result in a release build. -/
def wrapI64 (z : ℤ) : ℤ := z.bmod (2 ^ 64)

/-- The largest `u64`. -/
def maxU64 : ℕ := 2 ^ 64 - 1

/-- The largest `i64`. -/
def maxI64 : ℤ := 2 ^ 63 - 1

end Rtfsn
