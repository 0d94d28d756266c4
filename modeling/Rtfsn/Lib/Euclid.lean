/-
Coefficients of the extended Euclidean algorithm.

Each remainder of `n` and `m` comes with the coefficient of `n` in it, modulo `m`. Two that follow
each other have coefficients of opposite signs.

* `Balanced`: the products of each remainder with the other's coefficient add up to `m`, and the
  later coefficient does not outgrow it. A division keeps this (`Balanced.next`).
* `mul_gcdB_modEq`: the last coefficient inverts `n`, if anything does.
-/
import Mathlib.Data.Int.GCD
import Mathlib.Data.Int.ModEq
import Mathlib.Tactic.Linarith
import Mathlib.Tactic.Ring

namespace Rtfsn.Euclid

/-- Two remainders that follow each other, with their coefficients. -/
structure Balanced (m r' : ℕ) (s' : ℤ) (r : ℕ) (s : ℤ) : Prop where
  signs : (0 ≤ s' ∧ s ≤ 0) ∨ (s' ≤ 0 ∧ 0 ≤ s)
  total : r' * s.natAbs + r * s'.natAbs = m
  last : s.natAbs ≤ m

theorem Balanced.start (m n : ℕ) : Balanced m n 1 m 0 where
  signs := .inl ⟨zero_le_one, le_rfl⟩
  total := by simp
  last := Nat.zero_le m

/-- Coefficients of opposite signs do not cancel. -/
theorem natAbs_sub_mul {s' s : ℤ} (signs : (0 ≤ s' ∧ s ≤ 0) ∨ (s' ≤ 0 ∧ 0 ≤ s)) (q : ℕ) :
    (s' - q * s).natAbs = s'.natAbs + q * s.natAbs := by
  rw [← Int.natAbs_natCast q, ← Int.natAbs_mul, Int.natAbs_natCast, sub_eq_add_neg]
  rcases signs with ⟨pos, neg⟩ | ⟨neg, pos⟩
  · have product : (q : ℤ) * s ≤ 0 := mul_nonpos_of_nonneg_of_nonpos q.cast_nonneg neg
    omega
  · have product : 0 ≤ (q : ℤ) * s := mul_nonneg q.cast_nonneg pos
    omega

variable {m r' r : ℕ} {s' s : ℤ}

/-- **A division** keeps the balance. -/
theorem Balanced.next (balanced : Balanced m r' s' r s) (pos : 0 < r) :
    Balanced m r s (r' % r) (s' - (r' / r : ℕ) * s) := by
  have magnitude := natAbs_sub_mul balanced.signs (r' / r)
  have total : r * (s' - (r' / r : ℕ) * s).natAbs + r' % r * s.natAbs = m := by
    rw [magnitude]
    calc r * (s'.natAbs + r' / r * s.natAbs) + r' % r * s.natAbs
        = (r * (r' / r) + r' % r) * s.natAbs + r * s'.natAbs := by ring
      _ = m := by rw [Nat.div_add_mod, balanced.total]
  refine ⟨?_, total, ?_⟩
  · rcases balanced.signs with ⟨pos', neg⟩ | ⟨neg, pos'⟩
    · have product := mul_nonpos_of_nonneg_of_nonpos (Nat.cast_nonneg (α := ℤ) (r' / r)) neg
      exact .inr ⟨neg, by omega⟩
    · have product := mul_nonneg (Nat.cast_nonneg (α := ℤ) (r' / r)) pos'
      exact .inl ⟨pos', by omega⟩
  · calc (s' - (r' / r : ℕ) * s).natAbs
        ≤ r * (s' - (r' / r : ℕ) * s).natAbs := Nat.le_mul_of_pos_left _ pos
      _ ≤ m := total ▸ Nat.le_add_right _ _

/-- The product that a division subtracts. -/
theorem Balanced.product_le (balanced : Balanced m r' s' r s) (pos : 0 < r) :
    r' / r * s.natAbs ≤ m := by
  have last := (balanced.next pos).last
  rw [natAbs_sub_mul balanced.signs] at last
  exact (Nat.le_add_left _ _).trans last

/-- **The coefficient of the greatest common divisor is an inverse**, where that is one. -/
theorem mul_gcdB_modEq {m n : ℕ} (coprime : m.gcd n = 1) : n * m.gcdB n ≡ 1 [ZMOD m] := by
  have bezout := Nat.gcd_eq_gcd_ab m n
  rw [coprime, Nat.cast_one] at bezout
  refine Int.modEq_iff_dvd.mpr ⟨m.gcdA n, ?_⟩
  rw [bezout, add_sub_cancel_right]

end Rtfsn.Euclid
