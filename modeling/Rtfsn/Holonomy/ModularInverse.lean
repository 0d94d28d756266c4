/-
**The inverse is found exactly where there is one.**

The loop divides as Euclid does, and its coefficients alternate in sign.

* `turn_next`: no turn overflows, since the coefficients stay balanced (`Euclid.Balanced`).
* `repeatUntil_turn`: the loop ends, with the greatest common divisor and its coefficient.
* `modInverse_spec`: what is returned.
-/
import Rtfsn.Holonomy.Samr
import Rtfsn.Lib.Euclid

namespace Rtfsn

namespace ModInverse

open Euclid (Balanced)

variable {a m r' r : ℕ} {s' s : ℤ}

theorem isI128_of_natAbs_le {z : ℤ} (small : z.natAbs ≤ maxU64) : IsI128 z := by
  unfold maxU64 at small
  unfold IsI128
  omega

theorem subMul_of_fits {x q y : ℤ} (product : IsI128 (q * y)) (fits : IsI128 (x - q * y)) :
    subMul x q y = some (x - q * y) := by
  rw [subMul, checkedI128_of_fits product, Option.bind_eq_bind, Option.bind_some,
    checkedI128_of_fits fits]

/-- **A turn is a division** of the remainders, and does not overflow. -/
theorem turn_next (balanced : Balanced m r' s' r s) (pos : 0 < r) (left : r' ≤ maxU64)
    (modulus : m ≤ maxU64) :
    turn ⟨r', r, s', s⟩ = some (.inl ⟨r, (r' % r : ℕ), s, s' - (r' / r : ℕ) * s⟩) := by
  have some : (r : ℤ) ≠ 0 := by exact_mod_cast pos.ne'
  have quotient : (r' : ℤ).tdiv r = (r' / r : ℕ) := Int.ofNat_tdiv r' r
  have quotientFits : IsI128 (r' / r : ℕ) :=
    isI128_of_natAbs_le ((Nat.div_le_self r' r).trans left)
  have remainder : (r' : ℤ) - (r' / r : ℕ) * r = (r' % r : ℕ) := by
    have split : ((r' / r : ℕ) : ℤ) * r + (r' % r : ℕ) = r' := by
      exact_mod_cast Nat.div_add_mod' r' r
    linarith
  have division : subMul r' (r' / r : ℕ) r = Option.some ((r' % r : ℕ) : ℤ) := by
    rw [← remainder]
    refine subMul_of_fits (isI128_of_natAbs_le ?_) (isI128_of_natAbs_le ?_)
    · exact (Nat.div_mul_le_self r' r).trans left
    · rw [remainder]
      exact (Nat.mod_le r' r).trans left
  have coefficient : subMul s' (r' / r : ℕ) s = Option.some (s' - (r' / r : ℕ) * s) := by
    refine subMul_of_fits (isI128_of_natAbs_le ?_) (isI128_of_natAbs_le ?_)
    · rw [Int.natAbs_mul, Int.natAbs_natCast]
      exact (balanced.product_le pos).trans modulus
    · exact (balanced.next pos).last.trans modulus
  rw [turn, if_neg some, quotient, checkedI128_of_fits quotientFits, Option.bind_eq_bind,
    Option.bind_some, division, Option.bind_some, coefficient]
  rfl

/-- A state on the way to the greatest common divisor of `m` and `a`. -/
def OnTheWay (a m : ℕ) (x : Remainders) : Prop :=
  ∃ (r' r : ℕ) (s' s t' t : ℤ), x = ⟨r', r, s', s⟩ ∧ Balanced m r' s' r s ∧
    r' ≤ maxU64 ∧ r ≤ maxU64 ∧ Nat.xgcdAux r t s r' t' s' = (m.gcd a, m.xgcd a)

/-- **The loop** ends with the greatest common divisor and its coefficient. -/
theorem repeatUntil_turn (left : a ≤ maxU64) (modulus : m ≤ maxU64) {fuel : ℕ}
    (enough : m < fuel) :
    Loop.repeatUntil turn fuel ⟨a, m, 1, 0⟩ = .ok ((m.gcd a : ℤ), m.gcdB a) := by
  have start : OnTheWay a m ⟨a, m, 1, 0⟩ :=
    ⟨a, m, 1, 0, 0, 1, rfl, .start m a, left, modulus, Nat.xgcdAux_val m a⟩
  have keep : ∀ x, OnTheWay a m x →
      (∃ result, turn x = some (.inr result) ∧ result = ((m.gcd a : ℤ), m.gcdB a)) ∨
      ∃ x', turn x = some (.inl x') ∧ OnTheWay a m x' ∧ x'.r.natAbs < x.r.natAbs := by
    rintro _ ⟨r', r, s', s, t', t, rfl, balanced, fits', fits, auxiliary⟩
    rcases r.eq_zero_or_pos with rfl | more
    · rw [Nat.xgcd_zero_left, Prod.mk.injEq] at auxiliary
      obtain ⟨divisor, coefficients⟩ := auxiliary
      have coefficient : s' = m.gcdB a := congrArg Prod.snd coefficients
      subst divisor coefficient
      exact .inl ⟨_, if_pos rfl, rfl⟩
    · rw [Nat.xgcdAux_rec more] at auxiliary
      refine .inr ⟨_, turn_next balanced more fits' modulus,
        ⟨r, r' % r, s, s' - (r' / r : ℕ) * s, t, t' - r' / r * t, rfl, balanced.next more, fits,
          (Nat.mod_lt r' more).le.trans fits, ?_⟩, Nat.mod_lt r' more⟩
      exact_mod_cast auxiliary
  obtain ⟨result, rfl, ends⟩ :=
    Loop.repeatUntil_ends (fun x : Remainders => x.r.natAbs) keep start
  exact ends fuel enough

/-- The residue that is not negative. -/
theorem tmod_add_tmod (z : ℤ) (pos : 0 < m) : (z.tmod m + m).tmod m = z % m := by
  have above : -(m : ℤ) < z.tmod m := Int.lt_tmod_of_pos z (by exact_mod_cast pos)
  rw [Int.tmod_eq_emod_of_nonneg (by omega), Int.add_emod_right, Int.tmod_def]
  exact Int.sub_mul_emod_self_left z m _

/-- What is returned for a coefficient. -/
theorem residue_eq (z : ℤ) (pos : 0 < m) (modulus : m ≤ maxU64) :
    (do
      let least ← remI128 z m
      let shifted ← checkedI128 (least + m)
      let inverse ← remI128 shifted m
      return some (wrapU64 inverse)) = some (some (z % m).toNat) := by
  have nonzero : (m : ℤ) ≠ 0 := by exact_mod_cast pos.ne'
  have nonneg : 0 ≤ z % m := Int.emod_nonneg z nonzero
  have below : z % m < m := Int.emod_lt_of_pos z (by exact_mod_cast pos)
  have shifted : IsI128 (z.tmod m + m) := by
    have above := Int.lt_tmod_of_pos z (show (0 : ℤ) < m by exact_mod_cast pos)
    have under := Int.tmod_lt_of_pos z (show (0 : ℤ) < m by exact_mod_cast pos)
    unfold maxU64 at modulus
    unfold IsI128
    omega
  have kept : wrapU64 (z % m) = (z % m).toNat := by
    unfold wrapU64
    unfold maxU64 at modulus
    rw [Int.emod_eq_of_lt nonneg (by omega)]
  simp only [remI128, if_neg nonzero, checkedI128_of_fits shifted, tmod_add_tmod z pos, kept,
    Option.bind_eq_bind, Option.bind_some, Option.pure_def]

/-- A residue inverts what its number does. -/
theorem residue_inverts {z : ℤ} (two : 2 ≤ m) (inverse : a * z ≡ 1 [ZMOD m]) :
    (z % m).toNat < m ∧ a * (z % m).toNat % m = 1 := by
  have nonzero : (m : ℤ) ≠ 0 := by
    have pos : (2 : ℤ) ≤ m := by exact_mod_cast two
    omega
  have residue : ((z % m).toNat : ℤ) = z % m := Int.toNat_of_nonneg (Int.emod_nonneg z nonzero)
  have below : z % m < m := Int.emod_lt_of_pos z (by omega)
  have product : a * (z % m).toNat ≡ 1 [MOD m] := by
    refine Int.natCast_modEq_iff.mp ?_
    push_cast [residue]
    exact ((Int.mod_modEq z m).mul_left a).trans inverse
  exact ⟨by omega, Eq.trans product (Nat.mod_eq_of_lt two)⟩

end ModInverse

/-- **The modular inverse.** It is computed without an overflow, and found exactly where the numbers
have no common divisor. -/
theorem modInverse_spec {a m fuel : ℕ} (left : a ≤ maxU64) (two : 2 ≤ m) (modulus : m ≤ maxU64)
    (enough : m < fuel) :
    ∃ result, modInverse fuel a m = some result ∧ (result.isSome ↔ a.gcd m = 1) ∧
      ∀ x ∈ result, x < m ∧ a * x % m = 1 := by
  have pos : 0 < m := by omega
  have notOne : m ≠ 1 := by omega
  have ends := ModInverse.repeatUntil_turn left modulus enough
  have divisor : ((m.gcd a : ℕ) : ℤ) ≠ 1 ↔ a.gcd m ≠ 1 := by
    rw [Nat.gcd_comm]
    exact_mod_cast Iff.rfl
  simp only [modInverse, if_neg notOne, ends, Except.toOption, Option.bind_eq_bind,
    Option.bind_some, divisor]
  by_cases coprime : a.gcd m = 1
  · have inverse := Euclid.mul_gcdB_modEq ((Nat.gcd_comm m a).trans coprime)
    rw [if_neg (not_not.mpr coprime)]
    refine ⟨_, ModInverse.residue_eq _ pos modulus, iff_of_true rfl coprime, ?_⟩
    rintro _ ⟨⟩
    exact ModInverse.residue_inverts two inverse
  · rw [if_pos coprime]
    exact ⟨none, rfl, iff_of_false Bool.false_ne_true coprime, fun _ none => by cases none⟩

theorem modInverse_spec_three :
    ∃ result, modInverse 8 3 7 = some result ∧ (result.isSome ↔ Nat.gcd 3 7 = 1) ∧
      ∀ x ∈ result, x < 7 ∧ 3 * x % 7 = 1 :=
  modInverse_spec (by decide) (by decide) (by decide) (by decide)

end Rtfsn
