/-
Primality from part of a factorization.

* `pocklington`: a number is prime when its predecessor has distinct prime factors whose product is
  more than its square root, and a root of unity that none of them can be taken out of.
-/
import Mathlib.FieldTheory.Finite.Basic

namespace Rtfsn.Pocklington

/-- A prime divides an order when it cannot be taken out of a multiple of it. -/
theorem dvd_orderOf {G : Type} [Monoid G] {b : G} {m q : ℕ} (prime : q.Prime) (divides : q ∣ m)
    (root : b ^ m = 1) (primitive : b ^ (m / q) ≠ 1) : q ∣ orderOf b := by
  by_contra other
  obtain ⟨k, rfl⟩ := orderOf_dvd_of_pow_eq_one root
  obtain ⟨j, rfl⟩ := (prime.dvd_mul.mp divides).resolve_left other
  refine primitive (orderOf_dvd_iff_pow_eq_one.mp ?_)
  rw [mul_left_comm, Nat.mul_div_cancel_left _ prime.pos]
  exact dvd_mul_right _ _

/-- **The criterion**, over the prime factors `qs` of `n - 1`. -/
theorem pocklington {n : ℕ} (qs : Finset ℕ) (primes : ∀ q ∈ qs, q.Prime)
    (divides : ∀ q ∈ qs, q ∣ n - 1) (large : n < (∏ q ∈ qs, q) ^ 2) (one_lt : 1 < n) (a : ZMod n)
    (root : a ^ (n - 1) = 1) (units : ∀ q ∈ qs, IsUnit (a ^ ((n - 1) / q) - 1)) : n.Prime := by
  by_contra composite
  have : Fact n.minFac.Prime := ⟨Nat.minFac_prime one_lt.ne'⟩
  -- In the field of its least factor, the root has an order that all the primes divide.
  let reduce := ZMod.castHom (Nat.minFac_dvd n) (ZMod n.minFac)
  have root' : reduce a ^ (n - 1) = 1 := by rw [← map_pow, root, map_one]
  have nonzero : reduce a ≠ 0 := by
    intro none
    rw [none, zero_pow (Nat.sub_pos_of_lt one_lt).ne'] at root'
    exact zero_ne_one root'
  have all : ∏ q ∈ qs, q ∣ n.minFac - 1 := by
    refine Finset.prod_primes_dvd _ (fun q member => (primes q member).prime) fun q member => ?_
    refine (dvd_orderOf (primes q member) (divides q member) root' fun one => ?_).trans
      (orderOf_dvd_of_pow_eq_one (ZMod.pow_card_sub_one_eq_one nonzero))
    have unit := (units q member).map reduce
    rw [map_sub, map_pow, one, map_one, sub_self] at unit
    exact not_isUnit_zero unit
  have below : ∏ q ∈ qs, q < n.minFac :=
    (Nat.le_of_dvd (Nat.sub_pos_of_lt (Nat.minFac_prime one_lt.ne').one_lt) all).trans_lt
      (Nat.sub_lt (Nat.minFac_pos n) one_pos)
  have squares := Nat.minFac_sq_le_self one_lt.le composite
  exact absurd (large.trans (Nat.pow_lt_pow_left below two_ne_zero)) squares.not_gt

end Rtfsn.Pocklington
