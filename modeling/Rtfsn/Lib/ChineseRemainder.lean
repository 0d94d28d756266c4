/-
Numbers from their remainders.

A list of pairwise coprime moduli, with a remainder for each.

* `cofactor`: the product of the other moduli. It is prime to its own (`coprime_cofactor`), and a
  multiple of any other (`dvd_cofactor`).
* `combine`: the sum of the remainders, each times its cofactor and what inverts that. It has these
  remainders (`combine_modEq`), and no summand outgrows its modulus times their product (`term_le`).
-/
import Mathlib.Algebra.Order.BigOperators.Group.List
import Mathlib.Data.Nat.ChineseRemainder
import Mathlib.Tactic.Ring

namespace Rtfsn.ChineseRemainder

open scoped Function

variable {ι : Type} (p : ι → ℕ) (l : List ι)

/-- The product of the other moduli. -/
def cofactor (i : ι) : ℕ := (l.map p).prod / p i

/-- A summand, for the remainders `v` and the inverses `y`. -/
def term (v y : ι → ℕ) (i : ι) : ℕ := v i * cofactor p l i * y i

def combine (v y : ι → ℕ) : ℕ := (l.map (term p l v y)).sum

variable {p l} {i : ι} {v y : ι → ℕ}

theorem dvd_prod (listed : i ∈ l) : p i ∣ (l.map p).prod :=
  List.dvd_prod (List.mem_map_of_mem listed)

theorem cofactor_mul (listed : i ∈ l) : p i * cofactor p l i = (l.map p).prod :=
  Nat.mul_div_cancel' (dvd_prod listed)

/-- The product with one modulus apart. -/
theorem prod_split (before after : List ι) :
    ((before ++ i :: after).map p).prod = p i * ((before ++ after).map p).prod := by
  simp only [List.map_append, List.map_cons, List.prod_append, List.prod_cons]
  ring

theorem cofactor_split (before after : List ι) (pos : 0 < p i) :
    cofactor p (before ++ i :: after) i = ((before ++ after).map p).prod := by
  rw [cofactor, prod_split, Nat.mul_div_cancel_left _ pos]

/-- In a list of pairwise coprime moduli, one is prime to the others. -/
theorem coprime_others {before after : List ι}
    (coprime : (before ++ i :: after).Pairwise (Nat.Coprime on p)) :
    ∀ j ∈ before ++ after, (p j).Coprime (p i) := by
  obtain ⟨_, later, earlier⟩ := List.pairwise_append.mp coprime
  intro j listed
  rcases List.mem_append.mp listed with first | last
  · exact earlier j first i List.mem_cons_self
  · exact ((List.pairwise_cons.mp later).1 j last).symm

/-- **A cofactor is prime to its modulus.** -/
theorem coprime_cofactor (coprime : l.Pairwise (Nat.Coprime on p)) (listed : i ∈ l)
    (pos : 0 < p i) : (cofactor p l i).Coprime (p i) := by
  obtain ⟨before, after, rfl⟩ := List.mem_iff_append.mp listed
  rw [cofactor_split before after pos]
  exact Nat.coprime_list_prod_left_iff.mpr (List.forall_mem_map.mpr (coprime_others coprime))

/-- A cofactor is a multiple of every other modulus. -/
theorem dvd_cofactor {before after : List ι} {j : ι} (other : j ∈ before ++ after) :
    p i ∣ cofactor p (before ++ i :: after) j := by
  rw [cofactor, prod_split, Nat.mul_div_assoc _ (dvd_prod other)]
  exact Nat.dvd_mul_right _ _

/-- **The combination has the remainders.** -/
theorem combine_modEq (inverts : ∀ i ∈ l, cofactor p l i * y i ≡ 1 [MOD p i]) (listed : i ∈ l) :
    combine p l v y ≡ v i [MOD p i] := by
  obtain ⟨before, after, split⟩ := List.mem_iff_append.mp listed
  have total : combine p l v y =
      term p l v y i + ((before ++ after).map (term p l v y)).sum := by
    rw [combine, split, List.map_append, List.map_append, List.sum_append, List.sum_append,
      List.map_cons, List.sum_cons, ← split]
    ring
  have others : ((before ++ after).map (term p l v y)).sum ≡ 0 [MOD p i] := by
    refine (Nat.modEq_zero_iff_dvd).mpr (List.dvd_sum (List.forall_mem_map.mpr fun j other => ?_))
    rw [term, split]
    exact ((dvd_cofactor other).mul_left _).mul_right _
  have own : term p l v y i ≡ v i [MOD p i] := by
    rw [term, mul_assoc]
    simpa using (inverts i listed).mul_left (v i)
  rw [total]
  exact own.add others

/-! ### Bounds -/

/-- A remainder times its cofactor. -/
theorem mul_cofactor_le (listed : i ∈ l) (below : v i < p i) :
    v i * cofactor p l i ≤ (l.map p).prod :=
  (Nat.mul_le_mul_right _ below.le).trans (cofactor_mul listed).le

theorem term_le (listed : i ∈ l) (below : v i < p i) (inverse : y i < p i) :
    term p l v y i ≤ (l.map p).prod * p i :=
  Nat.mul_le_mul (mul_cofactor_le listed below) inverse.le

theorem combine_le (below : ∀ i ∈ l, v i < p i) (inverse : ∀ i ∈ l, y i < p i) :
    combine p l v y ≤ (l.map p).prod * (l.map p).sum := by
  calc combine p l v y
      ≤ (l.map fun i => (l.map p).prod * p i).sum :=
        List.sum_le_sum fun i listed => term_le listed (below i listed) (inverse i listed)
    _ = (l.map p).prod * (l.map p).sum := List.sum_map_mul_left ..

end Rtfsn.ChineseRemainder
