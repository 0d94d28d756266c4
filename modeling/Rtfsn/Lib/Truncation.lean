/-
Rounding toward zero.

* `truncate`: the integer next to a number, on the side of zero.
* `truncate_div`: what integer division rounds is the quotient, so.
* `mean_bounds`: the mean of integers, divided so, stays between their bounds. `mean_near`: two
  means differ by little more than their terms.
-/
import Mathlib.Algebra.Order.BigOperators.Group.List
import Mathlib.Algebra.Order.Floor.Ring
import Mathlib.Tactic.Linarith
import Rtfsn.Lib.TowardZero

namespace Rtfsn

section Field

variable {K : Type} [Field K] [LinearOrder K] [IsStrictOrderedRing K] [FloorRing K]

/-- The integer next to `x`, toward zero. -/
def truncate (x : K) : ℤ := if 0 ≤ x then ⌊x⌋ else ⌈x⌉

theorem truncate_neg (x : K) : truncate (-x) = -truncate x := by
  unfold truncate
  rcases lt_trichotomy x 0 with neg | rfl | pos
  · rw [if_pos (neg_nonneg.mpr neg.le), if_neg neg.not_ge, Int.floor_neg]
  · simp
  · rw [if_neg (by linarith), if_pos pos.le, Int.ceil_neg]

/-- **Integer division rounds the quotient toward zero.** -/
theorem truncate_div (a : ℤ) (n : ℕ) : truncate ((a : K) / n) = a.tdiv n := by
  have divided (a : ℤ) (nonneg : 0 ≤ a) : truncate ((a : K) / n) = a.tdiv n := by
    rw [truncate, if_pos (div_nonneg (by exact_mod_cast nonneg) n.cast_nonneg),
      Int.floor_div_natCast, Int.floor_intCast, Int.tdiv_eq_ediv_of_nonneg nonneg]
  rcases le_total 0 a with nonneg | nonpos
  · exact divided a nonneg
  · have reflected := divided (-a) (by omega)
    rw [Int.cast_neg, neg_div, truncate_neg, Int.neg_tdiv] at reflected
    exact neg_inj.mp reflected

end Field

/-! ### Integer division -/

/-- A quotient, times no more than what it was divided by. -/
theorem towardZero_mul_tdiv (a : ℤ) {m n : ℕ} (less : m ≤ n) : TowardZero a (m * a.tdiv n) := by
  have scaled (a : ℤ) (nonneg : 0 ≤ a) : 0 ≤ m * a.tdiv n ∧ m * a.tdiv n ≤ a := by
    have quotient : 0 ≤ a.tdiv n := Int.tdiv_nonneg nonneg (Int.natCast_nonneg n)
    have more : (m : ℤ) * a.tdiv n ≤ n * a.tdiv n :=
      mul_le_mul_of_nonneg_right (by exact_mod_cast less) quotient
    exact ⟨mul_nonneg (Int.natCast_nonneg m) quotient, more.trans (Int.mul_tdiv_self_le nonneg)⟩
  rcases le_total 0 a with nonneg | nonpos
  · obtain ⟨least, most⟩ := scaled a nonneg
    exact .of_nonneg least most
  · obtain ⟨least, most⟩ := scaled (-a) (by omega)
    rw [Int.neg_tdiv, mul_neg] at least most
    exact .of_nonpos (by omega) (by omega)

/-- What the division drops. -/
theorem natAbs_mul_tdiv_sub_lt (a : ℤ) {n : ℕ} (pos : 0 < n) : (n * a.tdiv n - a).natAbs < n := by
  have split := Int.mul_tdiv_add_tmod a n
  have above := Int.lt_tmod_of_pos a (b := n) (by omega)
  have below := Int.tmod_lt_of_pos a (b := n) (by omega)
  omega

theorem mean_bounds {xs : List ℤ} {lo hi : ℤ} (nonempty : xs ≠ [])
    (within : ∀ x ∈ xs, lo ≤ x ∧ x ≤ hi) :
    lo ≤ xs.sum.tdiv xs.length ∧ xs.sum.tdiv xs.length ≤ hi := by
  have pos : (0 : ℤ) < xs.length := by exact_mod_cast List.length_pos_iff.mpr nonempty
  have least := List.card_nsmul_le_sum xs lo fun x member => (within x member).1
  have most := List.sum_le_card_nsmul xs hi fun x member => (within x member).2
  rw [nsmul_eq_mul] at least most
  constructor
  · have mean := Int.tdiv_le_tdiv pos least
    rwa [Int.mul_tdiv_cancel_left _ pos.ne'] at mean
  · have mean := Int.tdiv_le_tdiv pos most
    rwa [Int.mul_tdiv_cancel_left _ pos.ne'] at mean

/-! ### Lists that are near each other -/

section Near

variable {A : Type} {f g : A → ℤ} {xs : List A} {bound : ℕ}

theorem sum_near (near : ∀ x ∈ xs, (f x - g x).natAbs ≤ bound) :
    ((xs.map f).sum - (xs.map g).sum).natAbs ≤ xs.length * bound := by
  induction xs with
  | nil => simp
  | cons x xs ih =>
    obtain ⟨head, tail⟩ := List.forall_mem_cons.mp near
    have rest := ih tail
    simp only [List.map_cons, List.sum_cons, List.length_cons, Nat.succ_mul]
    omega

theorem mean_near (nonempty : xs ≠ []) (near : ∀ x ∈ xs, (f x - g x).natAbs ≤ bound) :
    ((xs.map f).sum.tdiv xs.length - (xs.map g).sum.tdiv xs.length).natAbs ≤ bound + 2 := by
  have pos := List.length_pos_iff.mpr nonempty
  have sums := sum_near near
  have first := natAbs_mul_tdiv_sub_lt (xs.map f).sum pos
  have second := natAbs_mul_tdiv_sub_lt (xs.map g).sum pos
  have scaled : (xs.length * ((xs.map f).sum.tdiv xs.length -
      (xs.map g).sum.tdiv xs.length) : ℤ).natAbs ≤ xs.length * (bound + 2) := by
    rw [mul_sub, mul_add]
    omega
  rw [Int.natAbs_mul, Int.natAbs_natCast] at scaled
  exact Nat.le_of_mul_le_mul_left scaled pos

end Near

end Rtfsn
