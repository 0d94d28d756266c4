/-
Lists ranked by a key.

* `ranked`: in ascending order of the key. Without two equal keys the order is strict, and it does
  not depend on how the list was given (`ranked_congr`).
* `nearest`: the first few. They are distinct, in strictly ascending order, as many as asked for or
  all there are, and what is left out ranks after each of them.
* `median`: half the sum of the two middle values in ascending order, which are one value when their
  number is odd; of nothing, zero. `medianDeviation`: the median distance from the median.
-/
import Mathlib

namespace Rtfsn.Ranking

section Order

variable {A K : Type} [LinearOrder K] {key : A → K} {xs ys : List A}

/-- The list in ascending order of the key. -/
def ranked (key : A → K) (xs : List A) : List A := xs.mergeSort fun x y => decide (key x ≤ key y)

theorem ranked_perm (key : A → K) (xs : List A) : (ranked key xs).Perm xs := List.mergeSort_perm _ _

theorem length_ranked (key : A → K) (xs : List A) : (ranked key xs).length = xs.length :=
  (ranked_perm key xs).length_eq

theorem pairwise_ranked (key : A → K) (xs : List A) :
    (ranked key xs).Pairwise fun x y => key x ≤ key y := by
  have sorted : (ranked key xs).Pairwise fun x y => decide (key x ≤ key y) = true :=
    List.pairwise_mergeSort (fun x y z => by simpa using le_trans)
      (fun x y => by simpa using le_total (key x) (key y)) xs
  exact sorted.imp of_decide_eq_true

/-- The entries ascend. -/
theorem key_le_of_ranked (key : A → K) {i j : ℕ} {x y : A} (before : i ≤ j)
    (first : (ranked key xs)[i]? = some x) (second : (ranked key xs)[j]? = some y) :
    key x ≤ key y := by
  obtain ⟨_, rfl⟩ := List.getElem?_eq_some_iff.mp first
  obtain ⟨_, rfl⟩ := List.getElem?_eq_some_iff.mp second
  rcases before.eq_or_lt with rfl | earlier
  · exact le_rfl
  · exact List.pairwise_iff_getElem.mp (pairwise_ranked key xs) i j _ _ earlier

/-- The order a list is given in does not matter, when no two keys are equal. -/
theorem ranked_congr (injective : Function.Injective key) (same : xs.Perm ys) :
    ranked key xs = ranked key ys :=
  ((ranked_perm key xs).trans (same.trans (ranked_perm key ys).symm)).eq_of_pairwise
    (fun _ _ _ _ below above => injective (le_antisymm below above)) (pairwise_ranked key xs)
    (pairwise_ranked key ys)

/-- Without two equal keys the order is strict. -/
theorem strict_ranked (injective : Function.Injective key) (nodup : xs.Nodup) :
    (ranked key xs).Pairwise fun x y => key x < key y :=
  (pairwise_ranked key xs).imp₂
    (fun _ _ below (other : _ ≠ _) => lt_of_le_of_ne below (injective.ne other))
    ((ranked_perm key xs).nodup_iff.mpr nodup)

/-! ### The nearest -/

/-- The first `count` in ascending order of the key. -/
def nearest (key : A → K) (count : ℕ) (xs : List A) : List A := (ranked key xs).take count

theorem length_nearest (key : A → K) (count : ℕ) (xs : List A) :
    (nearest key count xs).length = min count xs.length := by
  rw [nearest, List.length_take, length_ranked]

theorem mem_of_mem_nearest {count : ℕ} {x : A} (member : x ∈ nearest key count xs) : x ∈ xs :=
  (ranked_perm key xs).mem_iff.mp (List.mem_of_mem_take member)

theorem nodup_nearest (nodup : xs.Nodup) (count : ℕ) : (nearest key count xs).Nodup :=
  ((ranked_perm key xs).nodup_iff.mpr nodup).sublist (List.take_sublist _ _)

theorem strict_nearest (injective : Function.Injective key) (nodup : xs.Nodup) (count : ℕ) :
    (nearest key count xs).Pairwise fun x y => key x < key y :=
  (strict_ranked injective nodup).sublist (List.take_sublist _ _)

/-- **What is left out ranks after everything that is taken.** -/
theorem lt_of_left_out (injective : Function.Injective key) (nodup : xs.Nodup) {count : ℕ} {x y : A}
    (taken : x ∈ nearest key count xs) (member : y ∈ xs) (out : y ∉ nearest key count xs) :
    key x < key y := by
  have split := List.take_append_drop count (ranked key xs)
  have sorted := strict_ranked injective nodup
  have listed : y ∈ ranked key xs := (ranked_perm key xs).mem_iff.mpr member
  rw [← split] at sorted listed
  have dropped := (List.mem_append.mp listed).resolve_left out
  exact (List.pairwise_append.mp sorted).2.2 x taken y dropped

end Order

/-! ### Medians -/

section Median

variable {K : Type} [Field K] [LinearOrder K]

def median (xs : List K) : K :=
  ((ranked id xs).getD ((xs.length - 1) / 2) 0 + (ranked id xs).getD (xs.length / 2) 0) / 2

/-- The median absolute deviation. -/
def medianDeviation (xs : List K) : K := median (xs.map fun x => |x - median xs|)

theorem median_perm {xs ys : List K} (same : xs.Perm ys) : median xs = median ys := by
  rw [median, median, ranked_congr Function.injective_id same, same.length_eq]

end Median

end Rtfsn.Ranking
