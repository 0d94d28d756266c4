/-
Levels of points, the points of each put together from the one below it.

* `norm_weighted_sub_le`: a weighted mean of points near a point is near it.
* `Climbs`: every point has one near it a level up. `Climbs.exists_within`: then it has one near it
  at every level.
* `firstLeast`: the first of the least entries of a list, which over an order is `List.argmin`
  (`firstLeast_eq_argmin`).
-/
import Mathlib

namespace Rtfsn.Pyramid

/-! ### Weighted means -/

section Weighted

variable {E : Type} [SeminormedAddCommGroup E] [NormedSpace ℝ E]

/-- **A weighted mean of points near `p`** is near `p`, as far as the weights go. -/
theorem norm_weighted_sub_le (p : E) {bound : ℝ} (xs : List (ℝ × E))
    (nonneg : ∀ x ∈ xs, 0 ≤ x.1) (near : ∀ x ∈ xs, ‖p - x.2‖ ≤ bound) :
    ‖(xs.map Prod.fst).sum • p - (xs.map fun x => x.1 • x.2).sum‖ ≤
      (xs.map Prod.fst).sum * bound := by
  induction xs with
  | nil => simp
  | cons x xs ih =>
    obtain ⟨weight, weights⟩ := List.forall_mem_cons.mp nonneg
    obtain ⟨here, rest⟩ := List.forall_mem_cons.mp near
    simp only [List.map_cons, List.sum_cons]
    calc ‖(x.1 + (xs.map Prod.fst).sum) • p - (x.1 • x.2 + (xs.map fun x => x.1 • x.2).sum)‖
        = ‖x.1 • (p - x.2) +
            ((xs.map Prod.fst).sum • p - (xs.map fun x => x.1 • x.2).sum)‖ := by
          congr 1
          rw [add_smul, smul_sub]
          abel
      _ ≤ ‖x.1 • (p - x.2)‖ +
            ‖(xs.map Prod.fst).sum • p - (xs.map fun x => x.1 • x.2).sum‖ := norm_add_le _ _
      _ ≤ x.1 * bound + (xs.map Prod.fst).sum * bound := by
          refine add_le_add ?_ (ih weights rest)
          rw [norm_smul, Real.norm_of_nonneg weight]
          exact mul_le_mul_of_nonneg_left here weight
      _ = (x.1 + (xs.map Prod.fst).sum) * bound := by ring

end Weighted

/-! ### Up the levels -/

section Levels

variable {A : Type} (distance : A → A → ℝ)

/-- Every point of a level has one within `step` of it a level up. -/
def Climbs (step : ℕ → ℝ) (levels : List (List A)) : Prop :=
  ∀ k fine coarse, levels[k]? = some fine → levels[k + 1]? = some coarse →
    ∀ p ∈ fine, ∃ q ∈ coarse, distance p q ≤ step k

variable {distance} {step : ℕ → ℝ} {levels : List (List A)}

/-- **At every level** a point of the first one has a point near it. -/
theorem Climbs.exists_within (climbs : Climbs distance step levels)
    (triangle : ∀ p q r, distance p r ≤ distance p q + distance q r)
    (self : ∀ p, distance p p = 0) {first : List A} (finest : levels[0]? = some first) {p : A}
    (member : p ∈ first) (k : ℕ) {level : List A} (listed : levels[k]? = some level) :
    ∃ q ∈ level, distance p q ≤ ∑ j ∈ Finset.range k, step j := by
  induction k generalizing level with
  | zero =>
    obtain rfl : first = level := Option.some.inj (finest.symm.trans listed)
    exact ⟨p, member, by simp [self]⟩
  | succ k ih =>
    obtain ⟨inside, _⟩ := List.getElem?_eq_some_iff.mp listed
    have below : levels[k]? = some levels[k] := List.getElem?_eq_getElem (by omega)
    obtain ⟨q, inLevel, near⟩ := ih below
    obtain ⟨r, above, far⟩ := climbs k _ _ below listed q inLevel
    refine ⟨r, above, (triangle p q r).trans ?_⟩
    rw [Finset.sum_range_succ]
    exact add_le_add near far

end Levels

/-! ### The first of the least -/

/-- `min_by`: the first entry that no other is below. -/
def firstLeast {A : Type} (below : A → A → Bool) (xs : List A) : Option A :=
  xs.foldl (List.argAux fun x best => below x best) none

theorem firstLeast_mem {A : Type} {below : A → A → Bool} {xs : List A} {x : A}
    (least : firstLeast below xs = some x) : x ∈ xs := by
  induction xs using List.reverseRecOn generalizing x with
  | nil => cases least
  | append_singleton xs y ih =>
    unfold firstLeast at least ih
    rw [List.foldl_concat] at least
    cases before : xs.foldl (List.argAux fun x best => below x best = true) none with
    | none =>
      rw [before] at least
      rw [← Option.some.inj least]
      exact List.mem_append_right _ (List.mem_singleton_self y)
    | some best =>
      rw [before] at least
      unfold List.argAux at least
      dsimp only at least
      split_ifs at least with lower
      · rw [← Option.some.inj least]
        exact List.mem_append_right _ (List.mem_singleton_self y)
      · rw [← Option.some.inj least]
        exact List.mem_append_left _ (ih before)

theorem exists_firstLeast {A : Type} (below : A → A → Bool) {xs : List A} (inhabited : xs ≠ []) :
    ∃ x ∈ xs, firstLeast below xs = some x := by
  cases least : firstLeast below xs with
  | none => exact absurd (List.foldl_argAux_eq_none _ |>.mp least).1 inhabited
  | some x => exact ⟨x, firstLeast_mem least, rfl⟩

theorem firstLeast_eq_argmin {A K : Type} [LinearOrder K] (key : A → K) (xs : List A) :
    firstLeast (fun x y => decide (key x < key y)) xs = xs.argmin key := by
  unfold firstLeast List.argmin
  congr 1
  funext best x
  unfold List.argAux
  cases best with
  | none => rfl
  | some y => simp

end Rtfsn.Pyramid
