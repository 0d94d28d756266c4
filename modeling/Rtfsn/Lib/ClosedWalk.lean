/-
Walks around a closed path.

* `steps`: the consecutive pairs of a path, the last node's step back to the first included.
* `steps_rotate`, `steps_reverse`: a path begun elsewhere takes the same steps from another point
  on, and a reversed path takes every step backwards.
* `sum_steps_rotate`, `sum_steps_reverse`: so for what is summed over the steps.
-/
import Mathlib

namespace Rtfsn.ClosedWalk

variable {V G : Type}

/-- The steps of a path around and back to its start. -/
def steps (path : List V) : List (V × V) := path.zip (path.rotate 1)

theorem steps_cons (a : V) (rest : List V) :
    steps (a :: rest) = (a :: rest).zip (rest ++ [a]) := by
  rw [steps, List.rotate_cons_succ, List.rotate_zero]

@[simp] theorem length_steps (path : List V) : (steps path).length = path.length := by
  simp [steps]

theorem getElem_steps (path : List V) (i : ℕ) (inside : i < (steps path).length) :
    (steps path)[i] = (path.get ⟨i, by simpa using inside⟩,
      path.get ⟨(i + 1) % path.length, Nat.mod_lt _ (by rw [length_steps] at inside; omega)⟩) := by
  simp [steps, List.getElem_rotate]

theorem steps_rotate (path : List V) (n : ℕ) : steps (path.rotate n) = (steps path).rotate n := by
  unfold steps List.zip
  rw [List.zipWith_rotate_distrib _ _ _ _ (by simp), List.rotate_rotate, List.rotate_rotate,
    Nat.add_comm]

/-- **A reversed path takes every step backwards.** -/
theorem steps_reverse (path : List V) :
    (steps path.reverse).Perm ((steps path).map Prod.swap) := by
  unfold steps
  by_cases empty : path.length = 0
  · rw [List.length_eq_zero_iff] at empty
    simp [empty]
  · -- Turning back before a step is coming from where it leads.
    have behind : path.reverse.rotate 1 = (path.rotate (path.length - 1 % path.length)).reverse :=
      List.rotate_reverse path 1
    have around : (path.rotate 1).rotate (path.length - 1 % path.length) = path := by
      rw [List.rotate_rotate]
      by_cases single : path.length = 1
      · rw [single]
        exact (single ▸ List.rotate_length_mul path 2 :)
      · rw [Nat.mod_eq_of_lt (show 1 < path.length by omega),
          show 1 + (path.length - 1) = path.length by omega, List.rotate_length]
    have backwards : path.reverse.zip (path.reverse.rotate 1) =
        (((path.rotate 1).zip path).rotate (path.length - 1 % path.length)).reverse := by
      unfold List.zip
      rw [behind, List.zipWith_rotate_distrib _ _ _ _ (by simp), around,
        List.reverse_zipWith (by simp)]
    rw [backwards, List.zip_swap]
    exact (List.reverse_perm _).trans (List.rotate_perm _ _)

/-! ### Sums over the steps -/

variable [AddCommMonoid G]

theorem sum_steps_rotate (f : V × V → G) (path : List V) (n : ℕ) :
    ((steps (path.rotate n)).map f).sum = ((steps path).map f).sum := by
  rw [steps_rotate]
  exact ((List.rotate_perm _ n).map f).sum_eq

theorem sum_steps_reverse (f : V × V → G) (path : List V) :
    ((steps path.reverse).map f).sum = ((steps path).map fun step => f step.swap).sum := by
  rw [((steps_reverse path).map f).sum_eq, List.map_map]
  rfl

end Rtfsn.ClosedWalk
