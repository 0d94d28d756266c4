/-
The newest entries of a list.

A window of `n` entries over what was pushed is `rtake n` of it.

* `rtake_snoc`: a push into a window forgets no more than a push after everything.
* `drop_one_eq_rtake`: dropping the oldest entry of a window that a push made too long.
-/
import Mathlib.Data.List.DropRight

namespace Rtfsn.Window

variable {A : Type}

theorem rtake_snoc (xs : List A) (x : A) (n : ℕ) :
    (xs.rtake n ++ [x]).rtake n = (xs ++ [x]).rtake n := by
  simp only [List.rtake, List.length_append, List.length_drop, List.length_singleton]
  rw [← List.drop_append_of_le_length (by omega), List.drop_drop]
  congr 1
  omega

theorem mem_rtake_snoc (xs : List A) (x : A) {n : ℕ} (room : 1 ≤ n) :
    x ∈ (xs ++ [x]).rtake n := by
  rw [List.rtake, List.drop_append_of_le_length (by simp; omega)]
  simp

theorem length_rtake_le (xs : List A) (n : ℕ) : (xs.rtake n).length ≤ n := by
  rw [List.rtake, List.length_drop]
  omega

theorem drop_one_eq_rtake {xs : List A} {n : ℕ} (full : xs.length ≤ n + 1) :
    (if n < xs.length then xs.drop 1 else xs) = xs.rtake n := by
  rw [List.rtake]
  split_ifs with long
  · rw [show xs.length - n = 1 by omega]
  · rw [show xs.length - n = 0 by omega, List.drop_zero]

end Rtfsn.Window
