/-
The two builds of an `i64` operator.

The plain operators stop a build with overflow checks where their result does not fit; a release
build wraps.

* `Overflow.i64`: what an operation makes of its exact result.
* `Overflow.sum`: `iter().sum()`. `SumFits`: what keeps it exact. With checks that is every sum on
  the way (`sum_panics_iff`), which the total covers where no term is negative
  (`sum_panics_of_nonneg`); without, the total alone.
-/
import Rtfsn.Checked

namespace Rtfsn

/-- What an operation does whose result does not fit. -/
inductive Overflow where
  | panics
  | wraps
deriving DecidableEq

namespace Overflow

variable {overflow : Overflow} {z : ℤ} {xs : List ℤ}

/-- An `i64` operation with the exact result `z`; `none` where it panics. -/
def i64 : Overflow → ℤ → Option ℤ
  | .panics, z => checkedI64 z
  | .wraps, z => some (wrapI64 z)

theorem i64_of_fits (fits : IsI64 z) : overflow.i64 z = some z := by
  cases overflow with
  | panics => exact checkedI64_eq_some.mpr ⟨fits, rfl⟩
  | wraps => exact congrArg some (wrapI64_eq_iff.mpr fits)

theorem i64_panics_iff {r : ℤ} : panics.i64 z = some r ↔ IsI64 z ∧ z = r := checkedI64_eq_some

/-- What comes after a check. -/
theorem bind_eq_some {A : Type} {x : Option ℤ} {P : Prop} {k : ℤ → Option A} {r : A}
    (check : ∀ s, x = some s ↔ P ∧ z = s) : (x >>= k) = some r ↔ P ∧ k z = some r := by
  rw [Option.bind_eq_bind, Option.bind_eq_some_iff]
  constructor
  · rintro ⟨s, first, rest⟩
    obtain ⟨holds, rfl⟩ := (check s).mp first
    exact ⟨holds, rest⟩
  · rintro ⟨holds, rest⟩
    exact ⟨z, (check z).mpr ⟨holds, rfl⟩, rest⟩

/-- The sum from the left. -/
def sum (overflow : Overflow) (xs : List ℤ) : Option ℤ :=
  xs.foldlM (fun sum x => overflow.i64 (sum + x)) 0

/-- `iter().map(f).sum()`, where `f` may overflow. -/
def sumBy {A : Type} (overflow : Overflow) (f : A → Option ℤ) (xs : List A) : Option ℤ := do
  let terms ← xs.mapM f
  overflow.sum terms

/-- What the sum needs to be exact. -/
def SumFits : Overflow → List ℤ → Prop
  | .panics, xs => ∀ n, IsI64 (xs.take n).sum
  | .wraps, xs => IsI64 xs.sum

theorem SumFits.total (fits : overflow.SumFits xs) : IsI64 xs.sum := by
  cases overflow with
  | panics => simpa using fits xs.length
  | wraps => exact fits

/-! ### With checks -/

theorem foldlM_panics {start s : ℤ} (fits : IsI64 start) :
    xs.foldlM (fun sum x => panics.i64 (sum + x)) start = some s ↔
      (∀ n, IsI64 (start + (xs.take n).sum)) ∧ start + xs.sum = s := by
  induction xs generalizing start with
  | nil => simp [fits]
  | cons x xs ih =>
    rw [List.foldlM_cons, Option.bind_eq_bind, Option.bind_eq_some_iff, List.sum_cons,
      ← add_assoc]
    constructor
    · rintro ⟨next, step, rest⟩
      obtain ⟨nextFits, rfl⟩ := i64_panics_iff.mp step
      obtain ⟨all, total⟩ := (ih nextFits).mp rest
      refine ⟨fun n => ?_, total⟩
      cases n with
      | zero => simpa using fits
      | succ n => simpa [add_assoc] using all n
    · rintro ⟨all, total⟩
      have nextFits : IsI64 (start + x) := by simpa using all 1
      refine ⟨start + x, i64_panics_iff.mpr ⟨nextFits, rfl⟩, (ih nextFits).mpr ⟨fun n => ?_, total⟩⟩
      simpa [add_assoc] using all (n + 1)

/-- **A sum with checks** goes through exactly where every sum on the way fits. -/
theorem sum_panics_iff {s : ℤ} : panics.sum xs = some s ↔ panics.SumFits xs ∧ xs.sum = s := by
  rw [sum, foldlM_panics (by decide)]
  simp [SumFits]

/-- Where no term is negative, the total is the largest sum on the way. -/
theorem sumFits_panics_of_nonneg (nonneg : ∀ x ∈ xs, 0 ≤ x) :
    panics.SumFits xs ↔ IsI64 xs.sum := by
  constructor
  · exact SumFits.total
  · intro fits n
    have least : 0 ≤ (xs.take n).sum :=
      List.sum_nonneg fun x member => nonneg x (List.mem_of_mem_take member)
    have rest : 0 ≤ (xs.drop n).sum :=
      List.sum_nonneg fun x member => nonneg x (List.mem_of_mem_drop member)
    have total := List.sum_take_add_sum_drop xs n
    unfold IsI64 at *
    omega

theorem sum_panics_of_nonneg (nonneg : ∀ x ∈ xs, 0 ≤ x) {s : ℤ} :
    panics.sum xs = some s ↔ IsI64 xs.sum ∧ xs.sum = s := by
  rw [sum_panics_iff, sumFits_panics_of_nonneg nonneg]

/-- A list of computations goes through where each does. -/
theorem mapM_eq_some_iff {A : Type} {f : A → Option ℤ} {P : A → Prop} {g : A → ℤ} {xs : List A}
    {ys : List ℤ} (check : ∀ x ∈ xs, ∀ r, f x = some r ↔ P x ∧ g x = r) :
    xs.mapM f = some ys ↔ (∀ x ∈ xs, P x) ∧ xs.map g = ys := by
  induction xs generalizing ys with
  | nil => simp [eq_comm]
  | cons x xs ih =>
    obtain ⟨head, tail⟩ := List.forall_mem_cons.mp check
    rw [List.mapM_cons, bind_eq_some head]
    simp only [Option.bind_eq_bind, Option.bind_eq_some_iff, ih tail]
    constructor
    · rintro ⟨holds, _, ⟨rest, rfl⟩, ⟨⟩⟩
      exact ⟨List.forall_mem_cons.mpr ⟨holds, rest⟩, rfl⟩
    · rintro ⟨all, rfl⟩
      obtain ⟨holds, rest⟩ := List.forall_mem_cons.mp all
      exact ⟨holds, _, ⟨rest, rfl⟩, rfl⟩

/-- A sum of checked terms, none of which is negative. -/
theorem sumBy_panics_of_nonneg {A : Type} {f : A → Option ℤ} {g : A → ℤ} {xs : List A} {s : ℤ}
    (checked : ∀ x ∈ xs, f x = panics.i64 (g x)) (nonneg : ∀ x ∈ xs, 0 ≤ g x) :
    panics.sumBy f xs = some s ↔ IsI64 (xs.map g).sum ∧ (xs.map g).sum = s := by
  have terms : ∀ z ∈ xs.map g, 0 ≤ z := List.forall_mem_map.mpr nonneg
  have check : ∀ x ∈ xs, ∀ r, f x = some r ↔ IsI64 (g x) ∧ g x = r := fun x member r => by
    rw [checked x member, i64_panics_iff]
  rw [sumBy, Option.bind_eq_bind, Option.bind_eq_some_iff]
  simp only [mapM_eq_some_iff check]
  constructor
  · rintro ⟨_, ⟨_, rfl⟩, summed⟩
    exact (sum_panics_of_nonneg terms).mp summed
  · rintro ⟨fits, total⟩
    refine ⟨_, ⟨fun x member => ?_, rfl⟩, (sum_panics_of_nonneg terms).mpr ⟨fits, total⟩⟩
    -- Each term is at most their sum.
    have most := List.single_le_sum terms _ (List.mem_map_of_mem member)
    have least := nonneg x member
    unfold IsI64 at *
    omega

/-! ### In both builds -/

theorem foldlM_wraps (xs : List ℤ) (start : ℤ) :
    xs.foldlM (fun sum x => wraps.i64 (sum + x)) (wrapI64 start) =
      some (wrapI64 (start + xs.sum)) := by
  induction xs generalizing start with
  | nil => simp
  | cons x xs ih =>
    have step : wraps.i64 (wrapI64 start + x) = some (wrapI64 (start + x)) :=
      congrArg some Int.bmod_add_bmod
    rw [List.foldlM_cons, step, List.sum_cons, ← add_assoc]
    exact ih (start + x)

/-- A wrapped sum is the total, wrapped. -/
theorem sum_wraps (xs : List ℤ) : wraps.sum xs = some (wrapI64 xs.sum) := by
  have folded := foldlM_wraps xs 0
  rw [zero_add] at folded
  exact folded

theorem sum_of_fits (fits : overflow.SumFits xs) : overflow.sum xs = some xs.sum := by
  cases overflow with
  | panics => exact sum_panics_iff.mpr ⟨fits, rfl⟩
  | wraps => rw [sum_wraps, wrapI64_eq_iff.mpr fits]

end Overflow

end Rtfsn
