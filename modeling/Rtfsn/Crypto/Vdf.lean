/-
The delay function: iterated hashing.

* `VdfProof.verify` walks the hashes again; `verify_evaluate`: what `evaluate` makes is accepted.
-/
import Rtfsn.Types

namespace Rtfsn

structure VdfProof where
  input : Bytes32
  output : Bytes32
  iterations : UInt64
deriving DecidableEq

namespace VdfProof

variable (blake3 : List UInt8 → Bytes32)

/-- Hash so many times over. -/
def hashes : ℕ → Bytes32 → Bytes32
  | 0, current => current
  | n + 1, current => hashes n (blake3 current.toList)

def evaluate (input : Bytes32) (iterations : UInt64) : VdfProof :=
  ⟨input, hashes blake3 iterations.toNat input, iterations⟩

def verify (proof : VdfProof) : Bool :=
  hashes blake3 proof.iterations.toNat proof.input == proof.output

theorem verify_evaluate (input : Bytes32) (iterations : UInt64) :
    (evaluate blake3 input iterations).verify blake3 = true := by
  unfold verify evaluate
  exact beq_self_eq_true _

end VdfProof

end Rtfsn
