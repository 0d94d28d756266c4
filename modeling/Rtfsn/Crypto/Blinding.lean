/-
Blinded identities and their Schnorr-like proofs.

* `Ristretto`: what the crate uses of its curve library, over any group of points and ring of
  scalars. The hash is a parameter too: a function of the bytes fed to it.
* `BlindingSecret.blind`, `proveKnowledge`: the commitment to a node and the proof of its opening,
  with the nonces the source draws at random as arguments.
* `BlindingProof.verify`: the check, on the proof's own bytes.
-/
import Rtfsn.Types

namespace Rtfsn

/-- The operations of `curve25519-dalek` that the crate uses, with the two generators. -/
structure Ristretto (Point Scalar : Type) where
  basepoint : Point
  identityGenerator : Point
  compress : Point → Bytes32
  decompress : Bytes32 → Option Point
  toBytes : Scalar → Bytes32
  fromBytesModOrder : Bytes32 → Scalar
  fromCanonicalBytes : Bytes32 → Option Scalar

/-- A node's identity in one epoch. -/
structure BlindedIdentity where
  commitment : Bytes32
  epoch : Epoch

/-- What proves ownership of a blinded identity. -/
structure BlindingSecret (Scalar : Type) where
  nodeScalar : Scalar
  blindingFactor : Scalar
  epoch : Epoch

structure BlindingProof where
  commitment : Bytes32
  nonceCommitment : Bytes32
  s1 : Bytes32
  s2 : Bytes32

section

variable {Point Scalar : Type} [AddCommGroup Point] [CommRing Scalar] [Module Scalar Point]
  (curve : Ristretto Point Scalar) (blake3 : List UInt8 → Bytes32)

/-- The challenge of a proof: the hash of the two commitments. -/
def challenge (commitment nonceCommitment : Bytes32) : Scalar :=
  curve.fromBytesModOrder (blake3 (commitment.toList ++ nonceCommitment.toList))

namespace BlindingSecret

/-- The blinding factor of `new` is drawn at random. -/
def new (id : NodeId) (epoch : Epoch) (blindingFactor : Scalar) : BlindingSecret Scalar :=
  ⟨curve.fromBytesModOrder id.bytes, blindingFactor, epoch⟩

def commitmentPoint (secret : BlindingSecret Scalar) : Point :=
  secret.nodeScalar • curve.basepoint + secret.blindingFactor • curve.identityGenerator

def blind (secret : BlindingSecret Scalar) : BlindedIdentity :=
  ⟨curve.compress (secret.commitmentPoint curve), secret.epoch⟩

/-- Proof of knowledge of the opening, with the nonces `k1` and `k2`. -/
def proveKnowledge (secret : BlindingSecret Scalar) (k1 k2 : Scalar) : BlindingProof :=
  let r := k1 • curve.basepoint + k2 • curve.identityGenerator
  let commitment := curve.compress (secret.commitmentPoint curve)
  let e := challenge curve blake3 commitment (curve.compress r)
  { commitment := commitment
    nonceCommitment := curve.compress r
    s1 := curve.toBytes (k1 - e * secret.nodeScalar)
    s2 := curve.toBytes (k2 - e * secret.blindingFactor) }

end BlindingSecret

def BlindingProof.verify [DecidableEq Point] (proof : BlindingProof) : Bool :=
  match curve.decompress proof.commitment with
  | none => false
  | some commitmentPoint =>
    match curve.decompress proof.nonceCommitment with
    | none => false
    | some r =>
      let e := challenge curve blake3 proof.commitment proof.nonceCommitment
      match curve.fromCanonicalBytes proof.s1, curve.fromCanonicalBytes proof.s2 with
      | some s1, some s2 =>
        decide (s1 • curve.basepoint + s2 • curve.identityGenerator + e • commitmentPoint = r)
      | _, _ => false

/-- **An honest proof is accepted** where points and scalars survive their encodings. -/
theorem BlindingSecret.verify_proveKnowledge [DecidableEq Point]
    (decompress : ∀ point, curve.decompress (curve.compress point) = some point)
    (canonical : ∀ scalar, curve.fromCanonicalBytes (curve.toBytes scalar) = some scalar)
    (secret : BlindingSecret Scalar) (k1 k2 : Scalar) :
    (secret.proveKnowledge curve blake3 k1 k2).verify curve blake3 = true := by
  unfold BlindingProof.verify proveKnowledge
  simp only [decompress, canonical, decide_eq_true_eq]
  unfold commitmentPoint
  module

end

end Rtfsn
