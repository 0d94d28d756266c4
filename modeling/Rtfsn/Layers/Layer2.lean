/-
Layer 2: cluster commitments.

* `ClusterAggregator.aggregate`: one cluster's mean offset and variance, committed. The blindings
  the source draws at random are arguments.
* `getEpoch`, `hasConsensus`: what the aggregator holds for an epoch.
-/
import Rtfsn.Crypto.Pedersen
import Rtfsn.Numbers
import Rtfsn.Lib.Bytes

namespace Rtfsn

structure ClusterId where
  bytes : Bytes32

structure ClusterAgreementProof where
  otherCluster : ClusterId
  withinTolerance : Bool
  proofHash : Bytes32

structure Layer2Entry where
  clusterId : ClusterId
  epoch : Epoch
  committedOffset : SerializableCommitment
  committedVariance : SerializableCommitment
  clusterSize : UInt32
  agreementProofs : List ClusterAgreementProof

structure ClusterAggregator where
  entries : List Layer2Entry

variable {F Point Scalar : Type} [F64 F] [AddCommGroup Point] [CommRing Scalar]
  [Module Scalar Point] (curve : Ristretto Point Scalar) (hGenerator : Point)

/-- The id of the cluster at `coords`, whose bytes are given by `toLeBytes`. -/
def ClusterId.fromRegion (blake3 : List UInt8 → Bytes32) (toLeBytes : F → List UInt8)
    (coords : List F) (epoch : Epoch) : ClusterId :=
  ⟨blake3 (coords.flatMap toLeBytes ++ Bytes.leBytes 8 epoch.number.toNat)⟩

namespace ClusterAggregator

def new : ClusterAggregator := ⟨[]⟩

/-- The entry of a cluster, put after the others. -/
def aggregate (aggregator : ClusterAggregator) (clusterId : ClusterId) (epoch : Epoch)
    (offsets : List F) (blinding varBlinding : Scalar) :
    Option (Option Layer2Entry × ClusterAggregator) :=
  if offsets.isEmpty then some (none, aggregator)
  else do
    let mean := F64.sum offsets / F64.ofNat offsets.length
    let variance :=
      F64.sum (offsets.map fun o => F64.powi (o - mean) 2) / F64.ofNat offsets.length
    let offsetCommitment ← PedersenCommitment.commitF64 curve hGenerator mean blinding
    let varianceCommitment ← PedersenCommitment.commitF64 curve hGenerator variance varBlinding
    let entry : Layer2Entry :=
      { clusterId := clusterId
        epoch := epoch
        committedOffset := .from offsetCommitment
        committedVariance := .from varianceCommitment
        clusterSize := UInt32.ofNat offsets.length
        agreementProofs := [] }
    return (some entry, ⟨aggregator.entries ++ [entry]⟩)

def getEpoch (aggregator : ClusterAggregator) (epoch : Epoch) : List Layer2Entry :=
  aggregator.entries.filter fun e => e.epoch = epoch

/-- Enough clusters for a Layer 3 output, with agreement proofs. -/
def hasConsensus (aggregator : ClusterAggregator) (epoch : Epoch) (minClusters : ℕ) : Bool :=
  let clusters := aggregator.getEpoch epoch
  if clusters.length < minClusters then false
  else
    let withAgreements := (clusters.filter fun c => ¬ c.agreementProofs.isEmpty).length
    decide (minClusters ≤ withAgreements)

end ClusterAggregator

end Rtfsn
