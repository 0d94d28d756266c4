/-
The valves between the layers.

* `valveL0ToL1`: an epoch's entry, under a blinded identity; one beacon.
* `valveL1ToL2`: the beacons of an epoch, clustered on a grid; one commitment a cluster.
* `valveL2ToL3`: the clusters of an epoch, turned into one tick.

The clusters are a hash map, listed in arbitrary order, with two blindings drawn for each.
-/
import Rtfsn.Layers.Layer0
import Rtfsn.Layers.Layer1
import Rtfsn.Layers.Layer2
import Rtfsn.Layers.Layer3

namespace Rtfsn

variable {F Point Scalar : Type} [F64Coord F] [AddCommGroup Point] [CommRing Scalar]
  [Module Scalar Point] (curve : Ristretto Point Scalar) (hGenerator : Point)
  (blake3 : List UInt8 → Bytes32) (toLeBytes : F → List UInt8)

/-! ### From Layer 0 to Layer 1 -/

/-- The beacon of an entry. -/
def beaconOfEntry (entry : Layer0Entry F) (epoch : Epoch) (blindingSecret : BlindingSecret Scalar)
    (k1 k2 : Scalar) : Layer1Beacon F :=
  let solve := entry.solve
  { blindedId := blindingSecret.blind curve
    epoch := epoch
    coordinates := solve.coordinates
    clockOffset := solve.clockOffset
    clockDrift := solve.clockDrift
    uncertainty := solve.uncertainty
    peerCount := UInt32.ofNat solve.peerCount
    consistencyScore := 1 / (1 + solve.uncertainty)
    proofOfIdentity := blindingSecret.proveKnowledge curve blake3 k1 k2
    proofOfPeerCount :=
      if 0 < solve.peerCount then
        some
          { claimedCount := UInt32.ofNat solve.peerCount
            merkleRoot := (MerkleDigest.fromItems blake3
              (entry.measurements.map fun m => m.peer.bytes.toList)).bytes }
      else none }

/-- Blind the identity and let out the beacon of `epoch`, with the nonces `k1` and `k2`. -/
def valveL0ToL1 (store : Layer0Store F) (epoch : Epoch) (blindingSecret : BlindingSecret Scalar)
    (k1 k2 : Scalar) : Option (Layer1Beacon F) :=
  (store.getEpoch epoch).map fun entry =>
    beaconOfEntry curve blake3 entry epoch blindingSecret k1 k2

/-! ### From Layer 1 to Layer 2 -/

/-- The grid cell of a beacon. -/
def gridKey (gridSize : F) (beacon : Layer1Beacon F) : List ℤ :=
  beacon.coordinates.position.dims.toList.map fun d => F64.toI64 (F64Coord.floor (d / gridSize))

/-- The offsets of the beacons, by cell. -/
def clusterOffsets (gridSize : F) (beacons : List (Layer1Beacon F)) :
    Std.ExtTreeMap (List ℤ) (List F) :=
  beacons.foldl (fun clusters beacon =>
    let key := gridKey gridSize beacon
    clusters.insert key ((clusters[key]?).getD [] ++ [beacon.clockOffset])) ∅

/-- Aggregate the beacons of `epoch` into cluster commitments. -/
def valveL1ToL2 (order : HashOrder (List ℤ)) (blindings : List ℤ → Scalar × Scalar)
    (l1Store : Layer1Store F) (l2Aggregator : ClusterAggregator) (epoch : Epoch) (gridSize : F) :
    Option ClusterAggregator :=
  let beacons := l1Store.getEpoch epoch
  if beacons.isEmpty then some l2Aggregator
  else
    let clusters := clusterOffsets gridSize beacons
    (order.arrange clusters.keys).foldlM (fun l2Aggregator gridKey =>
      let offsets := (clusters[gridKey]?).getD []
      let regionCoords := gridKey.map fun g => F64.ofInt g * gridSize
      let clusterId := ClusterId.fromRegion blake3 toLeBytes regionCoords epoch
      let (blinding, varBlinding) := blindings gridKey
      (l2Aggregator.aggregate curve hGenerator clusterId epoch offsets blinding varBlinding).map
        Prod.snd) l2Aggregator

/-! ### From Layer 2 to Layer 3 -/

section

variable (F)

/-- Emit a tick for `epoch`, when it has clusters. -/
def valveL2ToL3 (l2Aggregator : ClusterAggregator) (clockStream : ClockStream) (epoch : Epoch)
    (referenceTimeNanos : UInt64) (_minClusters : ℕ) : Option (Bool × ClockStream) :=
  let clusters := l2Aggregator.getEpoch epoch
  if clusters.isEmpty then some (false, clockStream)
  else
    let totalWeight : F := F64.sum (clusters.map fun c => F64.ofNat c.clusterSize.toNat)
    if F64.lt totalWeight 1 then some (false, clockStream)
    else
      let epochHash := blake3 (clusters.flatMap fun cluster =>
        cluster.committedOffset.bytes.toList ++ cluster.committedVariance.bytes.toList)
      let confidenceNanos := 5000000
      (clockStream.emit blake3 referenceTimeNanos confidenceNanos epochHash none).map
        fun clockStream => (true, clockStream)

end

/-- **The valve emits or leaves the stream alone.** -/
theorem valveL2ToL3_spec {l2Aggregator : ClusterAggregator} {clockStream : ClockStream}
    {epoch : Epoch} {referenceTimeNanos : UInt64} {minClusters : ℕ} {emitted : Bool}
    {clockStream' : ClockStream}
    (goes : valveL2ToL3 F blake3 l2Aggregator clockStream epoch referenceTimeNanos minClusters =
      some (emitted, clockStream')) :
    if emitted then ∃ epochHash, clockStream.emit blake3 referenceTimeNanos 5000000 epochHash none =
      some clockStream' else clockStream' = clockStream := by
  unfold valveL2ToL3 at goes
  by_cases noClusters : (l2Aggregator.getEpoch epoch).isEmpty
  · rw [if_pos noClusters] at goes
    cases goes
    rfl
  · rw [if_neg noClusters] at goes
    by_cases light : F64.lt (F64.sum ((l2Aggregator.getEpoch epoch).map fun c =>
        F64.ofNat c.clusterSize.toNat) : F) 1
    · rw [if_pos light] at goes
      cases goes
      rfl
    · rw [if_neg light, Option.map_eq_some_iff] at goes
      obtain ⟨stream, emits, made⟩ := goes
      cases made
      exact ⟨_, emits⟩

end Rtfsn
