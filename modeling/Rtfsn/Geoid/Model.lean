/-
The hierarchical model of the network's timing: regions, layers, and the geoid they make.

A region has a centroid in the latency space and a ball around it, a committed profile of the
latencies inside, and the ids of the finer regions it was merged from. A layer holds the regions of
one level with the edges between them; the geoid lists its layers from the finest.
-/
import Rtfsn.Crypto.Pedersen
import Rtfsn.Lib.Bytes

namespace Rtfsn

/-- A region: the hash of its centroid, level and epoch. -/
structure RegionId where
  bytes : Bytes32
deriving DecidableEq

/-- The id of the region around `centroid`, whose bytes are given by `toLeBytes`. -/
def RegionId.fromCentroid {F : Type} (blake3 : List UInt8 → Bytes32) (toLeBytes : F → List UInt8)
    (centroid : Coordinates F) (level : UInt8) (epoch : Epoch) : RegionId :=
  ⟨blake3 (centroid.dims.toList.flatMap toLeBytes ++ level ::
    Bytes.leBytes 8 epoch.number.toNat)⟩

/-- Latencies, committed to. -/
structure CommittedLatencyProfile where
  committedMean : SerializableCommitment
  committedVariance : SerializableCommitment
  sampleCount : UInt32

/-- An edge to a region of the same level. -/
structure GeoidEdge where
  «from» : RegionId
  «to» : RegionId
  profile : CommittedLatencyProfile
  meanNanosPlaintext : ℤ

structure GeoidRegion (F : Type) where
  id : RegionId
  centroid : Coordinates F
  radius : F
  memberCount : UInt32
  intraLatency : CommittedLatencyProfile
  childRegionIds : List RegionId
  interEdges : List GeoidEdge
  geoidResidual : F

/-- One level of the hierarchy. -/
structure GeoidLayer (F : Type) where
  level : UInt8
  resolutionNanos : ℕ
  regions : List (GeoidRegion F)
  epoch : Epoch

/-- The layers, from the finest to the coarsest. -/
structure NetworkGeoid (F : Type) where
  layers : List (GeoidLayer F)
  epoch : Epoch
  refinementGeneration : ℕ
  prevHash : Bytes32

namespace NetworkGeoid

variable {F : Type}

/-- The geoid of an epoch without layers. -/
def new (epoch : Epoch) : NetworkGeoid F := ⟨[], epoch, 0, Vector.replicate 32 0⟩

/-- The epoch, and the id and the number of members of every region. -/
def hashed (geoid : NetworkGeoid F) : List UInt8 :=
  Bytes.leBytes 8 geoid.epoch.number.toNat ++
    geoid.layers.flatMap fun layer => layer.regions.flatMap fun region =>
      region.id.bytes.toList ++ Bytes.leBytes 4 region.memberCount.toNat

def hash (blake3 : List UInt8 → Bytes32) (geoid : NetworkGeoid F) : Bytes32 := blake3 geoid.hashed

end NetworkGeoid

end Rtfsn
