/-
The hierarchy of regions, built from the beacons of an epoch.

* `buildLeafLayer`: a beacon joins the first accumulator whose running centroid is within the base
  resolution, or starts one; each accumulator becomes a region.
* `coarsenLayer`: a region takes the later ones near it that no group has taken; each group is
  merged into one region of the next level (`mergeRegions`).
* `buildHierarchy`: the leaf layer and the layers coarsened from it.

The curve, the hash, the bytes of an `f64` and the random blindings are parameters; a blinding is
named by what it blinds. Negating the nanoseconds of a profile wraps as in a release build; a build
with overflow checks stops where they are the least `i64`.
-/
import Rtfsn.Geoid.Model
import Rtfsn.Layers.Layer1
import Rtfsn.Lib.Grouping
import Rtfsn.Sync.Geometry

namespace Rtfsn

/-- What a pair of blindings is drawn for: the profile of a region, or of an edge. -/
inductive Draw where
  | region (level : UInt8) (index : ℕ)
  | edge (level : UInt8) (i j : ℕ)

/-- How fine the finest layer is, how much coarser each next one, and how many there are. -/
structure CoarseningOperator (F : Type) where
  baseResolutionSecs : F
  scaleFactor : F
  levels : UInt8

/-- The beacons of a leaf region so far: the sum of their positions, their number and their
clock offsets. -/
structure RegionAccum (F : Type) where
  sum : Vector F 6
  count : UInt32
  offsets : List F

variable {F : Type} [F64Coord F]

namespace RegionAccum

def centroid (acc : RegionAccum F) : Coordinates F :=
  ⟨acc.sum.map fun s => s / F64.ofNat acc.count.toNat⟩

def start (beacon : Layer1Beacon F) : RegionAccum F :=
  ⟨beacon.coordinates.position.dims, 1, [beacon.clockOffset]⟩

def add (acc : RegionAccum F) (beacon : Layer1Beacon F) : RegionAccum F :=
  ⟨Vector.zipWith (fun s d => s + d) acc.sum beacon.coordinates.position.dims, acc.count + 1,
    acc.offsets ++ [beacon.clockOffset]⟩

def accepts (threshold : F) (acc : RegionAccum F) (beacon : Layer1Beacon F) : Bool :=
  F64.lt (acc.centroid.distance beacon.coordinates.position) threshold

def meanSecs (acc : RegionAccum F) : F := F64.sum acc.offsets / F64.ofNat acc.offsets.length

def meanNanos (acc : RegionAccum F) : ℤ :=
  if acc.offsets.isEmpty then 0 else F64.toI64 (acc.meanSecs * F64.lit 1000000000)

def varianceNanos (acc : RegionAccum F) : ℤ :=
  if 1 < acc.offsets.length then
    let var := F64.sum (acc.offsets.map fun o => F64.powi (o - acc.meanSecs) 2) /
      F64.ofNat acc.offsets.length
    F64.toI64 (var * F64.lit 1000000000000000000)
  else 0

/-- The spread of the clock offsets. -/
def residual (acc : RegionAccum F) : F :=
  if 1 < acc.offsets.length then
    F64.sum (acc.offsets.map fun o => F64.abs (o - acc.meanSecs)) / F64.ofNat acc.offsets.length
  else 0

end RegionAccum

namespace CoarseningOperator

def new : CoarseningOperator F := ⟨F64.lit 0.002, F64.lit 4, 4⟩

def withLevels (levels : UInt8) : CoarseningOperator F := { new with levels := levels }

section

variable {Point Scalar : Type} [AddCommGroup Point] [CommRing Scalar] [Module Scalar Point]
  (curve : Ristretto Point Scalar) (hGenerator : Point) (blake3 : List UInt8 → Bytes32)
  (toLeBytes : F → List UInt8) (blindings : Draw → Scalar × Scalar)

/-- Nanoseconds as a scalar, the sign kept. -/
def signedScalar (nanos : ℤ) : Scalar :=
  if 0 ≤ nanos then (nanos.toNat : Scalar) else -(wrapU64 (wrapI64 (-nanos)) : Scalar)

def commitLatency (draw : Draw) (meanNanos varianceNanos : ℤ) (count : UInt32) :
    CommittedLatencyProfile where
  committedMean :=
    .from (PedersenCommitment.commit curve hGenerator (signedScalar meanNanos) (blindings draw).1)
  committedVariance :=
    .from (PedersenCommitment.commit curve hGenerator (signedScalar varianceNanos)
      (blindings draw).2)
  sampleCount := count

/-- The two directions of the edge between each pair of regions within the threshold. -/
def edgesToAdd (level : UInt8) (regions : List (GeoidRegion F)) (threshold : F) :
    List (ℕ × GeoidEdge) :=
  (List.finRange regions.length).flatMap fun i => (Loop.above i).flatMap fun j =>
    let dist := (regions.get i).centroid.distance (regions.get j).centroid
    if F64.lt dist threshold then
      let meanNanos := F64.toI64 (dist * F64.lit 1000000000)
      let profile := commitLatency curve hGenerator blindings (.edge level i j) meanNanos 0 1
      [(i, ⟨(regions.get i).id, (regions.get j).id, profile, meanNanos⟩),
        (j, ⟨(regions.get j).id, (regions.get i).id, profile, meanNanos⟩)]
    else []

def addInterEdges (level : UInt8) (regions : List (GeoidRegion F)) (threshold : F) :
    List (GeoidRegion F) :=
  (edgesToAdd curve hGenerator blindings level regions threshold).foldl
    (fun regions (i, edge) =>
      regions.modify i fun r => { r with interEdges := r.interEdges ++ [edge] })
    regions

variable (op : CoarseningOperator F) (epoch : Epoch)

/-- The region of an accumulator. -/
def leafRegion (index : ℕ) (acc : RegionAccum F) : GeoidRegion F where
  id := .fromCentroid blake3 toLeBytes acc.centroid 0 epoch
  centroid := acc.centroid
  radius := op.baseResolutionSecs / F64.lit 2
  memberCount := acc.count
  intraLatency :=
    commitLatency curve hGenerator blindings (.region 0 index) acc.meanNanos acc.varianceNanos
      acc.count
  childRegionIds := []
  interEdges := []
  geoidResidual := acc.residual

def buildLeafLayer (beacons : List (Layer1Beacon F)) : GeoidLayer F :=
  let threshold := op.baseResolutionSecs
  let accums := Grouping.gather (RegionAccum.accepts threshold) .add .start beacons
  let regions := accums.mapIdx (leafRegion curve hGenerator blake3 toLeBytes blindings op epoch)
  { level := 0
    resolutionNanos := F64.toU64 (threshold * F64.lit 1000000000)
    regions := addInterEdges curve hGenerator blindings 0 regions (threshold * F64.lit 3)
    epoch := epoch }

def totalMembers (regions : List (GeoidRegion F)) : UInt32 := (regions.map (·.memberCount)).sum

/-- The centroid of merged regions, weighted by their members. -/
def mergedCentroid (regions : List (GeoidRegion F)) : Coordinates F :=
  let weightSum : F := F64.ofNat (totalMembers regions).toNat
  ⟨regions.foldl
    (fun dims r =>
      let w := F64.ofNat r.memberCount.toNat / F64.max weightSum 1
      Vector.zipWith (fun s d => s + d * w) dims r.centroid.dims)
    (Vector.replicate 6 0)⟩

def mergeRegions (level : UInt8) (index : ℕ) (regions : List (GeoidRegion F)) : GeoidRegion F :=
  let centroid := mergedCentroid regions
  { id := .fromCentroid blake3 toLeBytes centroid level epoch
    centroid := centroid
    radius := (regions.map fun r => r.centroid.distance centroid + r.radius).foldl F64.max 0
    memberCount := totalMembers regions
    intraLatency :=
      commitLatency curve hGenerator blindings (.region level index) 0 0 (totalMembers regions)
    childRegionIds := regions.map (·.id)
    interEdges := []
    geoidResidual := (regions.map (·.geoidResidual)).foldl F64.max 0 }

/-- The distance within which regions are merged into the given level. -/
def mergeThreshold (level : UInt8) : F :=
  op.baseResolutionSecs * F64.powi op.scaleFactor level.toNat

/-- Two regions that a merge into the given level puts together. -/
def near (level : UInt8) (a b : GeoidRegion F) : Bool :=
  F64.lt (a.centroid.distance b.centroid) (op.mergeThreshold level)

def coarsenLayer (layer : GeoidLayer F) : GeoidLayer F :=
  let nextLevel := layer.level + 1
  let threshold := op.mergeThreshold nextLevel
  let groups := Grouping.groupsOf (op.near nextLevel) layer.regions
  let superRegions :=
    groups.mapIdx (mergeRegions curve hGenerator blake3 toLeBytes blindings epoch nextLevel)
  { level := nextLevel
    resolutionNanos := F64.toU64 (threshold * F64.lit 1000000000)
    regions := addInterEdges curve hGenerator blindings nextLevel superRegions
      (threshold * F64.lit 3)
    epoch := epoch }

/-- The layers coarsened from one, until it has no regions. -/
def coarsenFrom : ℕ → GeoidLayer F → List (GeoidLayer F)
  | 0, _ => []
  | count + 1, prev =>
    if prev.regions.isEmpty then []
    else
      let coarser := coarsenLayer curve hGenerator blake3 toLeBytes blindings op epoch prev
      coarser :: coarsenFrom count coarser

def buildHierarchy (beacons : List (Layer1Beacon F)) : NetworkGeoid F :=
  if beacons.isEmpty then .new epoch
  else
    let leaf := buildLeafLayer curve hGenerator blake3 toLeBytes blindings op epoch beacons
    let layers := leaf ::
      coarsenFrom curve hGenerator blake3 toLeBytes blindings op epoch (op.levels.toNat - 1) leaf
    { layers := layers
      epoch := epoch
      refinementGeneration := 0
      prevHash := blake3 (Bytes.leBytes 8 epoch.number.toNat ++
        layers.flatMap fun layer => layer.regions.flatMap fun r => r.id.bytes.toList) }

end

end CoarseningOperator

end Rtfsn
