/-
**The regions of a hierarchy are a function of the positions of its beacons.**

* `GeoidLayer.shape`: the level of a layer, and the centroid and the number of members of its
  regions.
* `hierarchyShapes`: the passes of `build_hierarchy` on these alone.
* `map_shape_buildHierarchy`: what is built has the shapes that the positions give, whatever the
  clock offsets, the blindings and the epoch.
* `hashed_buildHierarchy`: so its hash covers the positions and the epoch, and nothing else.
-/
import Rtfsn.Geoid.Lineage

namespace Rtfsn

variable {F : Type}

/-- The centroid of a region and the number of its members. -/
def GeoidRegion.shape (r : GeoidRegion F) : Coordinates F × UInt32 := (r.centroid, r.memberCount)

/-- The level of a layer and the shapes of its regions. -/
def GeoidLayer.shape (layer : GeoidLayer F) : UInt8 × List (Coordinates F × UInt32) :=
  (layer.level, layer.regions.map (·.shape))

namespace CoarseningOperator

/-! ### The passes on shapes -/

section Shapes

def totalOf (shapes : List (Coordinates F × UInt32)) : UInt32 := (shapes.map Prod.snd).sum

variable [F64Coord F]

/-- The centroid of so many positions with this sum. -/
def centroidOfSum (acc : Vector F 6 × UInt32) : Coordinates F :=
  ⟨acc.1.map fun s => s / F64.ofNat acc.2.toNat⟩

/-- The sums and the numbers of the positions that the leaf layer puts together. -/
def leafSums (op : CoarseningOperator F) (positions : List (Coordinates F)) :
    List (Vector F 6 × UInt32) :=
  Grouping.gather
    (fun acc position => F64.lt ((centroidOfSum acc).distance position) op.baseResolutionSecs)
    (fun acc position => (Vector.zipWith (fun s d => s + d) acc.1 position.dims, acc.2 + 1))
    (fun position => (position.dims, 1)) positions

def leafShapes (op : CoarseningOperator F) (positions : List (Coordinates F)) :
    List (Coordinates F × UInt32) :=
  (op.leafSums positions).map fun acc => (centroidOfSum acc, acc.2)

/-- The centroid of merged shapes, weighted by their members. -/
def centroidOf (shapes : List (Coordinates F × UInt32)) : Coordinates F :=
  let weightSum : F := F64.ofNat (totalOf shapes).toNat
  ⟨shapes.foldl
    (fun dims s =>
      let w := F64.ofNat s.2.toNat / F64.max weightSum 1
      Vector.zipWith (fun s d => s + d * w) dims s.1.dims)
    (Vector.replicate 6 0)⟩

def coarsenShapes (op : CoarseningOperator F) (level : UInt8)
    (shapes : List (Coordinates F × UInt32)) : List (Coordinates F × UInt32) :=
  (Grouping.groupsOf (fun a b => F64.lt (a.1.distance b.1) (op.mergeThreshold level)) shapes).map
    fun group => (centroidOf group, totalOf group)

def shapesFrom (op : CoarseningOperator F) :
    ℕ → UInt8 × List (Coordinates F × UInt32) → List (UInt8 × List (Coordinates F × UInt32))
  | 0, _ => []
  | count + 1, prev =>
    if prev.2.isEmpty then []
    else
      let coarser := (prev.1 + 1, op.coarsenShapes (prev.1 + 1) prev.2)
      coarser :: shapesFrom op count coarser

/-- The shapes of the layers, from the positions of the beacons. -/
def hierarchyShapes (op : CoarseningOperator F) (positions : List (Coordinates F)) :
    List (UInt8 × List (Coordinates F × UInt32)) :=
  if positions.isEmpty then []
  else
    let leaf := (0, op.leafShapes positions)
    leaf :: op.shapesFrom (op.levels.toNat - 1) leaf

end Shapes

/-! ### What is built has these shapes -/

section Built

/-- Where the beacons are. -/
def positions (beacons : List (Layer1Beacon F)) : List (Coordinates F) :=
  beacons.map fun beacon => beacon.coordinates.position

/-- A layer whose regions have the ids of their centroids. -/
def Named (blake3 : List UInt8 → Bytes32) (toLeBytes : F → List UInt8) (epoch : Epoch)
    (layer : GeoidLayer F) : Prop :=
  ∀ r ∈ layer.regions, r.id = .fromCentroid blake3 toLeBytes r.centroid layer.level epoch

/-- What a region without its edges is made of can be read off its layer. -/
theorem map_of_aligned {X Y : Type} {f : ℕ → X → GeoidRegion F} {regions : List (GeoidRegion F)}
    {xs : List X}
    (aligned : List.Forall₂ (fun r x => ∃ i, GeoidRegion.SameButEdges r (f i x)) regions xs)
    {g : GeoidRegion F → Y} (edgeless : ∀ r edges, g { r with interEdges := edges } = g r)
    {h : X → Y} (made : ∀ i x, g (f i x) = h x) : regions.map g = xs.map h := by
  rw [← List.forall₂_eq_eq_eq, List.forall₂_map_left_iff, List.forall₂_map_right_iff]
  refine aligned.imp fun r x same => ?_
  obtain ⟨i, edges, rfl⟩ := same
  rw [edgeless, made]

theorem totalMembers_eq (regions : List (GeoidRegion F)) :
    totalMembers regions = totalOf (regions.map (·.shape)) := by
  unfold totalMembers totalOf
  rw [List.map_map]
  rfl

/-- What holds of a region whatever its edges, of every region of its layer. -/
theorem forall_of_aligned {X : Type} {f : ℕ → X → GeoidRegion F} {regions : List (GeoidRegion F)}
    {xs : List X}
    (aligned : List.Forall₂ (fun r x => ∃ i, GeoidRegion.SameButEdges r (f i x)) regions xs)
    {P : GeoidRegion F → Prop} (edgeless : ∀ r edges, P r → P { r with interEdges := edges })
    (made : ∀ i x, P (f i x)) : ∀ r ∈ regions, P r := by
  induction aligned with
  | nil => exact fun _ member => absurd member List.not_mem_nil
  | cons same _ ih =>
    refine List.forall_mem_cons.mpr ⟨?_, ih⟩
    obtain ⟨i, edges, rfl⟩ := same
    exact edgeless _ edges (made i _)

variable [F64Coord F] {Point Scalar : Type} [AddCommGroup Point] [CommRing Scalar]
  [Module Scalar Point]
  (curve : Ristretto Point Scalar) (hGenerator : Point) (blake3 : List UInt8 → Bytes32)
  (toLeBytes : F → List UInt8) (blindings : Draw → Scalar × Scalar) (op : CoarseningOperator F)
  (epoch : Epoch)

theorem map_accums_sums (beacons : List (Layer1Beacon F)) :
    (op.accums beacons).map (fun acc => (acc.sum, acc.count)) =
      op.leafSums (positions beacons) := by
  unfold accums leafSums positions
  apply Grouping.gather_map (fun acc : RegionAccum F => (acc.sum, acc.count))
  · exact fun _ _ => rfl
  · exact fun _ _ => rfl
  · exact fun _ => rfl

theorem shape_buildLeafLayer (beacons : List (Layer1Beacon F)) :
    (buildLeafLayer curve hGenerator blake3 toLeBytes blindings op epoch beacons).shape =
      (0, op.leafShapes (positions beacons)) := by
  have aligned := aligned_accums curve hGenerator blake3 toLeBytes blindings op epoch beacons
  refine Prod.ext rfl ?_
  refine (map_of_aligned aligned (fun _ _ => rfl) (h := fun acc => (acc.centroid, acc.count))
    fun _ _ => rfl).trans ?_
  rw [leafShapes, ← map_accums_sums, List.map_map]
  rfl

theorem mergedCentroid_eq (regions : List (GeoidRegion F)) :
    mergedCentroid regions = centroidOf (regions.map (·.shape)) := by
  unfold mergedCentroid centroidOf
  rw [totalMembers_eq]
  dsimp only
  rw [List.foldl_map]
  rfl

theorem shape_coarsenLayer (layer : GeoidLayer F) :
    (coarsenLayer curve hGenerator blake3 toLeBytes blindings op epoch layer).shape =
      (layer.level + 1, op.coarsenShapes (layer.level + 1) (layer.regions.map (·.shape))) := by
  have aligned := aligned_groups curve hGenerator blake3 toLeBytes blindings op epoch layer
  refine Prod.ext rfl ?_
  refine (map_of_aligned aligned (fun _ _ => rfl)
    (h := fun group => (mergedCentroid group, totalMembers group)) fun _ _ => rfl).trans ?_
  rw [coarsenShapes, Grouping.groupsOf_map, List.map_map]
  refine List.map_congr_left fun group _ => ?_
  exact Prod.ext (mergedCentroid_eq group) (totalMembers_eq group)

theorem map_shape_coarsenFrom (count : ℕ) (prev : GeoidLayer F) :
    (coarsenFrom curve hGenerator blake3 toLeBytes blindings op epoch count prev).map (·.shape) =
      op.shapesFrom count prev.shape := by
  induction count generalizing prev with
  | zero => rfl
  | succ count ih =>
    have empty : prev.shape.2.isEmpty = prev.regions.isEmpty := List.isEmpty_map
    rw [coarsenFrom, shapesFrom, empty]
    split_ifs
    · rfl
    · rw [List.map_cons, ih, shape_coarsenLayer]
      rfl

/-- **The shapes are those of the positions.** -/
theorem map_shape_buildHierarchy (beacons : List (Layer1Beacon F)) :
    (buildHierarchy curve hGenerator blake3 toLeBytes blindings op epoch beacons).layers.map
        (·.shape) = op.hierarchyShapes (positions beacons) := by
  unfold buildHierarchy hierarchyShapes
  simp only [positions, List.isEmpty_map]
  split_ifs
  · rfl
  · rw [List.map_cons, map_shape_coarsenFrom, shape_buildLeafLayer]
    rfl

/-! ### The ids -/

theorem named_buildLeafLayer (beacons : List (Layer1Beacon F)) :
    Named blake3 toLeBytes epoch
      (buildLeafLayer curve hGenerator blake3 toLeBytes blindings op epoch beacons) :=
  forall_of_aligned (aligned_accums curve hGenerator blake3 toLeBytes blindings op epoch beacons)
    (fun _ _ named => named) fun _ _ => rfl

theorem named_coarsenLayer (layer : GeoidLayer F) :
    Named blake3 toLeBytes epoch
      (coarsenLayer curve hGenerator blake3 toLeBytes blindings op epoch layer) :=
  forall_of_aligned (aligned_groups curve hGenerator blake3 toLeBytes blindings op epoch layer)
    (fun _ _ named => named) fun _ _ => rfl

theorem named_coarsenFrom (count : ℕ) (prev : GeoidLayer F) :
    ∀ layer ∈ coarsenFrom curve hGenerator blake3 toLeBytes blindings op epoch count prev,
      Named blake3 toLeBytes epoch layer := by
  induction count generalizing prev with
  | zero => exact fun _ member => absurd member List.not_mem_nil
  | succ count ih =>
    unfold coarsenFrom
    split_ifs
    · exact fun _ member => absurd member List.not_mem_nil
    · exact List.forall_mem_cons.mpr
        ⟨named_coarsenLayer curve hGenerator blake3 toLeBytes blindings op epoch prev, ih _⟩

/-- Every region of the hierarchy has the id of its centroid. -/
theorem named_buildHierarchy (beacons : List (Layer1Beacon F)) :
    ∀ layer ∈ (buildHierarchy curve hGenerator blake3 toLeBytes blindings op epoch beacons).layers,
      Named blake3 toLeBytes epoch layer := by
  unfold buildHierarchy
  split_ifs
  · exact fun _ member => absurd member List.not_mem_nil
  · exact List.forall_mem_cons.mpr
      ⟨named_buildLeafLayer curve hGenerator blake3 toLeBytes blindings op epoch beacons,
        named_coarsenFrom curve hGenerator blake3 toLeBytes blindings op epoch _ _⟩

/-! ### The hash -/

/-- What is hashed of a hierarchy, from the shapes of its layers. -/
def hashedShapes (layers : List (UInt8 × List (Coordinates F × UInt32))) : List UInt8 :=
  Bytes.leBytes 8 epoch.number.toNat ++ layers.flatMap fun layer => layer.2.flatMap fun region =>
    (RegionId.fromCentroid blake3 toLeBytes region.1 layer.1 epoch).bytes.toList ++
      Bytes.leBytes 4 region.2.toNat

theorem epoch_buildHierarchy (beacons : List (Layer1Beacon F)) :
    (buildHierarchy curve hGenerator blake3 toLeBytes blindings op epoch beacons).epoch =
      epoch := by
  unfold buildHierarchy
  split_ifs
  · rfl
  · rfl

/-- **The hash covers the positions and the epoch.** -/
theorem hashed_buildHierarchy (beacons : List (Layer1Beacon F)) :
    (buildHierarchy curve hGenerator blake3 toLeBytes blindings op epoch beacons).hashed =
      hashedShapes blake3 toLeBytes epoch (op.hierarchyShapes (positions beacons)) := by
  have named := named_buildHierarchy curve hGenerator blake3 toLeBytes blindings op epoch beacons
  unfold NetworkGeoid.hashed hashedShapes
  rw [epoch_buildHierarchy,
    ← map_shape_buildHierarchy curve hGenerator blake3 toLeBytes blindings op epoch,
    List.flatMap_map]
  refine congrArg (_ ++ ·) (List.flatMap_congr fun layer listed => ?_)
  rw [GeoidLayer.shape, List.flatMap_map]
  refine List.flatMap_congr fun region member => ?_
  rw [named layer listed region member]
  rfl

end Built

end CoarseningOperator

end Rtfsn
