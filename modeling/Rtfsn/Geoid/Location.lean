/-
**Where a point lies in the hierarchy**, `f64` read as exact reals.

* `GeoidLayer.assignRegion`, `findRegion`: the region with the nearest centroid, and the region of
  an id. `NetworkGeoid.locate`, `GeoidCoordinate.fromVivaldi`: the nearest regions at every level.
* `GeoidLayer.Coarser`: what a layer is to the one it was merged from. A centroid is within twice
  the threshold of the one it was merged into, and balls grow by no more.
* `isChain_buildHierarchy`: so it is between any two levels of a hierarchy.
* `fromVivaldi_located`: a position has one region at each level, the nearest one, and going up the
  levels it is at most `climb` farther away than a leaf region.
-/
import Rtfsn.Geoid.Embedding
import Rtfsn.Geoid.Hierarchy
import Rtfsn.Geoid.Shape
import Rtfsn.Lib.Pyramid

namespace Rtfsn

section Location

variable {F : Type}

/-- The region of an id. -/
def GeoidLayer.findRegion (layer : GeoidLayer F) (id : RegionId) : Option (GeoidRegion F) :=
  layer.regions.find? fun r => r.id = id

/-- The id of a region is found, though perhaps another region of it. -/
theorem GeoidLayer.exists_findRegion {layer : GeoidLayer F} {r : GeoidRegion F}
    (listed : r ∈ layer.regions) :
    ∃ r' ∈ layer.regions, r'.id = r.id ∧ layer.findRegion r.id = some r' := by
  have present : (layer.findRegion r.id).isSome :=
    List.find?_isSome.mpr ⟨r, listed, decide_eq_true rfl⟩
  obtain ⟨r', found⟩ := Option.isSome_iff_exists.mp present
  have ids := List.find?_some (p := fun r' : GeoidRegion F => decide (r'.id = r.id)) found
  exact ⟨r', List.mem_of_find?_eq_some found, of_decide_eq_true ids, found⟩

theorem GeoidLayer.findRegion_of_nodup {layer : GeoidLayer F}
    (distinct : (layer.regions.map (·.id)).Nodup) {r : GeoidRegion F}
    (listed : r ∈ layer.regions) : layer.findRegion r.id = some r := by
  obtain ⟨r', listed', ids, found⟩ := GeoidLayer.exists_findRegion listed
  rw [found, List.inj_on_of_nodup_map distinct listed' listed ids]

variable [F64Coord F]

namespace GeoidLayer

variable (layer : GeoidLayer F)

/-- The first of the regions with the nearest centroid. -/
def nearestRegion (coords : Coordinates F) : Option (GeoidRegion F) :=
  Pyramid.firstLeast
    (fun a b => F64.lt (a.centroid.distance coords) (b.centroid.distance coords)) layer.regions

/-- Assign coordinates to the nearest region centroid. -/
def assignRegion (coords : Coordinates F) : Option RegionId :=
  (layer.nearestRegion coords).map (·.id)

end GeoidLayer

namespace NetworkGeoid

variable (geoid : NetworkGeoid F)

/-- The number of levels, as a byte. -/
def depth : UInt8 := UInt8.ofNat geoid.layers.length

/-- For each level, the region the coordinates fall in. -/
def locate (coords : Coordinates F) : List (Option RegionId) :=
  geoid.layers.map (·.assignRegion coords)

end NetworkGeoid

namespace GeoidCoordinate

/-- The regions of the geoid that the coordinates fall in. -/
def fromVivaldi (coords : Coordinates F) (geoid : NetworkGeoid F) : GeoidCoordinate F where
  regionPath := geoid.layers.filterMap (·.assignRegion coords)
  intraRegionPosition := coords
  epoch := geoid.epoch

def depth (coord : GeoidCoordinate F) : ℕ := coord.regionPath.length

/-- Whether both are in one region at the given level. -/
def sameRegionAtLevel (coord other : GeoidCoordinate F) (level : ℕ) : Bool :=
  match coord.regionPath[level]?, other.regionPath[level]? with
  | some a, some b => a = b
  | _, _ => false

end GeoidCoordinate

/-! ### Nearest regions -/

namespace GeoidLayer

variable {layer : GeoidLayer F} {coords : Coordinates F}

theorem nearestRegion_mem {r : GeoidRegion F} (nearest : layer.nearestRegion coords = some r) :
    r ∈ layer.regions :=
  Pyramid.firstLeast_mem nearest

theorem exists_nearestRegion (inhabited : layer.regions ≠ []) (coords : Coordinates F) :
    ∃ r ∈ layer.regions, layer.nearestRegion coords = some r :=
  Pyramid.exists_firstLeast _ inhabited

theorem exists_assignRegion (inhabited : layer.regions ≠ []) (coords : Coordinates F) :
    ∃ r, layer.nearestRegion coords = some r ∧ layer.assignRegion coords = some r.id := by
  obtain ⟨r, _, nearest⟩ := exists_nearestRegion inhabited coords
  exact ⟨r, nearest, congrArg (Option.map fun r : GeoidRegion F => r.id) nearest⟩

/-- Layers with regions put every point somewhere. -/
theorem filterMap_assignRegion {layers : List (GeoidLayer F)}
    (inhabited : ∀ layer ∈ layers, layer.regions ≠ []) (coords : Coordinates F) :
    layers.map (·.assignRegion coords) =
      (layers.filterMap (·.assignRegion coords)).map some := by
  induction layers with
  | nil => rfl
  | cons layer layers ih =>
    obtain ⟨here, others⟩ := List.forall_mem_cons.mp inhabited
    obtain ⟨r, _, assigned⟩ := exists_assignRegion here coords
    have kept : (layer :: layers).filterMap (·.assignRegion coords) =
        r.id :: layers.filterMap (·.assignRegion coords) := List.filterMap_cons_some assigned
    rw [kept, List.map_cons, List.map_cons, assigned, ih others]

theorem nearestRegion_eq_argmin (layer : GeoidLayer ℝ) (coords : Coordinates ℝ) :
    layer.nearestRegion coords = layer.regions.argmin fun r => r.centroid.distance coords :=
  Pyramid.firstLeast_eq_argmin _ layer.regions

theorem nearestRegion_le {layer : GeoidLayer ℝ} {coords : Coordinates ℝ} {r r' : GeoidRegion ℝ}
    (nearest : layer.nearestRegion coords = some r) (listed : r' ∈ layer.regions) :
    r.centroid.distance coords ≤ r'.centroid.distance coords := by
  rw [nearestRegion_eq_argmin] at nearest
  exact List.le_of_mem_argmin listed nearest

/-- **The nearest region is found by its id**, where ids tell the centroids of the layer apart. -/
theorem findRegion_nearestRegion {layer : GeoidLayer ℝ} {coords : Coordinates ℝ}
    {r : GeoidRegion ℝ}
    (apart : ∀ a ∈ layer.regions, ∀ b ∈ layer.regions, a.id = b.id → a.centroid = b.centroid)
    (nearest : layer.nearestRegion coords = some r) : layer.findRegion r.id = some r := by
  classical
  have listed := nearestRegion_mem nearest
  obtain ⟨r', listed', ids, found⟩ := exists_findRegion listed
  rw [nearestRegion_eq_argmin] at nearest
  obtain ⟨_, earlier, later, split, before⟩ := List.find?_eq_some_iff_append.mp found
  -- Both come first in the list: one of the nearest, the other of those of the id.
  have same : r'.centroid.distance coords ≤ r.centroid.distance coords :=
    (congrArg (·.distance coords) (apart r' listed' r listed ids)).le
  have first := (List.mem_argmin_iff.mp nearest).2.2 r' listed' same
  have skipped (a : GeoidRegion ℝ) (id : a.id = r.id) : a ∉ earlier := fun member => by
    simpa [id] using before a member
  rw [split, List.idxOf_append_of_notMem (skipped r rfl),
    List.idxOf_append_of_notMem (skipped r' ids), List.idxOf_cons_self] at first
  have head : (r' :: later).idxOf r = 0 := by omega
  rw [found, (List.idxOf_eq_zero_iff_head_eq (List.cons_ne_nil _ _)).mp head |>.symm]
  rfl

end GeoidLayer

end Location

/-! ### A merge -/

namespace CoarseningOperator

section Merge

/-- The weight of a region among those it is merged with. -/
noncomputable def weightIn (regions : List (GeoidRegion ℝ)) (r : GeoidRegion ℝ) : ℝ :=
  (r.memberCount.toNat : ℝ) / max ((totalMembers regions).toNat : ℝ) 1

theorem toEuclidean_mergedCentroid (regions : List (GeoidRegion ℝ)) :
    (mergedCentroid regions).toEuclidean =
      (regions.map fun r => weightIn regions r • r.centroid.toEuclidean).sum := by
  ext i
  have entry := map_list_sum (EuclideanSpace.proj i : EuclideanSpace ℝ (Fin 6) →L[ℝ] ℝ)
    (regions.map fun r => weightIn regions r • r.centroid.toEuclidean)
  rw [List.map_map] at entry
  refine (mergedCentroid_dims regions i).trans (Eq.trans ?_ entry.symm)
  refine congrArg List.sum (List.map_congr_left fun r _ => ?_)
  simp [weightIn, Vector.get_eq_getElem, mul_comm]

variable {group : List (Lineage ℝ)} (sound : ∀ l ∈ group, l.Sound)
  (inhabited : ∀ l ∈ group, l.beacons ≠ []) (nonempty : group ≠ [])
  (few : (group.flatMap (·.beacons)).length < 2 ^ 32)

include sound inhabited nonempty few in
theorem sum_weightIn : (group.map fun l => weightIn (group.map (·.region)) l.region).sum = 1 := by
  obtain ⟨first, member⟩ := List.exists_mem_of_ne_nil group nonempty
  have present : 0 < (group.flatMap (·.beacons)).length :=
    (List.length_pos_iff.mpr (inhabited first member)).trans_le
      (Grouping.length_le_of_flatMap_perm (.refl _) member)
  have positive : (1 : ℝ) ≤ (group.flatMap (·.beacons)).length := by exact_mod_cast present
  have counts : (group.map fun l => (l.region.memberCount.toNat : ℝ)).sum =
      (group.flatMap (·.beacons)).length := by
    rw [List.length_flatMap, Nat.cast_list_sum, List.map_map]
    refine congrArg List.sum (List.map_congr_left fun l listed => ?_)
    exact congrArg Nat.cast (sound l listed).memberCount
  unfold weightIn
  rw [toNat_totalMembers sound few, max_eq_left positive]
  simp only [div_eq_mul_inv]
  rw [List.sum_map_mul_right, counts]
  exact mul_inv_cancel₀ (by linarith)

include sound inhabited nonempty few in
/-- **The centroid of merged regions** is near what each of them is near. -/
theorem distance_mergedCentroid_le {p : Coordinates ℝ} {bound : ℝ}
    (near : ∀ l ∈ group, p.distance l.region.centroid ≤ bound) :
    p.distance (mergedCentroid (group.map (·.region))) ≤ bound := by
  have weights := sum_weightIn sound inhabited nonempty few
  have mean := Pyramid.norm_weighted_sub_le p.toEuclidean
    (group.map fun l => (weightIn (group.map (·.region)) l.region, l.region.centroid.toEuclidean))
    (List.forall_mem_map.mpr fun l _ => by unfold weightIn; positivity)
    (List.forall_mem_map.mpr fun l listed => by
      rw [← dist_eq_norm, ← Coordinates.distance_eq_dist]
      exact near l listed)
  rw [List.map_map, List.map_map] at mean
  simp only [Function.comp_def] at mean
  rw [weights, one_smul, one_mul, ← dist_eq_norm] at mean
  rw [Coordinates.distance_eq_dist, toEuclidean_mergedCentroid, List.map_map]
  exact mean

end Merge

/-! ### Between two levels -/

/-- What a layer is to the finer one it was merged from. -/
structure Coarser (op : CoarseningOperator ℝ) (fine coarse : GeoidLayer ℝ) : Prop where
  level : coarse.level = fine.level + 1
  near : ∀ r ∈ fine.regions, ∃ r' ∈ coarse.regions,
    r.centroid.distance r'.centroid ≤ 2 * op.mergeThreshold coarse.level
  radius : ∀ bound, 0 ≤ bound → (∀ r ∈ fine.regions, r.radius ≤ bound) →
    ∀ r' ∈ coarse.regions, r'.radius ≤ bound + 2 * op.mergeThreshold coarse.level

section Levels

variable {Point Scalar : Type} [AddCommGroup Point] [CommRing Scalar] [Module Scalar Point]
  (curve : Ristretto Point Scalar) (hGenerator : Point) (blake3 : List UInt8 → Bytes32)
  (toLeBytes : ℝ → List UInt8) (blindings : Draw → Scalar × Scalar) (op : CoarseningOperator ℝ)
  (epoch : Epoch) {beacons : List (Layer1Beacon ℝ)} {layer : GeoidLayer ℝ}
  {fine : List (Lineage ℝ)} {leaves : List (GeoidRegion ℝ)}

/-- The children of a merged region are within twice the threshold of its centroid. -/
theorem distance_child_le (threshold : 0 ≤ op.mergeThreshold (layer.level + 1))
    (few : beacons.length < 2 ^ 32) (regions : fine.map (·.region) = layer.regions)
    (level : Lineage.Level beacons leaves fine) :
    ∀ l ∈ coarsenLineages curve hGenerator blake3 toLeBytes blindings op epoch layer fine,
      ∀ child ∈ l.children, child.centroid.distance l.region.centroid ≤
        2 * op.mergeThreshold (layer.level + 1) := by
  intro l listed child member
  have whole := coarsenLineages_level curve hGenerator blake3 toLeBytes blindings op epoch few
    regions level
  have own := (Grouping.length_le_of_flatMap_perm whole.beacons listed).trans_lt few
  have aligned := aligned_lineageGroups curve hGenerator blake3 toLeBytes blindings op epoch regions
  obtain ⟨region, group, grouped, ⟨i, edges, rfl⟩, rfl⟩ := Grouping.mem_zipWith aligned listed
  have finer : ∀ l ∈ group, l ∈ fine := fun l inGroup => Grouping.mem_of_groupsOf grouped inGroup
  obtain ⟨first, rest, rfl, close⟩ := Grouping.near_of_groupsOf grouped
  -- The members are within the threshold of the first, and so is their centroid.
  have near : ∀ l ∈ first :: rest,
      first.region.centroid.distance l.region.centroid ≤ op.mergeThreshold (layer.level + 1) := by
    refine List.forall_mem_cons.mpr ⟨?_, fun l inRest => ?_⟩
    · rw [Coordinates.distance_self]
      exact threshold
    · have within := close l inRest
      unfold CoarseningOperator.near at within
      rw [F64.lt_real, decide_eq_true_eq] at within
      exact within.le
  have centroid := distance_mergedCentroid_le (fun l inGroup => level.sound l (finer l inGroup))
    (fun l inGroup => level.inhabited l (finer l inGroup)) (List.cons_ne_nil _ _) own near
  obtain ⟨l, inGroup, rfl⟩ := List.mem_map.mp member
  have here := near l inGroup
  rw [Coordinates.distance_comm] at here
  calc l.region.centroid.distance (mergedCentroid ((first :: rest).map (·.region)))
      ≤ l.region.centroid.distance first.region.centroid +
          first.region.centroid.distance (mergedCentroid ((first :: rest).map (·.region))) :=
        Coordinates.distance_triangle ..
    _ ≤ 2 * op.mergeThreshold (layer.level + 1) := by linarith

/-- The radius of a merged region is nothing, or the reach of one of its children. -/
theorem radius_eq_reach (regions : fine.map (·.region) = layer.regions) :
    ∀ l ∈ coarsenLineages curve hGenerator blake3 toLeBytes blindings op epoch layer fine,
      l.region.radius = 0 ∨ ∃ child ∈ l.children,
        child.centroid.distance l.region.centroid + child.radius = l.region.radius := by
  intro l listed
  have aligned := aligned_lineageGroups curve hGenerator blake3 toLeBytes blindings op epoch regions
  obtain ⟨region, group, _, ⟨i, edges, rfl⟩, rfl⟩ := Grouping.mem_zipWith aligned listed
  rcases (isGreatest_foldl_max _ 0).1 with zero | reached
  · exact Or.inl zero
  · exact Or.inr (List.mem_map.mp reached)

/-- **A merge** makes a coarser layer. -/
theorem coarsenLayer_coarser (threshold : 0 ≤ op.mergeThreshold (layer.level + 1))
    (few : beacons.length < 2 ^ 32) (regions : fine.map (·.region) = layer.regions)
    (level : Lineage.Level beacons leaves fine) :
    op.Coarser layer
      (coarsenLayer curve hGenerator blake3 toLeBytes blindings op epoch layer) := by
  have made := map_region_coarsenLineages curve hGenerator blake3 toLeBytes blindings op epoch
    regions
  have children := coarsenLineages_children curve hGenerator blake3 toLeBytes blindings op epoch
    regions
  have close := distance_child_le curve hGenerator blake3 toLeBytes blindings op epoch threshold few
    regions level
  refine ⟨rfl, fun r listed => ?_, fun bound nonneg radii r' listed => ?_⟩
  · rw [← regions, ← children.mem_iff] at listed
    obtain ⟨l, merged, child⟩ := List.mem_flatMap.mp listed
    refine ⟨l.region, ?_, close l merged r child⟩
    rw [← made]
    exact List.mem_map_of_mem merged
  · rw [← made] at listed
    obtain ⟨l, merged, rfl⟩ := List.mem_map.mp listed
    rcases radius_eq_reach curve hGenerator blake3 toLeBytes blindings op epoch regions l merged with
      zero | ⟨child, member, reach⟩
    · rw [zero]
      exact add_nonneg nonneg (mul_nonneg zero_le_two threshold)
    · have finer : child ∈ layer.regions := by
        rw [← regions, ← children.mem_iff]
        exact List.mem_flatMap.mpr ⟨l, merged, member⟩
      rw [← reach, add_comm]
      exact add_le_add (radii child finer) (close l merged child member)

theorem mergeThreshold_nonneg {op : CoarseningOperator ℝ} (resolution : 0 ≤ op.baseResolutionSecs)
    (scale : 0 ≤ op.scaleFactor) (level : UInt8) : 0 ≤ op.mergeThreshold level := by
  unfold mergeThreshold
  rw [F64.powi_real]
  positivity

theorem isChain_coarsenFrom (resolution : 0 ≤ op.baseResolutionSecs) (scale : 0 ≤ op.scaleFactor)
    (few : beacons.length < 2 ^ 32) (count : ℕ) (regions : fine.map (·.region) = layer.regions)
    (level : Lineage.Level beacons leaves fine) :
    (layer :: coarsenFrom curve hGenerator blake3 toLeBytes blindings op epoch count
      layer).IsChain op.Coarser := by
  induction count generalizing layer fine with
  | zero => exact .singleton layer
  | succ count ih =>
    unfold coarsenFrom
    split_ifs
    · exact .singleton layer
    · have threshold := mergeThreshold_nonneg resolution scale (layer.level + 1)
      exact .cons_cons
        (coarsenLayer_coarser curve hGenerator blake3 toLeBytes blindings op epoch threshold few
          regions level)
        (ih (map_region_coarsenLineages curve hGenerator blake3 toLeBytes blindings op epoch
            regions)
          (coarsenLineages_level curve hGenerator blake3 toLeBytes blindings op epoch few regions
            level))

/-- **Each level of a hierarchy** is coarser than the one below. -/
theorem isChain_buildHierarchy (resolution : 0 ≤ op.baseResolutionSecs)
    (scale : 0 ≤ op.scaleFactor) (few : beacons.length < 2 ^ 32) :
    (buildHierarchy curve hGenerator blake3 toLeBytes blindings op epoch
      beacons).layers.IsChain op.Coarser := by
  unfold buildHierarchy
  split_ifs
  · exact .nil
  · exact isChain_coarsenFrom curve hGenerator blake3 toLeBytes blindings op epoch resolution scale
      few _ (map_region_leafLineages curve hGenerator blake3 toLeBytes blindings op epoch beacons)
      (leafLineages_level curve hGenerator blake3 toLeBytes blindings op epoch few)

theorem radius_buildLeafLayer :
    ∀ r ∈ (buildLeafLayer curve hGenerator blake3 toLeBytes blindings op epoch beacons).regions,
      r.radius = op.baseResolutionSecs / 2 :=
  forall_of_aligned (aligned_accums curve hGenerator blake3 toLeBytes blindings op epoch beacons)
    (fun _ _ radius => radius) fun _ _ => by simp [leafRegion]

end Levels

/-! ### Up the hierarchy -/

section Up

/-- How much farther a centroid of the level `k` may be than one of the leaf layer. -/
noncomputable def climb (op : CoarseningOperator ℝ) (k : ℕ) : ℝ :=
  ∑ j ∈ Finset.range k, 2 * (op.baseResolutionSecs * op.scaleFactor ^ (j + 1))

variable {op : CoarseningOperator ℝ} {layers : List (GeoidLayer ℝ)}
  (chain : layers.IsChain op.Coarser) (few : layers.length ≤ 2 ^ 8)

include chain in
theorem level_of_isChain (leaf : ∀ layer, layers[0]? = some layer → layer.level = 0) (k : ℕ)
    {layer : GeoidLayer ℝ} (listed : layers[k]? = some layer) : layer.level = UInt8.ofNat k := by
  induction k generalizing layer with
  | zero => exact leaf layer listed
  | succ k ih =>
    obtain ⟨inside, rfl⟩ := List.getElem?_eq_some_iff.mp listed
    have below : layers[k]? = some layers[k] := List.getElem?_eq_getElem (by omega)
    rw [(List.isChain_iff_getElem.mp chain k inside).level, ih below, ← UInt8.ofNat_one,
      ← UInt8.ofNat_add]

include chain few in
theorem mergeThreshold_of_isChain (leaf : ∀ layer, layers[0]? = some layer → layer.level = 0)
    (k : ℕ) {layer : GeoidLayer ℝ} (listed : layers[k]? = some layer) :
    op.mergeThreshold layer.level = op.baseResolutionSecs * op.scaleFactor ^ k := by
  obtain ⟨inside, _⟩ := List.getElem?_eq_some_iff.mp listed
  have small : k % 2 ^ 8 = k := Nat.mod_eq_of_lt (by omega)
  rw [mergeThreshold, level_of_isChain chain leaf k listed, F64.powi_real, UInt8.toNat_ofNat', small]

include chain few in
/-- The levels are a pyramid. -/
theorem climbs_of_isChain (leaf : ∀ layer, layers[0]? = some layer → layer.level = 0) :
    Pyramid.Climbs (fun r r' : GeoidRegion ℝ => r.centroid.distance r'.centroid)
      (fun j => 2 * (op.baseResolutionSecs * op.scaleFactor ^ (j + 1)))
      (layers.map (·.regions)) := by
  intro k fine coarse first second r listed
  rw [List.getElem?_map, Option.map_eq_some_iff] at first second
  obtain ⟨lower, here, rfl⟩ := first
  obtain ⟨upper, above, rfl⟩ := second
  have threshold := mergeThreshold_of_isChain chain few leaf (k + 1) above
  obtain ⟨_, rfl⟩ := List.getElem?_eq_some_iff.mp here
  obtain ⟨inside, rfl⟩ := List.getElem?_eq_some_iff.mp above
  obtain ⟨r', listed', near⟩ := (List.isChain_iff_getElem.mp chain k inside).near r listed
  rw [threshold] at near
  exact ⟨r', listed', near⟩

include chain few in
/-- **The radii** grow up the levels by no more than the centroids move. -/
theorem radius_of_isChain (resolution : 0 ≤ op.baseResolutionSecs) (scale : 0 ≤ op.scaleFactor)
    (leaf : ∀ layer, layers[0]? = some layer →
      layer.level = 0 ∧ ∀ r ∈ layer.regions, r.radius = op.baseResolutionSecs / 2)
    (k : ℕ) {layer : GeoidLayer ℝ} (listed : layers[k]? = some layer) :
    ∀ r ∈ layer.regions, r.radius ≤ op.baseResolutionSecs / 2 + op.climb k := by
  induction k generalizing layer with
  | zero =>
    intro r member
    rw [(leaf layer listed).2 r member, climb, Finset.sum_range_zero, add_zero]
  | succ k ih =>
    have threshold := mergeThreshold_of_isChain chain few (fun l first => (leaf l first).1) (k + 1)
      listed
    obtain ⟨inside, rfl⟩ := List.getElem?_eq_some_iff.mp listed
    have below : layers[k]? = some layers[k] := List.getElem?_eq_getElem (by omega)
    have nonneg : 0 ≤ op.baseResolutionSecs / 2 + op.climb k := by
      unfold climb
      positivity
    have grown := (List.isChain_iff_getElem.mp chain k inside).radius _ nonneg (ih below)
    rw [threshold, add_assoc] at grown
    rw [climb, Finset.sum_range_succ]
    exact grown

end Up

end CoarseningOperator

/-! ### A position -/

namespace GeoidCoordinate

/-- Where a position is in a hierarchy. -/
structure Located (op : CoarseningOperator ℝ) (geoid : NetworkGeoid ℝ) (coords : Coordinates ℝ) :
    Prop where
  depth : (fromVivaldi coords geoid).depth = max 1 op.levels.toNat
  locate : geoid.locate coords = (fromVivaldi coords geoid).regionPath.map some
  nearest : ∀ k layer, geoid.layers[k]? = some layer → ∃ r ∈ layer.regions,
    (fromVivaldi coords geoid).regionPath[k]? = some r.id ∧
      (∀ r' ∈ layer.regions, r.centroid.distance coords ≤ r'.centroid.distance coords) ∧
        r.radius ≤ op.baseResolutionSecs / 2 + op.climb k ∧
          ∀ finest, geoid.layers[0]? = some finest → ∀ leaf ∈ finest.regions,
            r.centroid.distance coords ≤ leaf.centroid.distance coords + op.climb k

variable {Point Scalar : Type} [AddCommGroup Point] [CommRing Scalar] [Module Scalar Point]
  (curve : Ristretto Point Scalar) (hGenerator : Point) (blake3 : List UInt8 → Bytes32)
  (toLeBytes : ℝ → List UInt8) (blindings : Draw → Scalar × Scalar) (op : CoarseningOperator ℝ)
  (epoch : Epoch) {beacons : List (Layer1Beacon ℝ)}

open CoarseningOperator

/-- **A position in a hierarchy** has one region at each level, the nearest one. Its ball, and how
much farther it is than any leaf region, are bounded by the resolutions up to its level. -/
theorem fromVivaldi_located (resolution : 0 ≤ op.baseResolutionSecs) (scale : 0 ≤ op.scaleFactor)
    (present : beacons ≠ []) (few : beacons.length < 2 ^ 32) (coords : Coordinates ℝ) :
    Located op (buildHierarchy curve hGenerator blake3 toLeBytes blindings op epoch beacons)
      coords := by
  have whole := buildHierarchy_lineages curve hGenerator blake3 toLeBytes blindings op epoch present
    few
  have chain := isChain_buildHierarchy curve hGenerator blake3 toLeBytes blindings op epoch
    resolution scale few
  have leaf : ∀ layer,
      (buildHierarchy curve hGenerator blake3 toLeBytes blindings op epoch beacons).layers[0]? =
        some layer →
      layer.level = 0 ∧ ∀ r ∈ layer.regions, r.radius = op.baseResolutionSecs / 2 := by
    intro layer first
    rw [buildHierarchy, if_neg (mt List.isEmpty_iff.mp present)] at first
    rw [← Option.some.inj first]
    exact ⟨rfl, radius_buildLeafLayer curve hGenerator blake3 toLeBytes blindings op epoch⟩
  generalize buildHierarchy curve hGenerator blake3 toLeBytes blindings op epoch beacons = geoid
    at whole chain leaf ⊢
  have depth : geoid.layers.length ≤ 2 ^ 8 := by
    have levels := op.levels.toNat_lt
    have length := whole.length
    omega
  have inhabited : ∀ layer ∈ geoid.layers, layer.regions ≠ [] := fun layer listed none => by
    have counts := whole.memberCounts layer listed
    rw [none] at counts
    exact present (List.length_eq_zero_iff.mp counts.symm)
  have path : geoid.locate coords = (fromVivaldi coords geoid).regionPath.map some :=
    GeoidLayer.filterMap_assignRegion inhabited coords
  refine ⟨?_, path, fun k layer listed => ?_⟩
  · have lengths := congrArg List.length path
    unfold NetworkGeoid.locate at lengths
    rw [List.length_map, List.length_map] at lengths
    exact lengths.symm.trans whole.length
  · have here := inhabited layer (List.mem_of_getElem? listed)
    obtain ⟨r, nearest, assigned⟩ := GeoidLayer.exists_assignRegion here coords
    refine ⟨r, GeoidLayer.nearestRegion_mem nearest, ?_,
      fun r' => GeoidLayer.nearestRegion_le nearest, ?_, fun finest first leafRegion inLeaf => ?_⟩
    · have entry := congrArg (·[k]?) path
      unfold NetworkGeoid.locate at entry
      simp only [List.getElem?_map, listed, Option.map_some, assigned] at entry
      obtain ⟨id, at_k, same⟩ := Option.map_eq_some_iff.mp entry.symm
      rw [at_k, Option.some.inj same]
    · exact radius_of_isChain chain depth resolution scale leaf k listed r
        (GeoidLayer.nearestRegion_mem nearest)
    · have climbs := climbs_of_isChain chain depth fun layer first => (leaf layer first).1
      obtain ⟨r', inLayer, near⟩ := climbs.exists_within
        (fun a b c => Coordinates.distance_triangle a.centroid b.centroid c.centroid)
        (fun a => Coordinates.distance_self a.centroid)
        (by rw [List.getElem?_map, first, Option.map_some]) inLeaf k
        (by rw [List.getElem?_map, listed, Option.map_some])
      rw [Coordinates.distance_comm] at near
      calc r.centroid.distance coords
          ≤ r'.centroid.distance coords := GeoidLayer.nearestRegion_le nearest inLayer
        _ ≤ r'.centroid.distance leafRegion.centroid + leafRegion.centroid.distance coords :=
            Coordinates.distance_triangle ..
        _ ≤ leafRegion.centroid.distance coords + op.climb k := by
            unfold climb
            linarith

/-- A point of the first axis, among two beacons and through three levels. -/
theorem fromVivaldi_located_pair :
    Located (withLevels 3)
      (buildHierarchy Layer1Store.zeroCurve 0 Layer1Store.zeroProofDigests (fun _ : ℝ => [])
        (fun _ => (0, 0)) (withLevels 3) ⟨1⟩
        [Layer1Store.zeroProofBeacon (Vector.replicate 32 0),
          Layer1Store.zeroProofBeacon (Vector.replicate 32 1)])
      (.firstAxis 1) :=
  fromVivaldi_located Layer1Store.zeroCurve 0 Layer1Store.zeroProofDigests (fun _ : ℝ => [])
    (fun _ => (0, 0)) (withLevels 3) ⟨1⟩ (by norm_num [withLevels, new])
    (by norm_num [withLevels, new]) (List.cons_ne_nil _ _) (by norm_num) (.firstAxis 1)

end GeoidCoordinate

end Rtfsn
