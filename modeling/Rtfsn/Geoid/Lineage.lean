/-
What each region of the hierarchy descends from.

* `Lineage`: a region with the regions it was merged from, and the leaf regions and the beacons
  under it.
* `lineages`: the run of `build_hierarchy` with the beacons kept beside the accumulator they joined,
  and the lineages merged as their regions are.
* `map_region_lineages`: without what they descend from, these are the regions of the hierarchy.
-/
import Rtfsn.Geoid.Coarsen

namespace Rtfsn

/-- The same region with other edges. -/
def GeoidRegion.SameButEdges {F : Type} (r r' : GeoidRegion F) : Prop :=
  ∃ edges, r = { r' with interEdges := edges }

structure Lineage (F : Type) where
  region : GeoidRegion F
  children : List (GeoidRegion F)
  leaves : List (GeoidRegion F)
  beacons : List (Layer1Beacon F)

namespace Lineage

variable {F : Type}

/-- A leaf region with the members of its accumulator. -/
def leaf (region : GeoidRegion F) (g : RegionAccum F × List (Layer1Beacon F)) : Lineage F :=
  ⟨region, [], [region], g.2⟩

/-- A region merged from a group. -/
def merged (region : GeoidRegion F) (group : List (Lineage F)) : Lineage F :=
  ⟨region, group.map (·.region), group.flatMap (·.leaves), group.flatMap (·.beacons)⟩

end Lineage

namespace CoarseningOperator

variable {F Point Scalar : Type} [F64Coord F] [AddCommGroup Point] [CommRing Scalar]
  [Module Scalar Point] (curve : Ristretto Point Scalar) (hGenerator : Point)
  (blake3 : List UInt8 → Bytes32) (toLeBytes : F → List UInt8)
  (blindings : Draw → Scalar × Scalar) (op : CoarseningOperator F) (epoch : Epoch)

/-- The accumulators of the leaf layer after the beacons. -/
def accums (beacons : List (Layer1Beacon F)) : List (RegionAccum F) :=
  Grouping.gather (RegionAccum.accepts op.baseResolutionSecs) .add .start beacons

/-- The accumulators of the leaf layer with the beacons that joined each. -/
def leafMembers (beacons : List (Layer1Beacon F)) :
    List (RegionAccum F × List (Layer1Beacon F)) :=
  Grouping.gatherMembers (RegionAccum.accepts op.baseResolutionSecs) .add .start beacons

def leafLineages (beacons : List (Layer1Beacon F)) : List (Lineage F) :=
  List.zipWith .leaf
    (buildLeafLayer curve hGenerator blake3 toLeBytes blindings op epoch beacons).regions
    (op.leafMembers beacons)

/-- The groups that are merged into the given level. -/
def lineageGroups (level : UInt8) (fine : List (Lineage F)) : List (List (Lineage F)) :=
  Grouping.groupsOf (fun a b => op.near level a.region b.region) fine

def coarsenLineages (layer : GeoidLayer F) (fine : List (Lineage F)) : List (Lineage F) :=
  List.zipWith .merged
    (coarsenLayer curve hGenerator blake3 toLeBytes blindings op epoch layer).regions
    (op.lineageGroups (layer.level + 1) fine)

def lineagesFrom : ℕ → GeoidLayer F → List (Lineage F) → List (List (Lineage F))
  | 0, _, _ => []
  | count + 1, prev, fine =>
    if prev.regions.isEmpty then []
    else
      let coarser := coarsenLayer curve hGenerator blake3 toLeBytes blindings op epoch prev
      let coarse := coarsenLineages curve hGenerator blake3 toLeBytes blindings op epoch prev fine
      coarse :: lineagesFrom count coarser coarse

/-- The lineages of each level, from the finest. -/
def lineages (beacons : List (Layer1Beacon F)) : List (List (Lineage F)) :=
  let leaf := buildLeafLayer curve hGenerator blake3 toLeBytes blindings op epoch beacons
  let fine := leafLineages curve hGenerator blake3 toLeBytes blindings op epoch beacons
  fine ::
    lineagesFrom curve hGenerator blake3 toLeBytes blindings op epoch (op.levels.toNat - 1) leaf
      fine

/-! ### The regions of a layer and what they are made from -/

/-- Adding edges changes nothing else. -/
theorem aligned_addInterEdges {X : Type} (level : UInt8) (f : ℕ → X → GeoidRegion F) (xs : List X)
    (threshold : F) :
    List.Forall₂ (fun r x => ∃ i, GeoidRegion.SameButEdges r (f i x))
      (addInterEdges curve hGenerator blindings level (xs.mapIdx f) threshold) xs := by
  unfold addInterEdges
  refine List.foldlRecOn (edgesToAdd curve hGenerator blindings level (xs.mapIdx f) threshold) _
    (motive := fun regions =>
      List.Forall₂ (fun r x => ∃ i, GeoidRegion.SameButEdges r (f i x)) regions xs)
    (Grouping.aligned_mapIdx f (fun i x => ⟨i, _, rfl⟩) xs) fun regions aligned edge _ => ?_
  refine Grouping.aligned_modify aligned _ (fun r x made => ?_) edge.1
  obtain ⟨i, edges, rfl⟩ := made
  exact ⟨i, _, rfl⟩

/-- A leaf region is made from its accumulator. -/
theorem aligned_accums (beacons : List (Layer1Beacon F)) :
    List.Forall₂
      (fun r acc => ∃ i, GeoidRegion.SameButEdges r
        (leafRegion curve hGenerator blake3 toLeBytes blindings op epoch i acc))
      (buildLeafLayer curve hGenerator blake3 toLeBytes blindings op epoch beacons).regions
      (op.accums beacons) :=
  aligned_addInterEdges ..

theorem aligned_leafMembers (beacons : List (Layer1Beacon F)) :
    List.Forall₂
      (fun r (g : RegionAccum F × List (Layer1Beacon F)) => ∃ i, r.SameButEdges
        (leafRegion curve hGenerator blake3 toLeBytes blindings op epoch i g.1))
      (buildLeafLayer curve hGenerator blake3 toLeBytes blindings op epoch beacons).regions
      (op.leafMembers beacons) := by
  have aligned := aligned_accums curve hGenerator blake3 toLeBytes blindings op epoch beacons
  rw [accums, ← Grouping.map_fst_gatherMembers, List.forall₂_map_right_iff] at aligned
  exact aligned

/-- A coarser region is merged from its group. -/
theorem aligned_groups (layer : GeoidLayer F) :
    List.Forall₂
      (fun r group => ∃ i, GeoidRegion.SameButEdges r
        (mergeRegions curve hGenerator blake3 toLeBytes blindings epoch (layer.level + 1) i group))
      (coarsenLayer curve hGenerator blake3 toLeBytes blindings op epoch layer).regions
      (Grouping.groupsOf (op.near (layer.level + 1)) layer.regions) :=
  aligned_addInterEdges ..

theorem aligned_lineageGroups {layer : GeoidLayer F} {fine : List (Lineage F)}
    (regions : fine.map (·.region) = layer.regions) :
    List.Forall₂
      (fun r (group : List (Lineage F)) => ∃ i, r.SameButEdges
        (mergeRegions curve hGenerator blake3 toLeBytes blindings epoch (layer.level + 1) i
          (group.map (·.region))))
      (coarsenLayer curve hGenerator blake3 toLeBytes blindings op epoch layer).regions
      (op.lineageGroups (layer.level + 1) fine) := by
  have aligned := aligned_groups curve hGenerator blake3 toLeBytes blindings op epoch layer
  rw [← regions, Grouping.groupsOf_map, List.forall₂_map_right_iff] at aligned
  exact aligned

/-! ### The regions are the hierarchy's -/

theorem map_region_leafLineages (beacons : List (Layer1Beacon F)) :
    (leafLineages curve hGenerator blake3 toLeBytes blindings op epoch beacons).map (·.region) =
      (buildLeafLayer curve hGenerator blake3 toLeBytes blindings op epoch beacons).regions :=
  Grouping.map_zipWith_left
    (aligned_leafMembers curve hGenerator blake3 toLeBytes blindings op epoch beacons) _
    fun _ _ => rfl

theorem map_region_coarsenLineages {layer : GeoidLayer F} {fine : List (Lineage F)}
    (regions : fine.map (·.region) = layer.regions) :
    (coarsenLineages curve hGenerator blake3 toLeBytes blindings op epoch layer fine).map
        (·.region) =
      (coarsenLayer curve hGenerator blake3 toLeBytes blindings op epoch layer).regions :=
  Grouping.map_zipWith_left
    (aligned_lineageGroups curve hGenerator blake3 toLeBytes blindings op epoch regions) _
    fun _ _ => rfl

theorem map_region_lineagesFrom (count : ℕ) {prev : GeoidLayer F} {fine : List (Lineage F)}
    (regions : fine.map (·.region) = prev.regions) :
    (lineagesFrom curve hGenerator blake3 toLeBytes blindings op epoch count prev fine).map
        (List.map (·.region)) =
      (coarsenFrom curve hGenerator blake3 toLeBytes blindings op epoch count prev).map
        (·.regions) := by
  induction count generalizing prev fine with
  | zero => rfl
  | succ count ih =>
    have coarse := map_region_coarsenLineages curve hGenerator blake3 toLeBytes blindings op epoch
      regions
    unfold lineagesFrom coarsenFrom
    split_ifs
    · rfl
    · rw [List.map_cons, List.map_cons, coarse, ih coarse]

theorem map_region_lineages {beacons : List (Layer1Beacon F)} (present : beacons ≠ []) :
    (lineages curve hGenerator blake3 toLeBytes blindings op epoch beacons).map
        (List.map (·.region)) =
      (buildHierarchy curve hGenerator blake3 toLeBytes blindings op epoch beacons).layers.map
        (·.regions) := by
  have leaf := map_region_leafLineages curve hGenerator blake3 toLeBytes blindings op epoch beacons
  unfold lineages buildHierarchy
  rw [if_neg (mt List.isEmpty_iff.mp present), List.map_cons, List.map_cons, leaf,
    map_region_lineagesFrom _ _ _ _ _ _ _ _ leaf]

end CoarseningOperator

end Rtfsn
