/-
**The hierarchy accounts for every beacon**, `f64` read as exact reals.

* `Lineage.Sound`: what a region is to the beacons and the leaf regions it descends from.
* `leafLineages_level`: the greedy pass puts every beacon in one region, around their mean.
* `coarsenLineages_level`: merging keeps this, and balls contain the balls they were merged from.
* `buildHierarchy_lineages`: so it is at every level of the hierarchy.
-/
import Rtfsn.Geoid.Lineage
import Rtfsn.Sync.EuclideanCoordinates

namespace Rtfsn

/-! ### Means and balls -/

namespace Coordinates

/-- The arithmetic mean of the beacons' positions. -/
noncomputable def mean (beacons : List (Layer1Beacon ℝ)) : Coordinates ℝ :=
  ⟨Vector.ofFn fun i =>
    (beacons.map fun b => b.coordinates.position.dims[i]).sum / beacons.length⟩

end Coordinates

/-- The ball of a region lies in the ball of another. -/
def GeoidRegion.Within (child parent : GeoidRegion ℝ) : Prop :=
  ∀ p : Coordinates ℝ, p.distance child.centroid ≤ child.radius →
    p.distance parent.centroid ≤ parent.radius

theorem GeoidRegion.within_of_reach {child parent : GeoidRegion ℝ}
    (reach : child.centroid.distance parent.centroid + child.radius ≤ parent.radius) :
    child.Within parent := by
  intro p inside
  calc p.distance parent.centroid
      ≤ p.distance child.centroid + child.centroid.distance parent.centroid :=
        Coordinates.distance_triangle ..
    _ ≤ child.radius + child.centroid.distance parent.centroid := by gcongr
    _ ≤ parent.radius := by rwa [add_comm]

/-- What a region is to those it descends from. -/
structure Lineage.Sound (l : Lineage ℝ) : Prop where
  childRegionIds : l.region.childRegionIds = l.children.map (·.id)
  memberCount : l.region.memberCount.toNat = l.beacons.length
  centroid : l.region.centroid = .mean l.beacons
  residual : IsGreatest {x | ∃ leaf ∈ l.leaves, leaf.geoidResidual = x} l.region.geoidResidual
  ball : ∀ child ∈ l.children, child.Within l.region

/-- What the lineages of a level are to all beacons and to the leaf regions. -/
structure Lineage.Level (beacons : List (Layer1Beacon ℝ)) (leaves : List (GeoidRegion ℝ))
    (level : List (Lineage ℝ)) : Prop where
  beacons : (level.flatMap (·.beacons)).Perm beacons
  leaves : (level.flatMap (·.leaves)).Perm leaves
  sound : ∀ l ∈ level, l.Sound
  inhabited : ∀ l ∈ level, l.beacons ≠ []
  nonneg : ∀ l ∈ level, 0 ≤ l.region.geoidResidual

/-- What the layers of a hierarchy are to the beacons, the finest first. -/
structure Lineage.Hierarchy (levels : UInt8) (beacons : List (Layer1Beacon ℝ))
    (leaves : List (GeoidRegion ℝ)) (layers : List (GeoidLayer ℝ))
    (lineages : List (List (Lineage ℝ))) : Prop where
  length : layers.length = max 1 levels.toNat
  memberCounts : ∀ layer ∈ layers,
    (layer.regions.map fun r => r.memberCount.toNat).sum = beacons.length
  childRegionIds : ∀ k fine coarse, layers[k]? = some fine → layers[k + 1]? = some coarse →
    (coarse.regions.flatMap (·.childRegionIds)).Perm (fine.regions.map (·.id))
  regions : lineages.map (List.map (·.region)) = layers.map (·.regions)
  children : lineages.IsChain fun fine coarse =>
    (coarse.flatMap (·.children)).Perm (fine.map (·.region))
  level : ∀ level ∈ lineages, Lineage.Level beacons leaves level

namespace Lineage.Level

variable {beacons : List (Layer1Beacon ℝ)} {leaves : List (GeoidRegion ℝ)}
  {level : List (Lineage ℝ)}

/-- The members of a level's regions are all beacons. -/
theorem memberCounts (whole : Level beacons leaves level) :
    ((level.map (·.region)).map fun r => r.memberCount.toNat).sum = beacons.length := by
  rw [← whole.beacons.length_eq, List.length_flatMap, List.map_map]
  exact congrArg List.sum
    (List.map_congr_left fun l listed => (whole.sound l listed).memberCount)

/-- The regions of a level list the ids of their children. -/
theorem childRegionIds (whole : Level beacons leaves level) :
    (level.map (·.region)).flatMap (·.childRegionIds) =
      (level.flatMap (·.children)).map (·.id) := by
  rw [List.flatMap_map, List.map_flatMap]
  exact List.flatMap_congr fun l listed => (whole.sound l listed).childRegionIds

end Lineage.Level

/-! ### The leaf layer -/

namespace RegionAccum

/-- What the members of an accumulator have summed to. -/
theorem built_spec {g : RegionAccum ℝ × List (Layer1Beacon ℝ)}
    (built : Grouping.Built add start g) :
    g.1.count.toNat = g.2.length % 2 ^ 32 ∧
      ∀ i : Fin 6, g.1.sum[i] = (g.2.map fun b => b.coordinates.position.dims[i]).sum := by
  obtain ⟨x, rest, members, value⟩ := built
  rw [members, value]
  clear members value
  induction rest using List.reverseRecOn with
  | nil => simp [start]
  | append_singleton rest b ih =>
    obtain ⟨count, sum⟩ := ih
    rw [List.foldl_concat]
    refine ⟨?_, fun i => ?_⟩
    · rw [add, UInt32.toNat_add, count]
      simp
    · have here := sum i
      simp only [add, Fin.getElem_fin, Vector.getElem_zipWith, List.map_cons, List.map_append,
        List.sum_cons, List.sum_append, List.map_nil, List.sum_nil] at here ⊢
      rw [here]
      ring

theorem centroid_eq_mean {g : RegionAccum ℝ × List (Layer1Beacon ℝ)}
    (built : Grouping.Built add start g) (few : g.2.length < 2 ^ 32) :
    g.1.centroid = .mean g.2 := by
  obtain ⟨count, sum⟩ := built_spec built
  rw [Nat.mod_eq_of_lt few] at count
  refine congrArg Coordinates.mk (Vector.ext fun i inside => ?_)
  have here := sum ⟨i, inside⟩
  simp only [Fin.getElem_fin] at here
  rw [Vector.getElem_map, Vector.getElem_ofFn, here, count]
  rfl

theorem residual_nonneg (acc : RegionAccum ℝ) : 0 ≤ acc.residual := by
  unfold residual
  split_ifs
  · rw [F64.sum_real]
    refine div_nonneg (List.sum_nonneg fun x listed => ?_) (Nat.cast_nonneg _)
    obtain ⟨o, _, rfl⟩ := List.mem_map.mp listed
    exact abs_nonneg _
  · exact le_refl _

end RegionAccum

/-! ### What a merge sums and maximises -/

theorem toNat_sum (counts : List UInt32) :
    counts.sum.toNat = (counts.map UInt32.toNat).sum % 2 ^ 32 := by
  induction counts with
  | nil => rfl
  | cons c counts ih =>
    rw [List.sum_cons, UInt32.toNat_add, ih, List.map_cons, List.sum_cons, Nat.add_mod_mod]

theorem sum_map_flatMap {A B : Type} (xs : List A) (f : A → List B) (g : B → ℝ) :
    ((xs.flatMap f).map g).sum = (xs.map fun x => ((f x).map g).sum).sum := by
  rw [List.map_flatMap, List.flatMap_def, List.sum_flatten, List.map_map]
  rfl

theorem isGreatest_foldl_max (xs : List ℝ) (start : ℝ) :
    IsGreatest {x | x = start ∨ x ∈ xs} (xs.foldl max start) := by
  induction xs generalizing start with
  | nil => simp [isGreatest_singleton]
  | cons y xs ih =>
    obtain ⟨member, bound⟩ := ih (max start y)
    refine ⟨?_, fun x listed => ?_⟩
    · rcases member with same | later
      · rcases max_choice start y with first | second
        · exact Or.inl (same.trans first)
        · exact Or.inr (List.mem_cons.mpr (Or.inl (same.trans second)))
      · exact Or.inr (List.mem_cons_of_mem _ later)
    · have most : max start y ≤ xs.foldl max (max start y) := bound (Or.inl rfl)
      rcases listed with rfl | listed
      · exact (le_max_left _ _).trans most
      · rcases List.mem_cons.mp listed with rfl | later
        · exact (le_max_right _ _).trans most
        · exact bound (Or.inr later)

namespace CoarseningOperator

theorem mergedCentroid_dims (regions : List (GeoidRegion ℝ)) (i : Fin 6) :
    (mergedCentroid regions).dims[i] = (regions.map fun r : GeoidRegion ℝ =>
      r.centroid.dims[i] *
        ((r.memberCount.toNat : ℝ) / max ((totalMembers regions).toNat : ℝ) 1)).sum := by
  have general (total : UInt32) (start : Vector ℝ 6) :
      (regions.foldl (fun dims r =>
        Vector.zipWith
          (fun s d : ℝ => s + d * ((r.memberCount.toNat : ℝ) / max (total.toNat : ℝ) 1))
          dims r.centroid.dims) start)[i] =
      start[i] + (regions.map fun r : GeoidRegion ℝ =>
        r.centroid.dims[i] * ((r.memberCount.toNat : ℝ) / max (total.toNat : ℝ) 1)).sum := by
    induction regions generalizing start with
    | nil => simp
    | cons r regions ih =>
      rw [List.foldl_cons, ih, List.map_cons, List.sum_cons]
      simp only [Fin.getElem_fin, Vector.getElem_zipWith]
      ring
  have zero : (Vector.replicate 6 (0 : ℝ))[i] = 0 := by simp
  exact (general _ _).trans (by rw [zero, zero_add])

section Merge

variable {group : List (Lineage ℝ)}

theorem toNat_totalMembers (sound : ∀ l ∈ group, l.Sound)
    (few : (group.flatMap (·.beacons)).length < 2 ^ 32) :
    (totalMembers (group.map (·.region))).toNat = (group.flatMap (·.beacons)).length := by
  have counts : (((group.map (·.region)).map GeoidRegion.memberCount).map UInt32.toNat).sum =
      (group.flatMap (·.beacons)).length := by
    rw [List.map_map, List.map_map, List.length_flatMap]
    exact congrArg List.sum (List.map_congr_left fun l member => (sound l member).memberCount)
  rw [totalMembers, toNat_sum, counts, Nat.mod_eq_of_lt few]

/-- **The weighted mean of means is the mean.** -/
theorem mergedCentroid_eq_mean (sound : ∀ l ∈ group, l.Sound)
    (inhabited : ∀ l ∈ group, l.beacons ≠ []) (nonempty : group ≠ [])
    (few : (group.flatMap (·.beacons)).length < 2 ^ 32) :
    mergedCentroid (group.map (·.region)) = .mean (group.flatMap (·.beacons)) := by
  obtain ⟨first, member⟩ := List.exists_mem_of_ne_nil group nonempty
  have present : 0 < (group.flatMap (·.beacons)).length := by
    refine (List.length_pos_iff.mpr (inhabited first member)).trans_le ?_
    exact Grouping.length_le_of_flatMap_perm (.refl _) member
  have positive : (1 : ℝ) ≤ (group.flatMap (·.beacons)).length := by exact_mod_cast present
  refine congrArg Coordinates.mk (Vector.ext fun i inside => ?_)
  have dims := mergedCentroid_dims (group.map (·.region)) ⟨i, inside⟩
  simp only [Fin.getElem_fin] at dims
  -- A region's centroid, weighted, is the sum of its own positions over the total.
  have share : ∀ l ∈ group,
      l.region.centroid.dims[i] * ((l.region.memberCount.toNat : ℝ) /
        (group.flatMap (·.beacons)).length) =
      (l.beacons.map fun b => b.coordinates.position.dims[i]).sum /
        (group.flatMap (·.beacons)).length := fun l listed => by
    have own : (l.beacons.length : ℝ) ≠ 0 := by
      exact_mod_cast (List.length_pos_iff.mpr (inhabited l listed)).ne'
    rw [(sound l listed).centroid, (sound l listed).memberCount, Coordinates.mean,
      Vector.getElem_ofFn]
    simp only [Fin.getElem_fin]
    field_simp
  rw [Vector.getElem_ofFn]
  refine dims.trans ?_
  rw [toNat_totalMembers sound few, max_eq_left positive, List.map_map]
  calc (group.map fun l : Lineage ℝ => l.region.centroid.dims[i] *
        ((l.region.memberCount.toNat : ℝ) / (group.flatMap (·.beacons)).length)).sum
      = (group.map fun l : Lineage ℝ =>
          (l.beacons.map fun b => b.coordinates.position.dims[i]).sum /
            (group.flatMap (·.beacons)).length).sum :=
        congrArg List.sum (List.map_congr_left share)
    _ = (group.map fun l : Lineage ℝ =>
          (l.beacons.map fun b => b.coordinates.position.dims[i]).sum).sum /
            (group.flatMap (·.beacons)).length := by
        simp only [div_eq_mul_inv, List.sum_map_mul_right]
    _ = _ := by
        rw [sum_map_flatMap]
        rfl

variable {Point Scalar : Type} [AddCommGroup Point] [CommRing Scalar] [Module Scalar Point]
  {curve : Ristretto Point Scalar} {hGenerator : Point} {blake3 : List UInt8 → Bytes32}
  {toLeBytes : ℝ → List UInt8} {blindings : Draw → Scalar × Scalar} {epoch : Epoch}

/-- The worst residual of a merged region is the worst of its leaves. -/
theorem isGreatest_residual (sound : ∀ l ∈ group, l.Sound)
    (nonneg : ∀ l ∈ group, 0 ≤ l.region.geoidResidual) (nonempty : group ≠ []) :
    IsGreatest {x | ∃ leaf ∈ group.flatMap (·.leaves), leaf.geoidResidual = x}
      (((group.map (·.region)).map (·.geoidResidual)).foldl F64.max 0) := by
  obtain ⟨member, bound⟩ :=
    isGreatest_foldl_max ((group.map (·.region)).map (·.geoidResidual)) 0
  have attained : ∃ l ∈ group, l.region.geoidResidual =
      ((group.map (·.region)).map (·.geoidResidual)).foldl max 0 := by
    rcases member with zero | listed
    · obtain ⟨first, here⟩ := List.exists_mem_of_ne_nil group nonempty
      refine ⟨first, here, le_antisymm (bound (Or.inr ?_)) (zero.le.trans (nonneg first here))⟩
      exact List.mem_map_of_mem (List.mem_map_of_mem here)
    · obtain ⟨region, inside, same⟩ := List.mem_map.mp listed
      obtain ⟨l, here, rfl⟩ := List.mem_map.mp inside
      exact ⟨l, here, same⟩
  refine ⟨?_, ?_⟩
  · obtain ⟨l, here, same⟩ := attained
    obtain ⟨leaf, below, worst⟩ := (sound l here).residual.1
    exact ⟨leaf, List.mem_flatMap.mpr ⟨l, here, below⟩, worst.trans same⟩
  · rintro x ⟨leaf, below, rfl⟩
    obtain ⟨l, here, own⟩ := List.mem_flatMap.mp below
    refine ((sound l here).residual.2 ⟨leaf, own, rfl⟩).trans (bound (Or.inr ?_))
    exact List.mem_map_of_mem (List.mem_map_of_mem here)

/-- A merge of sound lineages is sound. -/
theorem merged_sound {level : UInt8} {index : ℕ} {region : GeoidRegion ℝ}
    (made : region.SameButEdges (mergeRegions curve hGenerator blake3 toLeBytes blindings epoch
      level index (group.map (·.region))))
    (sound : ∀ l ∈ group, l.Sound) (inhabited : ∀ l ∈ group, l.beacons ≠ [])
    (nonneg : ∀ l ∈ group, 0 ≤ l.region.geoidResidual) (nonempty : group ≠ [])
    (few : (group.flatMap (·.beacons)).length < 2 ^ 32) :
    (Lineage.merged region group).Sound ∧ 0 ≤ region.geoidResidual := by
  obtain ⟨edges, rfl⟩ := made
  refine ⟨⟨rfl, toNat_totalMembers sound few,
    mergedCentroid_eq_mean sound inhabited nonempty few,
    isGreatest_residual sound nonneg nonempty, fun child listed => ?_⟩, ?_⟩
  · refine GeoidRegion.within_of_reach ((isGreatest_foldl_max _ 0).2 (Or.inr ?_))
    exact List.mem_map_of_mem listed
  · exact (isGreatest_foldl_max _ 0).2 (Or.inl rfl)

end Merge

/-! ### Level by level -/

section Levels

variable {Point Scalar : Type} [AddCommGroup Point] [CommRing Scalar] [Module Scalar Point]
  (curve : Ristretto Point Scalar) (hGenerator : Point) (blake3 : List UInt8 → Bytes32)
  (toLeBytes : ℝ → List UInt8) (blindings : Draw → Scalar × Scalar) (op : CoarseningOperator ℝ)
  (epoch : Epoch) {beacons : List (Layer1Beacon ℝ)}

/-- **The leaf layer**: every beacon is in one region, around the mean of its members. -/
theorem leafLineages_level (few : beacons.length < 2 ^ 32) :
    Lineage.Level beacons
      (buildLeafLayer curve hGenerator blake3 toLeBytes blindings op epoch beacons).regions
      (leafLineages curve hGenerator blake3 toLeBytes blindings op epoch beacons) := by
  have aligned := aligned_leafMembers curve hGenerator blake3 toLeBytes blindings op epoch beacons
  have members : ((op.leafMembers beacons).flatMap Prod.snd).Perm beacons :=
    Grouping.gatherMembers_perm beacons
  have made : ∀ l ∈ leafLineages curve hGenerator blake3 toLeBytes blindings op epoch beacons,
      l.Sound ∧ l.beacons ≠ [] ∧ 0 ≤ l.region.geoidResidual ∧ l.leaves = [l.region] :=
    fun l listed => by
      obtain ⟨region, g, gathered, ⟨i, edges, rfl⟩, rfl⟩ := Grouping.mem_zipWith aligned listed
      have built := Grouping.gatherMembers_built beacons g gathered
      have own : g.2.length < 2 ^ 32 :=
        (Grouping.length_le_of_flatMap_perm members gathered).trans_lt few
      refine ⟨⟨rfl, ?_, RegionAccum.centroid_eq_mean built own, ?_, fun child none => ?_⟩, ?_,
        g.1.residual_nonneg, rfl⟩
      · exact (RegionAccum.built_spec built).1.trans (Nat.mod_eq_of_lt own)
      · refine ⟨⟨_, List.mem_singleton_self _, rfl⟩, ?_⟩
        rintro x ⟨leaf, self, rfl⟩
        rw [List.mem_singleton.mp self]
        rfl
      · cases none
      · obtain ⟨x, rest, joined, _⟩ := built
        exact fun none => List.cons_ne_nil x rest (joined.symm.trans none)
  refine ⟨?_, ?_, fun l listed => (made l listed).1, fun l listed => (made l listed).2.1,
    fun l listed => (made l listed).2.2.1⟩
  · rw [leafLineages, Grouping.flatMap_zipWith_right Lineage.leaf aligned _ Prod.snd fun _ _ => rfl]
    exact members
  · rw [List.flatMap_congr fun l listed => (made l listed).2.2.2, ← List.map_eq_flatMap,
      map_region_leafLineages]

variable {layer : GeoidLayer ℝ} {fine : List (Lineage ℝ)} {leaves : List (GeoidRegion ℝ)}

/-- The regions of a layer are the children of those merged from it. -/
theorem coarsenLineages_children (regions : fine.map (·.region) = layer.regions) :
    ((coarsenLineages curve hGenerator blake3 toLeBytes blindings op epoch layer fine).flatMap
      (·.children)).Perm (fine.map (·.region)) := by
  have aligned := aligned_lineageGroups curve hGenerator blake3 toLeBytes blindings op epoch regions
  rw [coarsenLineages,
    Grouping.flatMap_zipWith_right Lineage.merged aligned _ (List.map (·.region)) fun _ _ => rfl]
  have perm := Grouping.groupsOf_flatMap_perm
    (fun a b : Lineage ℝ => op.near (layer.level + 1) a.region b.region) fine fun l => [l.region]
  simp only [← List.map_eq_flatMap] at perm
  exact perm

/-- **A merge keeps the level**: the groups are a partition of the finer regions. -/
theorem coarsenLineages_level (few : beacons.length < 2 ^ 32)
    (regions : fine.map (·.region) = layer.regions) (level : Lineage.Level beacons leaves fine) :
    Lineage.Level beacons leaves
      (coarsenLineages curve hGenerator blake3 toLeBytes blindings op epoch layer fine) := by
  have aligned := aligned_lineageGroups curve hGenerator blake3 toLeBytes blindings op epoch regions
  have nonempty : ∀ group ∈ op.lineageGroups (layer.level + 1) fine, group ≠ [] :=
    (Grouping.groupsOf_perm _ fine).2
  have kept : ((coarsenLineages curve hGenerator blake3 toLeBytes blindings op epoch layer
      fine).flatMap (·.beacons)).Perm beacons := by
    rw [coarsenLineages, Grouping.flatMap_zipWith_right Lineage.merged aligned _
      (fun group => group.flatMap (·.beacons)) fun _ _ => rfl]
    exact (Grouping.groupsOf_flatMap_perm _ fine _).trans level.beacons
  have made : ∀ l ∈ coarsenLineages curve hGenerator blake3 toLeBytes blindings op epoch layer fine,
      (l.Sound ∧ 0 ≤ l.region.geoidResidual) ∧ l.beacons ≠ [] := fun l listed => by
    have own := (Grouping.length_le_of_flatMap_perm kept listed).trans_lt few
    obtain ⟨region, group, grouped, ⟨i, same⟩, rfl⟩ := Grouping.mem_zipWith aligned listed
    have finer : ∀ l ∈ group, l ∈ fine := fun l member => Grouping.mem_of_groupsOf grouped member
    refine ⟨merged_sound same (fun l member => level.sound l (finer l member))
      (fun l member => level.inhabited l (finer l member))
      (fun l member => level.nonneg l (finer l member)) (nonempty group grouped) own,
      fun none => ?_⟩
    obtain ⟨first, member⟩ := List.exists_mem_of_ne_nil group (nonempty group grouped)
    exact level.inhabited first (finer first member) (List.flatMap_eq_nil_iff.mp none first member)
  refine ⟨kept, ?_, fun l listed => (made l listed).1.1, fun l listed => (made l listed).2,
    fun l listed => (made l listed).1.2⟩
  rw [coarsenLineages, Grouping.flatMap_zipWith_right Lineage.merged aligned _
    (fun group => group.flatMap (·.leaves)) fun _ _ => rfl]
  exact (Grouping.groupsOf_flatMap_perm _ fine _).trans level.leaves

/-- **Any number of merges** keeps the level, and none is missing. -/
theorem lineagesFrom_levels (few : beacons.length < 2 ^ 32) (present : beacons ≠ []) (count : ℕ)
    (regions : fine.map (·.region) = layer.regions) (level : Lineage.Level beacons leaves fine) :
    (lineagesFrom curve hGenerator blake3 toLeBytes blindings op epoch count layer fine).length =
        count ∧
      (fine :: lineagesFrom curve hGenerator blake3 toLeBytes blindings op epoch count layer
        fine).IsChain (fun fine coarse =>
          (coarse.flatMap (·.children)).Perm (fine.map (·.region))) ∧
      ∀ coarse ∈ lineagesFrom curve hGenerator blake3 toLeBytes blindings op epoch count layer fine,
        Lineage.Level beacons leaves coarse := by
  induction count generalizing layer fine with
  | zero => exact ⟨rfl, .singleton fine, fun _ none => by cases none⟩
  | succ count ih =>
    have inhabited : ¬ layer.regions.isEmpty = true := fun empty => by
      rw [List.isEmpty_iff, ← regions, List.map_eq_nil_iff] at empty
      rw [empty] at level
      exact present (List.nil_perm.mp level.beacons)
    have merged := coarsenLineages_level curve hGenerator blake3 toLeBytes blindings op epoch few
      regions level
    obtain ⟨length, chain, levels⟩ := ih
      (map_region_coarsenLineages curve hGenerator blake3 toLeBytes blindings op epoch regions)
      merged
    rw [lineagesFrom, if_neg inhabited]
    refine ⟨congrArg (· + 1) length, .cons_cons ?_ chain,
      List.forall_mem_cons.mpr ⟨merged, levels⟩⟩
    exact coarsenLineages_children curve hGenerator blake3 toLeBytes blindings op epoch regions

theorem lineages_levels (few : beacons.length < 2 ^ 32) (present : beacons ≠ []) :
    (lineages curve hGenerator blake3 toLeBytes blindings op epoch beacons).length =
        max 1 op.levels.toNat ∧
      (lineages curve hGenerator blake3 toLeBytes blindings op epoch beacons).IsChain
        (fun fine coarse => (coarse.flatMap (·.children)).Perm (fine.map (·.region))) ∧
      ∀ level ∈ lineages curve hGenerator blake3 toLeBytes blindings op epoch beacons,
        Lineage.Level beacons
          (buildLeafLayer curve hGenerator blake3 toLeBytes blindings op epoch beacons).regions
          level := by
  have leaf := leafLineages_level curve hGenerator blake3 toLeBytes blindings op epoch few
  obtain ⟨length, chain, levels⟩ := lineagesFrom_levels curve hGenerator blake3 toLeBytes blindings
    op epoch few present (op.levels.toNat - 1)
    (map_region_leafLineages curve hGenerator blake3 toLeBytes blindings op epoch beacons) leaf
  refine ⟨?_, chain, List.forall_mem_cons.mpr ⟨leaf, levels⟩⟩
  rw [lineages, List.length_cons, length]
  omega

/-- **The hierarchy.** At every level the members of the regions count the beacons, and the regions
of the next level list their ids once each; each region has the mean position of the beacons it
descends from and the worst residual of its leaves, and its ball contains those of its children. -/
theorem buildHierarchy_lineages (present : beacons ≠ []) (few : beacons.length < 2 ^ 32) :
    Lineage.Hierarchy op.levels beacons
      (buildLeafLayer curve hGenerator blake3 toLeBytes blindings op epoch beacons).regions
      (buildHierarchy curve hGenerator blake3 toLeBytes blindings op epoch beacons).layers
      (lineages curve hGenerator blake3 toLeBytes blindings op epoch beacons) := by
  have regions := map_region_lineages curve hGenerator blake3 toLeBytes blindings op epoch present
  obtain ⟨length, chain, whole⟩ :=
    lineages_levels curve hGenerator blake3 toLeBytes blindings op epoch few present
  have found : ∀ (k : ℕ) (layer : GeoidLayer ℝ),
      (buildHierarchy curve hGenerator blake3 toLeBytes blindings op epoch beacons).layers[k]? =
        some layer →
      ∃ level : List (Lineage ℝ),
        (lineages curve hGenerator blake3 toLeBytes blindings op epoch beacons)[k]? = some level ∧
          level.map (·.region) = layer.regions :=
    fun k layer listed => by
      have at_k := congrArg (·[k]?) regions
      simp only [List.getElem?_map, listed] at at_k
      exact Option.map_eq_some_iff.mp at_k
  refine ⟨?_, fun layer listed => ?_, fun k fine coarse first second => ?_, regions, chain, whole⟩
  · have same := congrArg List.length regions
    rw [List.length_map, List.length_map] at same
    exact same.symm.trans length
  · obtain ⟨k, at_k⟩ := List.getElem?_of_mem listed
    obtain ⟨level, here, same⟩ := found k layer at_k
    rw [← same]
    exact (whole level (List.mem_of_getElem? here)).memberCounts
  · obtain ⟨fineLevel, here, same⟩ := found k fine first
    obtain ⟨coarseLevel, next, same'⟩ := found (k + 1) coarse second
    rw [← same, ← same', (whole coarseLevel (List.mem_of_getElem? next)).childRegionIds]
    obtain ⟨inside, rfl⟩ := List.getElem?_eq_some_iff.mp here
    obtain ⟨inside', rfl⟩ := List.getElem?_eq_some_iff.mp next
    exact (List.isChain_iff_getElem.mp chain k inside').map _

end Levels

/-- Two beacons in one place, through three levels. -/
theorem buildHierarchy_lineages_pair :
    Lineage.Hierarchy 3
      [Layer1Store.zeroProofBeacon (Vector.replicate 32 0),
        Layer1Store.zeroProofBeacon (Vector.replicate 32 1)]
      (buildLeafLayer Layer1Store.zeroCurve 0 Layer1Store.zeroProofDigests (fun _ : ℝ => [])
        (fun _ => (0, 0)) (withLevels 3) ⟨1⟩
        [Layer1Store.zeroProofBeacon (Vector.replicate 32 0),
          Layer1Store.zeroProofBeacon (Vector.replicate 32 1)]).regions
      (buildHierarchy Layer1Store.zeroCurve 0 Layer1Store.zeroProofDigests (fun _ : ℝ => [])
        (fun _ => (0, 0)) (withLevels 3) ⟨1⟩
        [Layer1Store.zeroProofBeacon (Vector.replicate 32 0),
          Layer1Store.zeroProofBeacon (Vector.replicate 32 1)]).layers
      (lineages Layer1Store.zeroCurve 0 Layer1Store.zeroProofDigests (fun _ : ℝ => [])
        (fun _ => (0, 0)) (withLevels 3) ⟨1⟩
        [Layer1Store.zeroProofBeacon (Vector.replicate 32 0),
          Layer1Store.zeroProofBeacon (Vector.replicate 32 1)]) :=
  buildHierarchy_lineages Layer1Store.zeroCurve 0 Layer1Store.zeroProofDigests (fun _ : ℝ => [])
    (fun _ => (0, 0)) (withLevels 3) ⟨1⟩ (List.cons_ne_nil _ _) (by norm_num)

end CoarseningOperator

end Rtfsn
