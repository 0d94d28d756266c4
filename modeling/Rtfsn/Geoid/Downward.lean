/-
**The downward pass**: what a hierarchy asks of a node.

* `CirculationManager.generateHints`: a hint for the region a node is in, at each level.
  `applyHints`: the measurements of the next epoch, by priority.
* `GeoidLayer.Linked`: an edge leads to a region of the layer within its reach
  (`linked_buildHierarchy`).
* `Guided`: what a node is told. `guided_upward`: so it is after every run of upward passes, for
  every position. It is told of one region at each level, with the worst residual of its leaves, and
  the measurements it is to make are between 2 and 20 for each level, on top of 8.
-/
import Rtfsn.Geoid.Circulation
import Rtfsn.Geoid.Location
import Rtfsn.Lib.Ranking

namespace Rtfsn

/-- Which region a node is to look into. -/
structure RefinementHint where
  epoch : Epoch
  geoidLevel : UInt8
  regionId : RegionId
  geoidResidualNanos : ℤ
  /-- From 1 (low) to 10 (high). -/
  priority : UInt8
  suggestedNeighborRegions : List RegionId

/-- The measurements of the next epoch. -/
structure MeasurementSchedule where
  priorityRegions : List (RegionId × UInt8)
  minMeasurements : UInt32
  extraMeasurementsPerPriority : UInt32

/-- How urgent a residual is, and more so at the finest level. -/
def residualPriority (residualNanos : ℕ) (level : UInt8) : UInt8 :=
  let base : UInt8 :=
    if residualNanos ≤ 100000 then 1
    else if residualNanos ≤ 1000000 then 3
    else if residualNanos ≤ 10000000 then 5
    else if residualNanos ≤ 100000000 then 7
    else 9
  min (base + if level = 0 then 1 else 0) 10

/-- The hint for a region with the given residual, whose edges suggest its first three neighbours. -/
def RefinementHint.of (epoch : Epoch) (level : UInt8) (regionId : RegionId) (residualNanos : ℤ)
    (interEdges : List GeoidEdge) : RefinementHint where
  epoch := epoch
  geoidLevel := level
  regionId := regionId
  geoidResidualNanos := residualNanos
  priority := residualPriority residualNanos.natAbs level
  suggestedNeighborRegions := (interEdges.map (·.to)).take 3

theorem residualPriority_bounds (residualNanos : ℕ) (level : UInt8) :
    1 ≤ (residualPriority residualNanos level).toNat ∧
      (residualPriority residualNanos level).toNat ≤ 10 := by
  unfold residualPriority
  split_ifs <;> decide

namespace MeasurementSchedule

def defaultSchedule : MeasurementSchedule := ⟨[], 8, 2⟩

/-- A `u32` operation with the exact result `n`; `none` where a build with overflow checks
panics. -/
def checkedU32 (n : ℕ) : Option UInt32 := if n < 2 ^ 32 then some (UInt32.ofNat n) else none

def totalMeasurements (schedule : MeasurementSchedule) : Option UInt32 := do
  let extra ← schedule.priorityRegions.foldlM (fun extra p => do
    let own ← checkedU32 (p.2.toNat * schedule.extraMeasurementsPerPriority.toNat)
    checkedU32 (extra.toNat + own.toNat)) 0
  checkedU32 (schedule.minMeasurements.toNat + extra.toNat)

theorem checkedU32_of_lt {n : ℕ} (fits : n < 2 ^ 32) :
    ∃ m, checkedU32 n = some m ∧ m.toNat = n := by
  refine ⟨UInt32.ofNat n, if_pos fits, ?_⟩
  rw [UInt32.toNat_ofNat']
  exact Nat.mod_eq_of_lt fits

/-- **The total**, where it fits. -/
theorem exists_totalMeasurements (schedule : MeasurementSchedule)
    (fits : schedule.minMeasurements.toNat + (schedule.priorityRegions.map fun p =>
      p.2.toNat * schedule.extraMeasurementsPerPriority.toNat).sum < 2 ^ 32) :
    ∃ total, schedule.totalMeasurements = some total ∧
      total.toNat = schedule.minMeasurements.toNat + (schedule.priorityRegions.map fun p =>
        p.2.toNat * schedule.extraMeasurementsPerPriority.toNat).sum := by
  have general (regions : List (RegionId × UInt8)) (start : UInt32)
      (small : start.toNat + (regions.map fun p =>
        p.2.toNat * schedule.extraMeasurementsPerPriority.toNat).sum < 2 ^ 32) :
      ∃ extra, regions.foldlM (fun extra p => do
          let own ← checkedU32 (p.2.toNat * schedule.extraMeasurementsPerPriority.toNat)
          checkedU32 (extra.toNat + own.toNat)) start = some extra ∧
        extra.toNat = start.toNat + (regions.map fun p =>
          p.2.toNat * schedule.extraMeasurementsPerPriority.toNat).sum := by
    induction regions generalizing start with
    | nil => exact ⟨start, rfl, rfl⟩
    | cons p regions ih =>
      rw [List.map_cons, List.sum_cons] at small
      obtain ⟨own, first, value⟩ := checkedU32_of_lt
        (n := p.2.toNat * schedule.extraMeasurementsPerPriority.toNat) (by omega)
      obtain ⟨next, second, sum⟩ := checkedU32_of_lt (n := start.toNat + own.toNat) (by omega)
      obtain ⟨extra, rest, total⟩ := ih next (by omega)
      refine ⟨extra, ?_, ?_⟩
      · rw [List.foldlM_cons, first]
        dsimp only [Option.bind_eq_bind, Option.bind_some]
        rw [second]
        exact rest
      · rw [total, sum, value, List.map_cons, List.sum_cons, add_assoc]
  obtain ⟨extra, summed, value⟩ := general schedule.priorityRegions 0
    ((Nat.add_le_add_right (Nat.zero_le _) _).trans_lt fits)
  obtain ⟨total, checked, sum⟩ := checkedU32_of_lt
    (n := schedule.minMeasurements.toNat + extra.toNat)
    (by rw [value, UInt32.toNat_zero, zero_add]; exact fits)
  refine ⟨total, ?_, ?_⟩
  · rw [totalMeasurements, summed]
    exact checked
  · rw [sum, value, UInt32.toNat_zero, zero_add]

end MeasurementSchedule

namespace CirculationManager

section Hints

variable {F : Type} [F64Coord F]

def hintPriority : ℕ → UInt8 → UInt8 := residualPriority

/-- What a layer tells a node at the given coordinates. -/
def hintAt (epoch : Epoch) (localCoords : Coordinates F) (layer : GeoidLayer F) :
    Option RefinementHint := do
  let localRegionId ← layer.assignRegion localCoords
  let region ← layer.findRegion localRegionId
  let residualNanos := F64.toI64 (region.geoidResidual * F64.lit 1000000000)
  return { RefinementHint.of epoch layer.level localRegionId residualNanos region.interEdges with
    priority := hintPriority residualNanos.natAbs layer.level }

/-- Refinement hints for a node at the given coordinates. -/
def generateHints (manager : CirculationManager F) (localCoords : Coordinates F) :
    List RefinementHint :=
  manager.geoid.layers.filterMap (hintAt manager.geoid.epoch localCoords)

/-- The regions of the hints, the highest priority first. -/
def applyHints (_manager : CirculationManager F) (hints : List RefinementHint) :
    MeasurementSchedule :=
  { MeasurementSchedule.defaultSchedule with
    priorityRegions := Ranking.ranked (fun p => OrderDual.toDual p.2.toNat)
      (hints.map fun hint => (hint.regionId, hint.priority)) }

end Hints

end CirculationManager

/-! ### Edges -/

namespace CoarseningOperator

section Edges

variable {Point Scalar : Type} [AddCommGroup Point] [CommRing Scalar] [Module Scalar Point]
  (curve : Ristretto Point Scalar) (hGenerator : Point) (blake3 : List UInt8 → Bytes32)
  (toLeBytes : ℝ → List UInt8) (blindings : Draw → Scalar × Scalar)

/-- Every edge leads from its own region to one of the others within reach. -/
def Linked (reach : ℝ) (regions : List (GeoidRegion ℝ)) : Prop :=
  ∀ r ∈ regions, ∀ e ∈ r.interEdges, e.from = r.id ∧
    ∃ r' ∈ regions, e.to = r'.id ∧ r.centroid.distance r'.centroid < reach

variable {level : UInt8} {regions : List (GeoidRegion ℝ)} {threshold : ℝ}

theorem edge_of_mem_edgesToAdd {i : ℕ} {e : GeoidEdge}
    (listed : (i, e) ∈ edgesToAdd curve hGenerator blindings level regions threshold) :
    ∃ (j : ℕ) (r r' : GeoidRegion ℝ), regions[i]? = some r ∧ regions[j]? = some r' ∧
      e.from = r.id ∧ e.to = r'.id ∧ r.centroid.distance r'.centroid < threshold := by
  obtain ⟨a, _, later⟩ := List.mem_flatMap.mp listed
  obtain ⟨b, _, added⟩ := List.mem_flatMap.mp later
  have first : regions[a.val]? = some (regions.get a) := List.getElem?_eq_getElem a.isLt
  have second : regions[b.val]? = some (regions.get b) := List.getElem?_eq_getElem b.isLt
  dsimp only at added
  split_ifs at added with close
  · rw [F64.lt_real, decide_eq_true_eq] at close
    rcases List.mem_cons.mp added with there | back
    · obtain ⟨rfl, rfl⟩ := Prod.mk.inj there
      exact ⟨b, _, _, first, second, rfl, rfl, close⟩
    · obtain ⟨rfl, rfl⟩ := Prod.mk.inj (List.mem_singleton.mp back)
      rw [Coordinates.distance_comm] at close
      exact ⟨a, _, _, second, first, rfl, rfl, close⟩
  · exact absurd added List.not_mem_nil

variable (level regions threshold) in
/-- What adding edges makes of a region: the edges of its own index come to it. -/
theorem addInterEdges_getElem? (j : ℕ) :
    ∃ edges : List GeoidEdge,
      (∀ e ∈ edges, (j, e) ∈ edgesToAdd curve hGenerator blindings level regions threshold) ∧
        (addInterEdges curve hGenerator blindings level regions threshold)[j]? =
          regions[j]?.map fun r => { r with interEdges := r.interEdges ++ edges } := by
  unfold addInterEdges
  refine List.foldlRecOn (edgesToAdd curve hGenerator blindings level regions threshold) _
    (motive := fun added : List (GeoidRegion ℝ) => ∃ edges : List GeoidEdge,
      (∀ e ∈ edges, (j, e) ∈ edgesToAdd curve hGenerator blindings level regions threshold) ∧
        added[j]? = regions[j]?.map fun r => { r with interEdges := r.interEdges ++ edges })
    ⟨[], fun _ none => absurd none List.not_mem_nil, ?_⟩ ?_
  · cases regions[j]? <;> simp
  rintro added ⟨edges, known, here⟩ ⟨i, e⟩ listed
  by_cases own : i = j
  · subst own
    refine ⟨edges ++ [e], List.forall_mem_append.mpr
      ⟨known, List.forall_mem_singleton.mpr listed⟩, ?_⟩
    simp [here, Function.comp_def]
  · refine ⟨edges, known, ?_⟩
    rw [← here]
    exact List.getElem?_modify_ne _ _ own

/-- **Added edges** link the layer. -/
theorem linked_addInterEdges (none : ∀ r ∈ regions, r.interEdges = []) :
    Linked threshold (addInterEdges curve hGenerator blindings level regions threshold) := by
  intro r listed e edge
  obtain ⟨j, at_j⟩ := List.getElem?_of_mem listed
  obtain ⟨edges, known, here⟩ := addInterEdges_getElem? curve hGenerator blindings level regions
    threshold j
  rw [here, Option.map_eq_some_iff] at at_j
  obtain ⟨r₀, before, rfl⟩ := at_j
  rw [none r₀ (List.mem_of_getElem? before), List.nil_append] at edge
  obtain ⟨k, a, b, first, second, «from», «to», close⟩ :=
    edge_of_mem_edgesToAdd curve hGenerator blindings (known e edge)
  rw [before, Option.some_inj] at first
  subst first
  refine ⟨«from», ?_⟩
  obtain ⟨edges', _, there⟩ := addInterEdges_getElem? curve hGenerator blindings level regions
    threshold k
  rw [second, Option.map_some] at there
  exact ⟨_, List.mem_of_getElem? there, «to», close⟩

end Edges

/-! ### The edges of a hierarchy -/

section Hierarchy

variable {Point Scalar : Type} [AddCommGroup Point] [CommRing Scalar] [Module Scalar Point]
  (curve : Ristretto Point Scalar) (hGenerator : Point) (blake3 : List UInt8 → Bytes32)
  (toLeBytes : ℝ → List UInt8) (blindings : Draw → Scalar × Scalar) (op : CoarseningOperator ℝ)
  (epoch : Epoch)

theorem linked_buildLeafLayer (beacons : List (Layer1Beacon ℝ)) :
    Linked (op.mergeThreshold 0 * 3)
      (buildLeafLayer curve hGenerator blake3 toLeBytes blindings op epoch beacons).regions := by
  have threshold : op.mergeThreshold 0 * 3 = op.baseResolutionSecs * F64.lit 3 := by
    unfold mergeThreshold
    simp
  rw [threshold]
  refine linked_addInterEdges curve hGenerator blindings fun r listed => ?_
  obtain ⟨i, inside, rfl⟩ := List.mem_mapIdx.mp listed
  rfl

theorem linked_coarsenLayer (layer : GeoidLayer ℝ) :
    Linked (op.mergeThreshold (layer.level + 1) * 3)
      (coarsenLayer curve hGenerator blake3 toLeBytes blindings op epoch layer).regions := by
  have threshold : op.mergeThreshold (layer.level + 1) * 3 =
      op.mergeThreshold (layer.level + 1) * F64.lit 3 := by simp
  rw [threshold]
  refine linked_addInterEdges curve hGenerator blindings fun r listed => ?_
  obtain ⟨i, inside, rfl⟩ := List.mem_mapIdx.mp listed
  rfl

theorem linked_coarsenFrom (count : ℕ) (prev : GeoidLayer ℝ) :
    ∀ layer ∈ coarsenFrom curve hGenerator blake3 toLeBytes blindings op epoch count prev,
      Linked (op.mergeThreshold layer.level * 3) layer.regions := by
  induction count generalizing prev with
  | zero => exact fun _ member => absurd member List.not_mem_nil
  | succ count ih =>
    unfold coarsenFrom
    split_ifs
    · exact fun _ member => absurd member List.not_mem_nil
    · exact List.forall_mem_cons.mpr
        ⟨linked_coarsenLayer curve hGenerator blake3 toLeBytes blindings op epoch prev, ih _⟩

/-- **The edges of a hierarchy** reach three times as far as its merges. -/
theorem linked_buildHierarchy (beacons : List (Layer1Beacon ℝ)) :
    ∀ layer ∈ (buildHierarchy curve hGenerator blake3 toLeBytes blindings op epoch beacons).layers,
      Linked (op.mergeThreshold layer.level * 3) layer.regions := by
  unfold buildHierarchy
  split_ifs
  · exact fun _ member => absurd member List.not_mem_nil
  · exact List.forall_mem_cons.mpr
      ⟨linked_buildLeafLayer curve hGenerator blake3 toLeBytes blindings op epoch beacons,
        linked_coarsenFrom curve hGenerator blake3 toLeBytes blindings op epoch _ _⟩

end Hierarchy

end CoarseningOperator

/-! ### The schedule -/

/-- The schedule is the hints in the order of their priorities, and its total counts them. -/
structure MeasurementSchedule.Follows (schedule : MeasurementSchedule)
    (hints : List RefinementHint) : Prop where
  regions : schedule.priorityRegions.Perm (hints.map fun hint => (hint.regionId, hint.priority))
  sorted : schedule.priorityRegions.Pairwise fun p q => q.2.toNat ≤ p.2.toNat
  total : ∃ total, schedule.totalMeasurements = some total ∧
    total.toNat = 8 + 2 * (hints.map fun hint => hint.priority.toNat).sum ∧
      8 + 2 * hints.length ≤ total.toNat ∧ total.toNat ≤ 8 + 20 * hints.length

namespace CirculationManager

theorem applyHints_follows {F : Type} [F64Coord F] (manager : CirculationManager F)
    {hints : List RefinementHint}
    (bounded : ∀ hint ∈ hints, 1 ≤ hint.priority.toNat ∧ hint.priority.toNat ≤ 10)
    (few : hints.length < 2 ^ 27) : (manager.applyHints hints).Follows hints := by
  have perm : (manager.applyHints hints).priorityRegions.Perm
      (hints.map fun hint => (hint.regionId, hint.priority)) := Ranking.ranked_perm _ _
  have least : hints.length ≤ (hints.map fun hint => hint.priority.toNat).sum := by
    have each := List.sum_le_sum (f := fun _ => 1) (g := fun hint => hint.priority.toNat)
      fun hint listed => (bounded hint listed).1
    simpa using each
  have most : (hints.map fun hint => hint.priority.toNat).sum ≤ 10 * hints.length := by
    have each := List.sum_le_sum (f := fun hint => hint.priority.toNat) (g := fun _ => 10)
      fun hint listed => (bounded hint listed).2
    simpa [mul_comm] using each
  have sum : ((manager.applyHints hints).priorityRegions.map fun p => p.2.toNat *
      (manager.applyHints hints).extraMeasurementsPerPriority.toNat).sum =
      2 * (hints.map fun hint => hint.priority.toNat).sum := by
    rw [List.sum_map_mul_right, (perm.map _).sum_eq, List.map_map, mul_comm]
    rfl
  have default : (manager.applyHints hints).minMeasurements.toNat = 8 := rfl
  refine ⟨perm, ?_, ?_⟩
  · have ranked := Ranking.pairwise_ranked
      (fun p : RegionId × UInt8 => OrderDual.toDual p.2.toNat)
      (hints.map fun hint => (hint.regionId, hint.priority))
    exact ranked.imp fun below => OrderDual.toDual_le_toDual.mp below
  · obtain ⟨total, goes, value⟩ := (manager.applyHints hints).exists_totalMeasurements
      (by rw [sum, default]; omega)
    rw [sum, default] at value
    exact ⟨total, goes, value, by omega, by omega⟩

/-! ### One level -/

section Level

variable {F : Type} [F64Coord F]

/-- What a layer with regions tells is of the nearest one, or of another one with its id. -/
theorem hintAt_of_inhabited {layer : GeoidLayer F} (inhabited : layer.regions ≠ []) (epoch : Epoch)
    (coords : Coordinates F) :
    ∃ region ∈ layer.regions, layer.assignRegion coords = some region.id ∧
      layer.findRegion region.id = some region ∧
        hintAt epoch coords layer = some (.of epoch layer.level region.id
          (F64.toI64 (region.geoidResidual * F64.lit 1000000000)) region.interEdges) := by
  obtain ⟨r, nearest, assigned⟩ := GeoidLayer.exists_assignRegion inhabited coords
  obtain ⟨region, listed, ids, found⟩ :=
    GeoidLayer.exists_findRegion (GeoidLayer.nearestRegion_mem nearest)
  rw [← ids] at assigned found
  refine ⟨region, listed, assigned, found, ?_⟩
  unfold hintAt
  rw [assigned]
  dsimp only [Option.bind_eq_bind, Option.bind_some]
  rw [found]
  rfl

/-- There is a hint at every level of layers with regions. -/
theorem map_hintAt {layers : List (GeoidLayer F)}
    (inhabited : ∀ layer ∈ layers, layer.regions ≠ []) (epoch : Epoch) (coords : Coordinates F) :
    layers.map (hintAt epoch coords) = (layers.filterMap (hintAt epoch coords)).map some := by
  induction layers with
  | nil => rfl
  | cons layer layers ih =>
    obtain ⟨here, others⟩ := List.forall_mem_cons.mp inhabited
    obtain ⟨_, _, _, _, told⟩ := hintAt_of_inhabited here epoch coords
    rw [List.map_cons, List.filterMap_cons_some told, List.map_cons, told, ih others]

/-- **The hint of each level.** -/
theorem generateHints_getElem? {manager : CirculationManager F}
    (inhabited : ∀ layer ∈ manager.geoid.layers, layer.regions ≠ []) (coords : Coordinates F)
    (k : ℕ) : (manager.generateHints coords)[k]? =
      manager.geoid.layers[k]?.bind (hintAt manager.geoid.epoch coords) := by
  have entry := congrArg (·[k]?) (map_hintAt inhabited manager.geoid.epoch coords)
  simp only [List.getElem?_map] at entry
  unfold generateHints
  cases layer : manager.geoid.layers[k]? with
  | none =>
    rw [layer, Option.map_none, eq_comm, Option.map_eq_none_iff] at entry
    exact entry
  | some layer =>
    rw [layer, Option.map_some] at entry
    obtain ⟨hint, at_k, same⟩ := Option.map_eq_some_iff.mp entry.symm
    rw [at_k, same]
    rfl

end Level

/-! ### What a node is told -/

/-- What the hint of a level says of its layer, whose regions have these lineages. -/
structure Tells (op : CoarseningOperator ℝ) (layer : GeoidLayer ℝ) (level : List (Lineage ℝ))
    (hint : RefinementHint) : Prop where
  geoidLevel : hint.geoidLevel = layer.level
  residual : ∃ l ∈ level, l.region.id = hint.regionId ∧ ∃ worst,
    IsGreatest {x | ∃ leaf ∈ l.leaves, leaf.geoidResidual = x} worst ∧ 0 ≤ worst ∧
      hint.geoidResidualNanos = F64.toI64 (worst * F64.lit 1000000000) ∧
        hint.priority = residualPriority hint.geoidResidualNanos.toNat hint.geoidLevel
  suggested : hint.suggestedNeighborRegions.length ≤ 3 ∧
    ∀ id ∈ hint.suggestedNeighborRegions, ∃ r ∈ layer.regions, ∃ r' ∈ layer.regions,
      r.id = hint.regionId ∧ r'.id = id ∧
        r.centroid.distance r'.centroid < op.mergeThreshold layer.level * 3

/-- What a manager tells a node of the hierarchy with these lineages. -/
structure Guided (manager : CirculationManager ℝ) (lineages : List (List (Lineage ℝ)))
    (coords : Coordinates ℝ) : Prop where
  path : (manager.generateHints coords).map (·.regionId) =
    (GeoidCoordinate.fromVivaldi coords manager.geoid).regionPath
  length : (manager.generateHints coords).length = max 1 manager.coarsener.levels.toNat
  tells : ∀ (k : ℕ) layer level hint, manager.geoid.layers[k]? = some layer →
    lineages[k]? = some level → (manager.generateHints coords)[k]? = some hint →
      hint.epoch = manager.geoid.epoch ∧ Tells manager.coarsener layer level hint
  schedule : (manager.applyHints (manager.generateHints coords)).Follows
    (manager.generateHints coords)

theorem toI64_nonneg {y : ℝ} (nonneg : 0 ≤ y) : 0 ≤ F64.toI64 y := by
  show 0 ≤ max (-2 ^ 63) (min (if 0 ≤ y then ⌊y⌋ else ⌈y⌉) (2 ^ 63 - 1))
  rw [if_pos nonneg]
  exact le_max_of_le_right (le_min (Int.floor_nonneg.mpr nonneg) (by norm_num))

theorem tells_of_level {op : CoarseningOperator ℝ} {layer : GeoidLayer ℝ}
    {level : List (Lineage ℝ)} {beacons : List (Layer1Beacon ℝ)} {leaves : List (GeoidRegion ℝ)}
    (whole : Lineage.Level beacons leaves level) (regions : level.map (·.region) = layer.regions)
    (linked : CoarseningOperator.Linked (op.mergeThreshold layer.level * 3) layer.regions)
    {epoch : Epoch} {coords : Coordinates ℝ} {hint : RefinementHint}
    (inhabited : layer.regions ≠ []) (told : hintAt epoch coords layer = some hint) :
    hint.epoch = epoch ∧ Tells op layer level hint := by
  obtain ⟨region, listed, _, _, told'⟩ := hintAt_of_inhabited inhabited epoch coords
  obtain rfl := Option.some.inj (told'.symm.trans told)
  have origin := listed
  rw [← regions] at origin
  obtain ⟨l, inLevel, rfl⟩ := List.mem_map.mp origin
  have nonneg := whole.nonneg l inLevel
  have nanos : 0 ≤ F64.toI64 (l.region.geoidResidual * F64.lit 1000000000) :=
    toI64_nonneg (mul_nonneg nonneg (by norm_num))
  refine ⟨rfl, rfl, ⟨l, inLevel, rfl, _, (whole.sound l inLevel).residual, nonneg, rfl, ?_⟩,
    List.length_take_le 3 _, fun id member => ?_⟩
  · have magnitude {z : ℤ} (nonneg : 0 ≤ z) : z.natAbs = z.toNat := by omega
    exact congrArg (residualPriority · layer.level) (magnitude nanos)
  · obtain ⟨e, edge, rfl⟩ := List.mem_map.mp (List.mem_of_mem_take member)
    obtain ⟨_, r', other, «to», close⟩ := linked _ listed e edge
    exact ⟨_, listed, r', other, rfl, «to».symm, close⟩

/-! ### After every run of upward passes -/

section Runs

variable {Point Scalar : Type} [AddCommGroup Point] [CommRing Scalar] [Module Scalar Point]
  (curve : Ristretto Point Scalar) (hGenerator : Point) (blake3 : List UInt8 → Bytes32)
  (toLeBytes : ℝ → List UInt8) (manager : CirculationManager ℝ)
  (before : List (UpwardPass ℝ Scalar)) (pass : UpwardPass ℝ Scalar)

/-- The lineages of the hierarchy that a pass builds. -/
noncomputable def lineagesOf : List (List (Lineage ℝ)) :=
  CoarseningOperator.lineages curve hGenerator blake3 toLeBytes pass.blindings manager.coarsener
    pass.epoch pass.beacons

theorem layers_upward :
    (manager.upward curve hGenerator blake3 toLeBytes (before ++ [pass])).geoid.layers =
      (CoarseningOperator.buildHierarchy curve hGenerator blake3 toLeBytes pass.blindings
        manager.coarsener pass.epoch pass.beacons).layers := by
  rw [upward_concat]
  unfold processUpward
  rw [coarsener_upward]

theorem named_upward :
    ∀ layer ∈ (manager.upward curve hGenerator blake3 toLeBytes (before ++ [pass])).geoid.layers,
      CoarseningOperator.Named blake3 toLeBytes pass.epoch layer := by
  rw [layers_upward]
  exact CoarseningOperator.named_buildHierarchy curve hGenerator blake3 toLeBytes pass.blindings
    manager.coarsener pass.epoch pass.beacons

variable {manager pass}

/-- **What a node is told.** After every run of upward passes, the last of them over some beacons, a
node at any position is told of one region at each level: the nearest one. It has the worst residual
of the leaves below it, its suggested neighbours are within three times the threshold of the level,
and the schedule lists the regions by priority. -/
theorem guided_upward (present : pass.beacons ≠ []) (few : pass.beacons.length < 2 ^ 32) (coords : Coordinates ℝ) :
    Guided (manager.upward curve hGenerator blake3 toLeBytes (before ++ [pass]))
      (manager.lineagesOf curve hGenerator blake3 toLeBytes pass) coords := by
  have whole : Lineage.Hierarchy manager.coarsener.levels pass.beacons _ _
      (manager.lineagesOf curve hGenerator blake3 toLeBytes pass) :=
    CoarseningOperator.buildHierarchy_lineages curve hGenerator blake3 toLeBytes pass.blindings
      manager.coarsener pass.epoch present few
  have linked := CoarseningOperator.linked_buildHierarchy curve hGenerator blake3 toLeBytes
    pass.blindings manager.coarsener pass.epoch pass.beacons
  have same := layers_upward curve hGenerator blake3 toLeBytes manager before pass
  have coarsener := coarsener_upward curve hGenerator blake3 toLeBytes manager (before ++ [pass])
  rw [← same] at whole linked
  rw [← coarsener] at whole linked
  generalize manager.upward curve hGenerator blake3 toLeBytes (before ++ [pass]) = state
    at whole linked coarsener ⊢
  have inhabited : ∀ layer ∈ state.geoid.layers, layer.regions ≠ [] := fun layer listed none => by
    have counts := whole.memberCounts layer listed
    rw [none] at counts
    exact present (List.length_eq_zero_iff.mp counts.symm)
  have path : (state.generateHints coords).map (·.regionId) =
      (GeoidCoordinate.fromVivaldi coords state.geoid).regionPath := by
    unfold generateHints GeoidCoordinate.fromVivaldi
    rw [List.map_filterMap]
    refine List.filterMap_congr fun layer listed => ?_
    obtain ⟨region, _, assigned, _, told⟩ :=
      hintAt_of_inhabited (inhabited layer listed) state.geoid.epoch coords
    rw [told, assigned]
    rfl
  have length : (state.generateHints coords).length = max 1 state.coarsener.levels.toNat := by
    rw [← whole.length, ← List.length_map some, ← List.length_map (hintAt state.geoid.epoch coords)]
    exact congrArg List.length (map_hintAt inhabited state.geoid.epoch coords).symm
  refine ⟨path, length, fun k layer level hint here lineage told => ?_, ?_⟩
  · rw [generateHints_getElem? inhabited, here] at told
    have regions : level.map (·.region) = layer.regions := by
      have entry := congrArg (·[k]?) whole.regions
      simp only [List.getElem?_map, lineage, here, Option.map_some, Option.some_inj] at entry
      exact entry
    exact tells_of_level (whole.level level (List.mem_of_getElem? lineage)) regions
      (linked layer (List.mem_of_getElem? here)) (inhabited layer (List.mem_of_getElem? here)) told
  · refine state.applyHints_follows (fun hint listed => ?_) ?_
    · obtain ⟨layer, member, told⟩ := List.mem_filterMap.mp listed
      obtain ⟨region, _, _, _, made⟩ :=
        hintAt_of_inhabited (inhabited layer member) state.geoid.epoch coords
      rw [← Option.some.inj (made.symm.trans told)]
      exact residualPriority_bounds _ _
    · have levels := state.coarsener.levels.toNat_lt
      omega

end Runs

/-- A node one second along the first axis, after a pass over one beacon at the origin. -/
theorem guided_upward_origin :
    Guided (originUpward ([] ++ [originPass 1]))
      ((withLevels ⟨0⟩ 1).lineagesOf Layer1Store.zeroCurve 0 originDigests
        (fun _ => List.replicate 8 0) (originPass 1)) (.firstAxis 1) :=
  guided_upward Layer1Store.zeroCurve 0 originDigests (fun _ => List.replicate 8 0) []
    (List.cons_ne_nil _ _) (by norm_num [originPass]) (.firstAxis 1)

end CirculationManager

end Rtfsn
