/-
**The downward valves**: which regions the whole network is to look into.

* `valveL3ToL2Refinement`: the regions with a residual above a tenth of a millisecond, the worst
  first. `valveL2ToL1Hints`: a hint for each of them.
* `valveL0ToL1WithGeoid`: a beacon with its position in the hierarchy, committed to.
* `mem_valveHints_iff`: after every run of upward passes the valve's hints are those that a node at
  some position would be told, as far as their residual is above the threshold.
-/
import Rtfsn.Geoid.Delta
import Rtfsn.Layers.Valve
import Rtfsn.Overflow

namespace Rtfsn

/-- The regions of a geoid with their levels. -/
def NetworkGeoid.levelled {F : Type} (geoid : NetworkGeoid F) : List (UInt8 × GeoidRegion F) :=
  geoid.layers.flatMap fun layer => layer.regions.map fun region => (layer.level, region)

section Valves

variable {F : Type} [F64Coord F]

/-- What a region of a level asks for; panics where its residual has no magnitude. -/
def refinementTarget (overflow : Overflow) (level : UInt8) (region : GeoidRegion F) :
    Option (Option (RegionId × UInt8 × ℤ)) := do
  let residualNanos := F64.toI64 (region.geoidResidual * F64.lit 1000000000)
  let magnitude ← overflow.i64 |residualNanos|
  return if 100000 < magnitude then some (region.id, level, residualNanos) else none

/-- The regions that need refinement, with their levels and residuals, the worst first. -/
def valveL3ToL2Refinement (overflow : Overflow) (geoid : NetworkGeoid F) (_epoch : Epoch) :
    Option (List (RegionId × UInt8 × ℤ)) := do
  let targets ← geoid.levelled.mapM fun p => refinementTarget overflow p.1 p.2
  return Ranking.ranked (fun target => -|target.2.2|) (targets.filterMap id)

def computeHintPriority : ℕ → UInt8 → UInt8 := residualPriority

/-- The hints for the regions that need refinement. The entries are not read. -/
def valveL2ToL1Hints (overflow : Overflow) (geoid : NetworkGeoid F) (_l2Entries : List Layer2Entry)
    (epoch : Epoch) : Option (List RefinementHint) := do
  let refinementTargets ← valveL3ToL2Refinement overflow geoid epoch
  return refinementTargets.map fun (regionId, level, residualNanos) =>
    let region := geoid.layers[level.toNat]?.bind (·.findRegion regionId)
    { RefinementHint.of epoch level regionId residualNanos
        ((region.map (·.interEdges)).getD []) with
      priority := computeHintPriority residualNanos.natAbs level }

section

variable {Point Scalar : Type} [AddCommGroup Point] [CommRing Scalar] [Module Scalar Point]
  (curve : Ristretto Point Scalar) (hGenerator : Point) (blake3 : List UInt8 → Bytes32)
  (fromBytesModOrderWide : Seed → Scalar)

/-- The beacon of `epoch`, with the commitments to its regions where there is a geoid. -/
def valveL0ToL1WithGeoid (store : Layer0Store F) (epoch : Epoch)
    (blindingSecret : BlindingSecret Scalar) (k1 k2 : Scalar) (geoid : Option (NetworkGeoid F))
    (seeds : ℕ → Seed) : Option (Layer1Beacon F × Option CommittedGeoidCoordinate) :=
  (valveL0ToL1 curve blake3 store epoch blindingSecret k1 k2).map fun beacon =>
    (beacon, geoid.map fun geoid =>
      (CommittedGeoidCoordinate.fromCoordinate curve hGenerator fromBytesModOrderWide
        (.fromVivaldi beacon.coordinates.position geoid) seeds).1)

end

end Valves

/-! ### Without an overflow -/

theorem mapM_eq_map {A B : Type} {f : A → Option B} {g : A → B} {xs : List A}
    (goes : ∀ x ∈ xs, f x = some (g x)) : xs.mapM f = some (xs.map g) := by
  induction xs with
  | nil => rfl
  | cons x xs ih =>
    obtain ⟨first, rest⟩ := List.forall_mem_cons.mp goes
    rw [List.mapM_cons, first, ih rest]
    rfl

section Exact

/-- A residual in nanoseconds. -/
noncomputable def residualNanos (region : GeoidRegion ℝ) : ℤ :=
  F64.toI64 (region.geoidResidual * F64.lit 1000000000)

variable (overflow : Overflow) {geoid : NetworkGeoid ℝ}
  (nonneg : ∀ layer ∈ geoid.layers, ∀ r ∈ layer.regions, 0 ≤ r.geoidResidual)

theorem refinementTarget_of_nonneg {region : GeoidRegion ℝ} (residual : 0 ≤ region.geoidResidual)
    (level : UInt8) : refinementTarget overflow level region =
      some (if 100000 < residualNanos region then
        some (region.id, level, residualNanos region) else none) := by
  have nanos : 0 ≤ residualNanos region :=
    CirculationManager.toI64_nonneg (mul_nonneg residual (by norm_num))
  have fits : IsI64 (residualNanos region) := by
    refine ⟨by omega, ?_⟩
    show max _ (min _ (2 ^ 63 - 1)) ≤ maxI64
    exact max_le (by decide) (min_le_right _ _)
  have magnitude : overflow.i64 |residualNanos region| = some (residualNanos region) := by
    rw [abs_of_nonneg nanos]
    exact Overflow.i64_of_fits fits
  unfold refinementTarget
  dsimp only
  rw [show F64.toI64 (region.geoidResidual * F64.lit 1000000000) = residualNanos region from rfl,
    magnitude]
  rfl

include nonneg in
/-- **The targets** of a geoid whose residuals are not negative. -/
theorem exists_refinement (epoch : Epoch) :
    ∃ targets, valveL3ToL2Refinement overflow geoid epoch = some targets ∧
      (targets.Pairwise fun a b => |b.2.2| ≤ |a.2.2|) ∧
        ∀ target, target ∈ targets ↔ ∃ layer ∈ geoid.layers, ∃ r ∈ layer.regions,
          100000 < residualNanos r ∧ target = (r.id, layer.level, residualNanos r) := by
  have each : geoid.levelled.mapM (fun p => refinementTarget overflow p.1 p.2) =
      some (geoid.levelled.map fun p =>
        if 100000 < residualNanos p.2 then some (p.2.id, p.1, residualNanos p.2) else none) := by
    refine mapM_eq_map fun p listed => ?_
    obtain ⟨layer, member, inLayer⟩ := List.mem_flatMap.mp listed
    obtain ⟨r, inRegions, rfl⟩ := List.mem_map.mp inLayer
    exact refinementTarget_of_nonneg overflow (nonneg layer member r inRegions) layer.level
  refine ⟨_, by rw [valveL3ToL2Refinement, each]; rfl, ?_, fun target => ?_⟩
  · exact (Ranking.pairwise_ranked (fun target : RegionId × UInt8 × ℤ => -|target.2.2|) _).imp
      fun below => neg_le_neg_iff.mp below
  · rw [(Ranking.ranked_perm _ _).mem_iff, List.mem_filterMap]
    simp only [id, NetworkGeoid.levelled, List.mem_map, List.mem_flatMap]
    constructor
    · rintro ⟨_, ⟨p, ⟨layer, member, r, inRegions, rfl⟩, rfl⟩, made⟩
      split_ifs at made with large
      exact ⟨layer, member, r, inRegions, large, (Option.some.inj made).symm⟩
    · rintro ⟨layer, member, r, inRegions, large, rfl⟩
      exact ⟨_, ⟨_, ⟨layer, member, r, inRegions, rfl⟩, rfl⟩, if_pos large⟩

include nonneg in
/-- **The hints of the valve**, the worst first. -/
theorem exists_valveHints (l2Entries : List Layer2Entry) (epoch : Epoch) :
    ∃ hints, valveL2ToL1Hints overflow geoid l2Entries epoch = some hints ∧
      (hints.Pairwise fun a b => |b.geoidResidualNanos| ≤ |a.geoidResidualNanos|) ∧
        ∀ hint, hint ∈ hints ↔ ∃ layer ∈ geoid.layers, ∃ r ∈ layer.regions,
          100000 < residualNanos r ∧
            hint = .of epoch layer.level r.id (residualNanos r)
              (((geoid.layers[layer.level.toNat]?.bind (·.findRegion r.id)).map
                (·.interEdges)).getD []) := by
  obtain ⟨targets, refined, sorted, mem_iff⟩ := exists_refinement overflow nonneg epoch
  refine ⟨_, by rw [valveL2ToL1Hints, refined]; rfl, List.pairwise_map.mpr sorted, fun hint => ?_⟩
  rw [List.mem_map]
  constructor
  · rintro ⟨target, listed, rfl⟩
    obtain ⟨layer, member, r, inRegions, large, rfl⟩ := (mem_iff target).mp listed
    exact ⟨layer, member, r, inRegions, large, rfl⟩
  · rintro ⟨layer, member, r, inRegions, large, rfl⟩
    exact ⟨_, (mem_iff _).mpr ⟨layer, member, r, inRegions, large, rfl⟩, rfl⟩

end Exact

/-! ### The two ways down -/

/-- Points at no distance are one. -/
theorem Coordinates.eq_of_distance_nonpos {a b : Coordinates ℝ} (near : a.distance b ≤ 0) :
    a = b := by
  have zero := le_antisymm near (Coordinates.distance_nonneg a b)
  rw [Coordinates.distance_eq_dist, dist_eq_zero] at zero
  refine congrArg Coordinates.mk (Vector.ext fun i inside => ?_)
  exact congrFun (congrArg (fun p : EuclideanSpace ℝ (Fin 6) => p.ofLp) zero) ⟨i, inside⟩

/-- A node at the centroid of a region is in it, where ids are those of the centroids and no two
regions share one. -/
theorem GeoidLayer.assignRegion_centroid {blake3 : List UInt8 → Bytes32}
    {toLeBytes : ℝ → List UInt8} {epoch : Epoch} {layer : GeoidLayer ℝ}
    (named : CoarseningOperator.Named blake3 toLeBytes epoch layer) {r : GeoidRegion ℝ}
    (listed : r ∈ layer.regions) : layer.assignRegion r.centroid = some r.id := by
  obtain ⟨r', nearest, assigned⟩ :=
    layer.exists_assignRegion (List.ne_nil_of_mem listed) r.centroid
  have close := GeoidLayer.nearestRegion_le nearest listed
  rw [Coordinates.distance_self] at close
  rw [assigned, named r' (GeoidLayer.nearestRegion_mem nearest), named r listed,
    Coordinates.eq_of_distance_nonpos close]

namespace CoarseningOperator

section Levels

variable {F Point Scalar : Type} [F64Coord F] [AddCommGroup Point] [CommRing Scalar]
  [Module Scalar Point] (curve : Ristretto Point Scalar) (hGenerator : Point)
  (blake3 : List UInt8 → Bytes32) (toLeBytes : F → List UInt8)
  (blindings : Draw → Scalar × Scalar) (op : CoarseningOperator F) (epoch : Epoch)

theorem length_coarsenFrom_le (count : ℕ) (prev : GeoidLayer F) :
    (coarsenFrom curve hGenerator blake3 toLeBytes blindings op epoch count prev).length ≤
      count := by
  induction count generalizing prev with
  | zero => exact le_refl 0
  | succ count ih =>
    unfold coarsenFrom
    split_ifs
    · exact Nat.zero_le _
    · exact Nat.succ_le_succ (ih _)

theorem level_coarsenFrom (count : ℕ) (prev : GeoidLayer F) (k : ℕ) {layer : GeoidLayer F}
    (listed : (prev :: coarsenFrom curve hGenerator blake3 toLeBytes blindings op epoch count
      prev)[k]? = some layer) : layer.level = prev.level + UInt8.ofNat k := by
  induction count generalizing prev k with
  | zero =>
    cases k with
    | zero => simpa using congrArg GeoidLayer.level (Option.some.inj listed).symm
    | succ k => simp [coarsenFrom] at listed
  | succ count ih =>
    cases k with
    | zero => simpa using congrArg GeoidLayer.level (Option.some.inj listed).symm
    | succ k =>
      rw [List.getElem?_cons_succ] at listed
      unfold coarsenFrom at listed
      split_ifs at listed
      · simp at listed
      · rw [ih _ k listed, UInt8.ofNat_add, UInt8.ofNat_one, UInt8.add_comm (UInt8.ofNat k),
          ← UInt8.add_assoc]
        rfl

/-- **A layer is at its level.** -/
theorem getElem?_level (beacons : List (Layer1Beacon F)) :
    ∀ layer ∈ (buildHierarchy curve hGenerator blake3 toLeBytes blindings op epoch beacons).layers,
      (buildHierarchy curve hGenerator blake3 toLeBytes blindings op epoch
        beacons).layers[layer.level.toNat]? = some layer := by
  intro layer listed
  obtain ⟨k, here⟩ := List.getElem?_of_mem listed
  have inside := (List.getElem?_eq_some_iff.mp here).1
  have index : layer.level.toNat = k := by
    unfold buildHierarchy at here inside
    split_ifs at here inside
    · cases here
    · have short := length_coarsenFrom_le curve hGenerator blake3 toLeBytes blindings op epoch
        (op.levels.toNat - 1)
        (buildLeafLayer curve hGenerator blake3 toLeBytes blindings op epoch beacons)
      have levels := op.levels.toNat_lt
      rw [List.length_cons] at inside
      rw [level_coarsenFrom curve hGenerator blake3 toLeBytes blindings op epoch _ _ k here,
        buildLeafLayer, zero_add, UInt8.toNat_ofNat']
      exact Nat.mod_eq_of_lt (by omega)
  rw [index, here]

end Levels

end CoarseningOperator

namespace CirculationManager

section Runs

variable {Point Scalar : Type} [AddCommGroup Point] [CommRing Scalar] [Module Scalar Point]
  (curve : Ristretto Point Scalar) (hGenerator : Point) (blake3 : List UInt8 → Bytes32)
  (toLeBytes : ℝ → List UInt8) (manager : CirculationManager ℝ)
  (before : List (UpwardPass ℝ Scalar)) {pass : UpwardPass ℝ Scalar}

theorem residual_nonneg_upward (few : pass.beacons.length < 2 ^ 32) :
    ∀ layer ∈ (manager.upward curve hGenerator blake3 toLeBytes (before ++ [pass])).geoid.layers,
      ∀ r ∈ layer.regions, 0 ≤ r.geoidResidual := by
  intro layer listed r member
  rw [layers_upward] at listed
  by_cases present : pass.beacons = []
  · rw [CoarseningOperator.buildHierarchy, present] at listed
    cases listed
  · have whole := CoarseningOperator.buildHierarchy_lineages curve hGenerator blake3 toLeBytes
      pass.blindings manager.coarsener pass.epoch present few
    obtain ⟨k, here⟩ := List.getElem?_of_mem listed
    have entry := congrArg (·[k]?) whole.regions
    simp only [List.getElem?_map, here, Option.map_some] at entry
    obtain ⟨level, lineage, regions⟩ := Option.map_eq_some_iff.mp entry
    rw [← regions] at member
    obtain ⟨l, inLevel, rfl⟩ := List.mem_map.mp member
    exact (whole.level level (List.mem_of_getElem? lineage)).nonneg l inLevel

variable (pass) in
theorem getElem?_level_upward :
    ∀ layer ∈ (manager.upward curve hGenerator blake3 toLeBytes (before ++ [pass])).geoid.layers,
      (manager.upward curve hGenerator blake3 toLeBytes
        (before ++ [pass])).geoid.layers[layer.level.toNat]? = some layer := by
  rw [layers_upward]
  exact CoarseningOperator.getElem?_level curve hGenerator blake3 toLeBytes pass.blindings
    manager.coarsener pass.epoch pass.beacons

/-- **The two ways down agree.** After every run of upward passes, in a build with overflow checks
or without, the valve's hints are the hints that some position is told, as far as their residual is
above a tenth of a millisecond; the worst are first. -/
theorem mem_valveHints_iff (few : pass.beacons.length < 2 ^ 32)
    (distinct : ∀ layer ∈ (manager.upward curve hGenerator blake3 toLeBytes
      (before ++ [pass])).geoid.layers, (layer.regions.map (·.id)).Nodup)
    (overflow : Overflow) (l2Entries : List Layer2Entry) :
    ∃ hints, valveL2ToL1Hints overflow
        (manager.upward curve hGenerator blake3 toLeBytes (before ++ [pass])).geoid l2Entries
        (manager.upward curve hGenerator blake3 toLeBytes (before ++ [pass])).geoid.epoch =
          some hints ∧
      (hints.Pairwise fun a b => |b.geoidResidualNanos| ≤ |a.geoidResidualNanos|) ∧
        ∀ hint, hint ∈ hints ↔ 100000 < hint.geoidResidualNanos ∧
          ∃ coords, hint ∈ (manager.upward curve hGenerator blake3 toLeBytes
            (before ++ [pass])).generateHints coords := by
  have nonneg := residual_nonneg_upward curve hGenerator blake3 toLeBytes manager before few
  have named := named_upward curve hGenerator blake3 toLeBytes manager before pass
  have levels := getElem?_level_upward curve hGenerator blake3 toLeBytes manager before pass
  generalize manager.upward curve hGenerator blake3 toLeBytes (before ++ [pass]) = state
    at nonneg named levels distinct ⊢
  obtain ⟨hints, goes, sorted, mem_iff⟩ := exists_valveHints overflow nonneg l2Entries
    state.geoid.epoch
  have own (layer : GeoidLayer ℝ) (member : layer ∈ state.geoid.layers) {r : GeoidRegion ℝ}
      (listed : r ∈ layer.regions) :
      ((state.geoid.layers[layer.level.toNat]?.bind (·.findRegion r.id)).map
        (·.interEdges)).getD [] = r.interEdges := by
    rw [levels layer member, Option.bind_some,
      GeoidLayer.findRegion_of_nodup (distinct layer member) listed]
    rfl
  refine ⟨hints, goes, sorted, fun hint => (mem_iff hint).trans ?_⟩
  constructor
  · rintro ⟨layer, member, r, listed, large, rfl⟩
    refine ⟨large, r.centroid, List.mem_filterMap.mpr ⟨layer, member, ?_⟩⟩
    have assigned := GeoidLayer.assignRegion_centroid (named layer member) listed
    unfold hintAt
    rw [assigned]
    dsimp only [Option.bind_eq_bind, Option.bind_some]
    rw [GeoidLayer.findRegion_of_nodup (distinct layer member) listed, own layer member listed]
    rfl
  · rintro ⟨large, coords, told⟩
    obtain ⟨layer, member, made⟩ := List.mem_filterMap.mp told
    have inhabited : layer.regions ≠ [] := by
      rintro none
      simp [hintAt, GeoidLayer.assignRegion, GeoidLayer.nearestRegion, none,
        Pyramid.firstLeast] at made
    obtain ⟨r, listed, _, _, made'⟩ := hintAt_of_inhabited inhabited state.geoid.epoch coords
    obtain rfl := Option.some.inj (made'.symm.trans made)
    refine ⟨layer, member, r, listed, large, ?_⟩
    rw [own layer member listed]
    rfl

end Runs

/-- After a pass over one beacon at the origin, in a build with overflow checks. -/
theorem mem_valveHints_iff_origin :
    ∃ hints, valveL2ToL1Hints .panics (originUpward ([] ++ [originPass 1])).geoid []
        (originUpward ([] ++ [originPass 1])).geoid.epoch = some hints ∧
      (hints.Pairwise fun a b => |b.geoidResidualNanos| ≤ |a.geoidResidualNanos|) ∧
        ∀ hint, hint ∈ hints ↔ 100000 < hint.geoidResidualNanos ∧
          ∃ coords, hint ∈ (originUpward ([] ++ [originPass 1])).generateHints coords :=
  mem_valveHints_iff Layer1Store.zeroCurve 0 originDigests (fun _ => List.replicate 8 0)
    (withLevels ⟨0⟩ 1) [] (by norm_num [originPass]) (nodup_originUpward [] 1) .panics []

end CirculationManager

end Rtfsn
