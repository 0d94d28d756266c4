/-
**How much a geoid changed**, `f64` read as exact reals.

* `GeoidLayer.changedFrom`, `NetworkGeoid.deltaFrom`: the regions that came, went, or have another
  number of members, as a share of all.
* `Unchanged`: what no change is. `deltaFrom_spec`: the share is between 0 and 1, it is 0 exactly
  where nothing changed, and it does not matter which geoid came first where ids are distinct.
* `deltaFrom_upward`: the hierarchies of two epochs have no id in common, so the share is 1 whatever
  the positions; those of one epoch over the same positions are unchanged.
-/
import Rtfsn.Geoid.Downward

namespace Rtfsn

section Delta

variable {F : Type}

namespace GeoidLayer

/-- A region that the old layer does not have, or has with another number of members. -/
def isNews (old : GeoidLayer F) (region : GeoidRegion F) : Bool :=
  match old.findRegion region.id with
  | some before => before.memberCount ≠ region.memberCount
  | none => true

/-- The regions that are news, and those that disappeared. -/
def changedFrom (layer old : GeoidLayer F) : ℕ :=
  layer.regions.countP old.isNews +
    old.regions.countP fun region => (layer.findRegion region.id).isNone

/-- Nothing is news, and nothing disappeared. -/
structure Unchanged (layer old : GeoidLayer F) : Prop where
  same : ∀ r ∈ layer.regions, ∃ before, old.findRegion r.id = some before ∧
    before.memberCount = r.memberCount
  kept : ∀ r ∈ old.regions, ∃ after, layer.findRegion r.id = some after

theorem isNews_eq_false_iff {old : GeoidLayer F} {r : GeoidRegion F} : old.isNews r = false ↔
    ∃ before, old.findRegion r.id = some before ∧ before.memberCount = r.memberCount := by
  unfold isNews
  cases old.findRegion r.id <;> simp

theorem changedFrom_eq_zero_iff {layer old : GeoidLayer F} :
    layer.changedFrom old = 0 ↔ layer.Unchanged old := by
  rw [changedFrom, Nat.add_eq_zero_iff, List.countP_eq_zero, List.countP_eq_zero]
  simp only [Bool.not_eq_true, isNews_eq_false_iff, Option.isNone_eq_false_iff,
    Option.isSome_iff_exists]
  exact ⟨fun unchanged => ⟨unchanged.1, unchanged.2⟩, fun unchanged => ⟨unchanged.1, unchanged.2⟩⟩

/-- No more changes than regions of both. -/
theorem changedFrom_le (layer old : GeoidLayer F) :
    layer.changedFrom old ≤ layer.regions.length + old.regions.length :=
  Nat.add_le_add List.countP_le_length List.countP_le_length

/-- Layers without a common id: everything is news, and everything disappeared. -/
theorem changedFrom_of_apart {layer old : GeoidLayer F}
    (apart : ∀ r ∈ layer.regions, ∀ r' ∈ old.regions, r.id ≠ r'.id) :
    layer.changedFrom old = layer.regions.length + old.regions.length := by
  have missing {a b : GeoidLayer F} (apart : ∀ r ∈ a.regions, ∀ r' ∈ b.regions, r.id ≠ r'.id)
      {r : GeoidRegion F} (listed : r ∈ a.regions) : b.findRegion r.id = none :=
    List.find?_eq_none.mpr fun r' member => by simpa using (apart r listed r' member).symm
  rw [changedFrom, List.countP_eq_length.mpr fun r listed => ?_,
    List.countP_eq_length.mpr fun r listed => ?_]
  · rw [missing (fun a inOld b inNew => (apart b inNew a inOld).symm) listed]
    rfl
  · rw [isNews, missing apart listed]

/-! ### Distinct ids -/

/-- The number of members of an id. -/
def membersOf (layer : GeoidLayer F) (id : RegionId) : Option UInt32 :=
  (layer.findRegion id).map (·.memberCount)

theorem findRegion_eq_none_iff {layer : GeoidLayer F} {id : RegionId} :
    layer.findRegion id = none ↔ id ∉ layer.regions.map (·.id) := by
  rw [findRegion, List.find?_eq_none, List.mem_map]
  simp

theorem countP_eq_card {A : Type} [DecidableEq A] {xs : List A} (nodup : xs.Nodup) (p : A → Bool) :
    xs.countP p = (xs.toFinset.filter fun x => p x = true).card := by
  rw [List.countP_eq_length_filter, ← List.toFinset_card_of_nodup (nodup.filter p),
    List.toFinset_filter]

theorem isNews_eq_decide {layer : GeoidLayer F} (old : GeoidLayer F)
    (distinct : (layer.regions.map (·.id)).Nodup) {r : GeoidRegion F}
    (listed : r ∈ layer.regions) :
    old.isNews r = decide (layer.membersOf r.id ≠ old.membersOf r.id) := by
  have own : layer.membersOf r.id = some r.memberCount := by
    rw [membersOf, findRegion_of_nodup distinct listed, Option.map_some]
  rw [own, isNews, membersOf]
  cases old.findRegion r.id with
  | none => simp
  | some before => simp [eq_comm]

/-- **The changes are the ids** at which the two layers differ, where ids are distinct. -/
theorem changedFrom_eq_card {layer old : GeoidLayer F}
    (distinct : (layer.regions.map (·.id)).Nodup) (distinct' : (old.regions.map (·.id)).Nodup) :
    layer.changedFrom old =
      (((layer.regions.map (·.id)).toFinset ∪ (old.regions.map (·.id)).toFinset).filter fun id =>
        layer.membersOf id ≠ old.membersOf id).card := by
  have news : layer.regions.countP old.isNews =
      ((layer.regions.map (·.id)).toFinset.filter fun id =>
        layer.membersOf id ≠ old.membersOf id).card := by
    have decided := List.countP_congr fun r listed =>
      Bool.coe_iff_coe.mpr (isNews_eq_decide old distinct (r := r) listed)
    rw [decided, ← Finset.filter_congr fun id _ => decide_eq_true_iff, ← countP_eq_card distinct,
      List.countP_map]
    rfl
  have gone : (old.regions.countP fun r => (layer.findRegion r.id).isNone) =
      ((old.regions.map (·.id)).toFinset.filter fun id =>
        id ∉ (layer.regions.map (·.id)).toFinset).card := by
    have decided : ∀ r ∈ old.regions, (layer.findRegion r.id).isNone = true ↔
        decide (r.id ∉ layer.regions.map (·.id)) = true := fun r _ => by
      rw [Option.isNone_iff_eq_none, findRegion_eq_none_iff, decide_eq_true_iff]
    simp only [List.mem_toFinset]
    rw [List.countP_congr decided, ← Finset.filter_congr fun id _ => decide_eq_true_iff,
      ← countP_eq_card distinct', List.countP_map]
    rfl
  have apart : Disjoint
      ((layer.regions.map (·.id)).toFinset.filter fun id =>
        layer.membersOf id ≠ old.membersOf id)
      ((old.regions.map (·.id)).toFinset.filter fun id =>
        id ∉ (layer.regions.map (·.id)).toFinset) :=
    Finset.disjoint_left.mpr fun id here there =>
      (Finset.mem_filter.mp there).2 (Finset.mem_filter.mp here).1
  rw [changedFrom, news, gone, ← Finset.card_union_of_disjoint apart]
  congr 1
  ext id
  have missing : id ∉ layer.regions.map (·.id) → layer.membersOf id = none := fun absent => by
    rw [membersOf, findRegion_eq_none_iff.mpr absent, Option.map_none]
  have present : id ∈ old.regions.map (·.id) → old.membersOf id ≠ none := fun listed none => by
    rw [membersOf, Option.map_eq_none_iff, findRegion_eq_none_iff] at none
    exact none listed
  simp only [Finset.mem_union, Finset.mem_filter, List.mem_toFinset]
  constructor
  · rintro (⟨here, differ⟩ | ⟨there, absent⟩)
    · exact ⟨Or.inl here, differ⟩
    · exact ⟨Or.inr there, fun same => present there (same.symm.trans (missing absent))⟩
  · rintro ⟨here | there, differ⟩
    · exact Or.inl ⟨here, differ⟩
    · by_cases here : id ∈ layer.regions.map (·.id)
      · exact Or.inl ⟨here, differ⟩
      · exact Or.inr ⟨there, here⟩

theorem changedFrom_comm {layer old : GeoidLayer F}
    (distinct : (layer.regions.map (·.id)).Nodup) (distinct' : (old.regions.map (·.id)).Nodup) :
    layer.changedFrom old = old.changedFrom layer := by
  rw [changedFrom_eq_card distinct distinct', changedFrom_eq_card distinct' distinct,
    Finset.union_comm]
  congr 1
  exact Finset.filter_congr fun id _ => ne_comm

end GeoidLayer

namespace NetworkGeoid

/-- The changes between the layers of two geoids. -/
def totalChanged (geoid prev : NetworkGeoid F) : ℕ :=
  ((geoid.layers.zip prev.layers).map fun p => p.1.changedFrom p.2).sum

/-- The regions of the larger of two layers, over all levels. -/
def totalRegions (geoid prev : NetworkGeoid F) : ℕ :=
  ((geoid.layers.zip prev.layers).map fun p => max p.1.regions.length p.2.regions.length).sum

/-- The share of regions that changed since `prev`. -/
def deltaFrom [F64 F] (geoid prev : NetworkGeoid F) : F :=
  if geoid.layers.length ≠ prev.layers.length then 1
  else if geoid.layers.isEmpty then 0
  else if geoid.totalRegions prev = 0 then 0
  else
    -- `min` of a ratio that is a number
    let ratio : F := F64.ofNat (geoid.totalChanged prev) / F64.ofNat (geoid.totalRegions prev)
    if F64.lt 1 ratio then 1 else ratio

/-- As many layers, and each unchanged. -/
def Unchanged (geoid prev : NetworkGeoid F) : Prop :=
  geoid.layers.length = prev.layers.length ∧
    ∀ p ∈ geoid.layers.zip prev.layers, p.1.Unchanged p.2

theorem totalChanged_eq_zero_iff {geoid prev : NetworkGeoid F} : geoid.totalChanged prev = 0 ↔
    ∀ p ∈ geoid.layers.zip prev.layers, p.1.Unchanged p.2 := by
  rw [totalChanged, List.sum_eq_zero_iff]
  simp only [List.forall_mem_map, GeoidLayer.changedFrom_eq_zero_iff]

theorem totalChanged_le (geoid prev : NetworkGeoid F) :
    geoid.totalChanged prev ≤ 2 * geoid.totalRegions prev := by
  unfold totalChanged totalRegions
  rw [← List.sum_map_mul_left]
  refine List.sum_le_sum fun p _ => (p.1.changedFrom_le p.2).trans ?_
  omega

theorem map_zip_comm {A B C : Type} (f : A × B → C) (xs : List A) (ys : List B) :
    (xs.zip ys).map f = (ys.zip xs).map (f ∘ Prod.swap) := by
  rw [← List.zip_swap, List.map_map]

theorem totalRegions_comm (geoid prev : NetworkGeoid F) :
    geoid.totalRegions prev = prev.totalRegions geoid := by
  unfold totalRegions
  rw [map_zip_comm]
  exact congrArg List.sum (List.map_congr_left fun p _ => max_comm _ _)

theorem totalChanged_comm {geoid prev : NetworkGeoid F}
    (distinct : ∀ layer ∈ geoid.layers, (layer.regions.map (·.id)).Nodup)
    (distinct' : ∀ layer ∈ prev.layers, (layer.regions.map (·.id)).Nodup) :
    geoid.totalChanged prev = prev.totalChanged geoid := by
  unfold totalChanged
  rw [map_zip_comm]
  refine congrArg List.sum (List.map_congr_left fun p listed => ?_)
  obtain ⟨first, second⟩ := List.of_mem_zip listed
  exact GeoidLayer.changedFrom_comm (distinct _ second) (distinct' _ first)

/-! ### The share, exactly -/

/-- The share is that of the changes among the regions, and 1 at most. -/
theorem deltaFrom_eq {geoid prev : NetworkGeoid ℝ}
    (length : geoid.layers.length = prev.layers.length) :
    geoid.deltaFrom prev =
      min ((geoid.totalChanged prev : ℝ) / geoid.totalRegions prev) 1 := by
  unfold deltaFrom
  rw [if_neg (not_not.mpr length)]
  by_cases empty : geoid.layers.isEmpty = true
  · have none : geoid.totalRegions prev = 0 := by
      rw [totalRegions, List.isEmpty_iff.mp empty, List.zip_nil_left]
      rfl
    rw [if_pos empty, none]
    simp
  · rw [if_neg empty]
    by_cases none : geoid.totalRegions prev = 0
    · rw [if_pos none, none]
      simp
    · rw [if_neg none]
      dsimp only
      rw [F64.lt_real, F64.ofNat_real, F64.ofNat_real]
      by_cases more : 1 < (geoid.totalChanged prev : ℝ) / geoid.totalRegions prev
      · rw [if_pos (decide_eq_true more), min_eq_right more.le]
      · rw [if_neg (mt of_decide_eq_true more), min_eq_left (not_lt.mp more)]

theorem deltaFrom_of_length {geoid prev : NetworkGeoid ℝ}
    (length : geoid.layers.length ≠ prev.layers.length) : geoid.deltaFrom prev = 1 := by
  unfold deltaFrom
  exact if_pos length

/-- **The share of changes** is between 0 and 1, and it is 0 exactly where nothing changed. -/
theorem deltaFrom_bounds (geoid prev : NetworkGeoid ℝ) :
    0 ≤ geoid.deltaFrom prev ∧ geoid.deltaFrom prev ≤ 1 ∧
      (geoid.deltaFrom prev = 0 ↔ geoid.Unchanged prev) := by
  by_cases length : geoid.layers.length = prev.layers.length
  · rw [deltaFrom_eq length]
    refine ⟨le_min (by positivity) zero_le_one, min_le_right _ _, ?_⟩
    rw [Unchanged, and_iff_right length, ← totalChanged_eq_zero_iff]
    have bounded := geoid.totalChanged_le prev
    constructor
    · intro zero
      have ratio : (geoid.totalChanged prev : ℝ) / geoid.totalRegions prev = 0 := by
        rcases min_choice ((geoid.totalChanged prev : ℝ) / geoid.totalRegions prev) 1 with
          first | second
        · exact first.symm.trans zero
        · exact absurd (second.symm.trans zero) one_ne_zero
      rcases div_eq_zero_iff.mp ratio with none | none
      · exact_mod_cast none
      · have regions : geoid.totalRegions prev = 0 := by exact_mod_cast none
        omega
    · intro none
      rw [none, Nat.cast_zero, zero_div]
      exact min_eq_left zero_le_one
  · rw [deltaFrom_of_length length]
    exact ⟨zero_le_one, le_refl 1, iff_of_false one_ne_zero fun unchanged => length unchanged.1⟩

theorem deltaFrom_comm {geoid prev : NetworkGeoid ℝ}
    (distinct : ∀ layer ∈ geoid.layers, (layer.regions.map (·.id)).Nodup)
    (distinct' : ∀ layer ∈ prev.layers, (layer.regions.map (·.id)).Nodup) :
    geoid.deltaFrom prev = prev.deltaFrom geoid := by
  by_cases length : geoid.layers.length = prev.layers.length
  · rw [deltaFrom_eq length, deltaFrom_eq length.symm, totalChanged_comm distinct distinct',
      totalRegions_comm]
  · rw [deltaFrom_of_length length, deltaFrom_of_length (Ne.symm length)]

/-- **The share of changes** is between 0 and 1. It is 0 exactly where nothing changed, and the same
in both directions where no layer has two regions of one id. -/
theorem deltaFrom_spec (geoid prev : NetworkGeoid ℝ) :
    0 ≤ geoid.deltaFrom prev ∧ geoid.deltaFrom prev ≤ 1 ∧
      (geoid.deltaFrom prev = 0 ↔ geoid.Unchanged prev) ∧
        ((∀ layer ∈ geoid.layers, (layer.regions.map (·.id)).Nodup) →
          (∀ layer ∈ prev.layers, (layer.regions.map (·.id)).Nodup) →
            geoid.deltaFrom prev = prev.deltaFrom geoid) := by
  obtain ⟨least, most, zero_iff⟩ := geoid.deltaFrom_bounds prev
  exact ⟨least, most, zero_iff, deltaFrom_comm⟩

end NetworkGeoid

/-! ### The ids of an epoch -/

/-- What the id of a region is the hash of. -/
def RegionId.preimage (toLeBytes : F → List UInt8) (centroid : Coordinates F) (level : UInt8)
    (epoch : Epoch) : List UInt8 :=
  centroid.dims.toList.flatMap toLeBytes ++ level :: Bytes.leBytes 8 epoch.number.toNat

/-- The bytes that are hashed tell the epoch. -/
theorem RegionId.epoch_of_preimage {toLeBytes : F → List UInt8} {c c' : Coordinates F}
    {level level' : UInt8} {epoch epoch' : Epoch}
    (same : preimage toLeBytes c level epoch = preimage toLeBytes c' level' epoch') :
    epoch = epoch' := by
  obtain ⟨_, suffix⟩ := List.append_inj' same (by simp)
  obtain ⟨_, numbers⟩ := List.cons.inj suffix
  exact congrArg Epoch.mk
    (UInt64.toNat_inj.mp (Bytes.leBytes_injective (UInt64.toNat_lt _) (UInt64.toNat_lt _) numbers))

/-- What the ids of a geoid are the hashes of. -/
def NetworkGeoid.preimages (toLeBytes : F → List UInt8) (geoid : NetworkGeoid F) :
    Set (List UInt8) :=
  {bytes | ∃ layer ∈ geoid.layers, ∃ r ∈ layer.regions,
    bytes = RegionId.preimage toLeBytes r.centroid layer.level geoid.epoch}

/-- Geoids of two epochs have no id in common. -/
theorem NetworkGeoid.ids_apart {blake3 : List UInt8 → Bytes32} {toLeBytes : F → List UInt8}
    {geoid prev : NetworkGeoid F}
    (named : ∀ layer ∈ geoid.layers,
      CoarseningOperator.Named blake3 toLeBytes geoid.epoch layer)
    (named' : ∀ layer ∈ prev.layers, CoarseningOperator.Named blake3 toLeBytes prev.epoch layer)
    (injective : Set.InjOn blake3 (geoid.preimages toLeBytes ∪ prev.preimages toLeBytes))
    (epochs : geoid.epoch ≠ prev.epoch) :
    ∀ layer ∈ geoid.layers, ∀ r ∈ layer.regions, ∀ old ∈ prev.layers, ∀ r' ∈ old.regions,
      r.id ≠ r'.id := by
  intro layer listed r member old listed' r' member' same
  rw [named layer listed r member, named' old listed' r' member'] at same
  refine epochs (RegionId.epoch_of_preimage (injective (Or.inl ⟨layer, listed, r, member, rfl⟩)
    (Or.inr ⟨old, listed', r', member', rfl⟩) (congrArg RegionId.bytes same)))

/-- Of layers without common ids everything changed. -/
theorem NetworkGeoid.deltaFrom_of_apart {geoid prev : NetworkGeoid ℝ}
    (apart : ∀ layer ∈ geoid.layers, ∀ r ∈ layer.regions, ∀ old ∈ prev.layers,
      ∀ r' ∈ old.regions, r.id ≠ r'.id)
    (inhabited : ∃ layer ∈ geoid.layers, layer.regions ≠ []) : geoid.deltaFrom prev = 1 := by
  by_cases length : geoid.layers.length = prev.layers.length
  · have all : geoid.totalRegions prev ≤ geoid.totalChanged prev := by
      refine List.sum_le_sum fun p listed => ?_
      obtain ⟨first, second⟩ := List.of_mem_zip listed
      rw [GeoidLayer.changedFrom_of_apart fun r member r' member' =>
        apart _ first r member _ second r' member']
      exact max_le (Nat.le_add_right _ _) (Nat.le_add_left _ _)
    have some : 0 < geoid.totalRegions prev := by
      obtain ⟨layer, listed, regions⟩ := inhabited
      obtain ⟨k, inside, rfl⟩ := List.getElem_of_mem listed
      have inside' : k < prev.layers.length := length ▸ inside
      have paired : (geoid.layers[k], prev.layers[k]) ∈ geoid.layers.zip prev.layers :=
        List.mem_iff_getElem.mpr ⟨k, by simp [inside, inside'], List.getElem_zip⟩
      calc 0 < geoid.layers[k].regions.length := List.length_pos_iff.mpr regions
        _ ≤ max geoid.layers[k].regions.length prev.layers[k].regions.length := le_max_left _ _
        _ ≤ geoid.totalRegions prev :=
            List.le_sum_of_mem (List.mem_map.mpr ⟨_, paired, rfl⟩)
    have positive : (0 : ℝ) < geoid.totalRegions prev := by exact_mod_cast some
    rw [deltaFrom_eq length]
    exact min_eq_right ((one_le_div positive).mpr (by exact_mod_cast all))
  · exact deltaFrom_of_length length

/-- Layers of one shape, named for one epoch, have the same regions. -/
theorem GeoidLayer.unchanged_of_shape [F64Coord F] {blake3 : List UInt8 → Bytes32}
    {toLeBytes : F → List UInt8} {epoch : Epoch} {layer old : GeoidLayer F}
    (named : CoarseningOperator.Named blake3 toLeBytes epoch layer)
    (named' : CoarseningOperator.Named blake3 toLeBytes epoch old) (same : layer.shape = old.shape)
    (distinct : (layer.regions.map (·.id)).Nodup) : layer.Unchanged old := by
  have keys {a : GeoidLayer F} (named : CoarseningOperator.Named blake3 toLeBytes epoch a) :
      a.regions.map (fun r => (r.id, r.memberCount)) =
        a.shape.2.map fun s => (.fromCentroid blake3 toLeBytes s.1 a.shape.1 epoch, s.2) := by
    unfold shape
    rw [List.map_map]
    exact List.map_congr_left fun r listed => Prod.ext (named r listed) rfl
  have pairs : layer.regions.map (fun r => (r.id, r.memberCount)) =
      old.regions.map fun r => (r.id, r.memberCount) := by
    rw [keys named, keys named', same]
  have distinct' : (old.regions.map (·.id)).Nodup := by
    have ids := congrArg (List.map Prod.fst) pairs
    rw [List.map_map, List.map_map] at ids
    exact ids ▸ distinct
  refine ⟨fun r listed => ?_, fun r listed => ?_⟩
  · have pair : (r.id, r.memberCount) ∈ old.regions.map fun r => (r.id, r.memberCount) :=
      pairs ▸ List.mem_map_of_mem listed
    obtain ⟨r', listed', equal⟩ := List.mem_map.mp pair
    obtain ⟨ids, counts⟩ := Prod.mk.inj equal
    exact ⟨r', ids ▸ findRegion_of_nodup distinct' listed', counts⟩
  · have pair : (r.id, r.memberCount) ∈ layer.regions.map fun r => (r.id, r.memberCount) :=
      pairs ▸ List.mem_map_of_mem listed
    obtain ⟨r', listed', equal⟩ := List.mem_map.mp pair
    exact ⟨r', (Prod.mk.inj equal).1 ▸ findRegion_of_nodup distinct listed'⟩

end Delta

/-! ### Between two passes -/

namespace CirculationManager

section Passes

variable {Point Scalar : Type} [AddCommGroup Point] [CommRing Scalar] [Module Scalar Point]
  (curve : Ristretto Point Scalar) (hGenerator : Point) (blake3 : List UInt8 → Bytes32)
  (toLeBytes : ℝ → List UInt8) (manager : CirculationManager ℝ)
  (before before' : List (UpwardPass ℝ Scalar)) {pass pass' : UpwardPass ℝ Scalar}

theorem epoch_upward :
    (manager.upward curve hGenerator blake3 toLeBytes (before ++ [pass])).geoid.epoch =
      pass.epoch := by
  rw [upward_concat]
  exact CoarseningOperator.epoch_buildHierarchy curve hGenerator blake3 toLeBytes pass.blindings _
    pass.epoch pass.beacons

theorem regions_upward (present : pass.beacons ≠ []) :
    ∃ layer ∈ (manager.upward curve hGenerator blake3 toLeBytes (before ++ [pass])).geoid.layers,
      layer.regions ≠ [] := by
  rw [layers_upward, CoarseningOperator.buildHierarchy, if_neg (mt List.isEmpty_iff.mp present)]
  refine ⟨_, List.mem_cons_self, fun none => present ?_⟩
  have aligned := CoarseningOperator.aligned_leafMembers curve hGenerator blake3 toLeBytes
    pass.blindings manager.coarsener pass.epoch pass.beacons
  rw [none, List.forall₂_nil_left_iff] at aligned
  have members : ((manager.coarsener.leafMembers pass.beacons).flatMap Prod.snd).Perm
    pass.beacons := Grouping.gatherMembers_perm pass.beacons
  rw [aligned] at members
  exact List.nil_perm.mp members

theorem layers_upward_of_none (none : pass.beacons = []) :
    (manager.upward curve hGenerator blake3 toLeBytes (before ++ [pass])).geoid.layers = [] := by
  rw [layers_upward, none]
  rfl

/-- **Between the hierarchies of two passes** of a run the share of changes is 1 where they are for
two epochs, whatever the positions, unless both are over no beacons at all. Where they are for one
epoch and over the same positions, nothing changed. -/
theorem deltaFrom_upward
    (injective : Set.InjOn blake3
      ((manager.upward curve hGenerator blake3 toLeBytes
          (before ++ [pass])).geoid.preimages toLeBytes ∪
        (manager.upward curve hGenerator blake3 toLeBytes
          (before' ++ [pass'])).geoid.preimages toLeBytes)) :
    (pass.epoch ≠ pass'.epoch →
      (manager.upward curve hGenerator blake3 toLeBytes (before ++ [pass])).geoid.deltaFrom
          (manager.upward curve hGenerator blake3 toLeBytes (before' ++ [pass'])).geoid =
        if pass.beacons.isEmpty && pass'.beacons.isEmpty then 0 else 1) ∧
      (pass.epoch = pass'.epoch →
        CoarseningOperator.positions pass.beacons = CoarseningOperator.positions pass'.beacons →
          (∀ layer ∈ (manager.upward curve hGenerator blake3 toLeBytes
            (before ++ [pass])).geoid.layers, (layer.regions.map (·.id)).Nodup) →
            (manager.upward curve hGenerator blake3 toLeBytes (before ++ [pass])).geoid.deltaFrom
              (manager.upward curve hGenerator blake3 toLeBytes (before' ++ [pass'])).geoid = 0) := by
  have named := named_upward curve hGenerator blake3 toLeBytes manager before pass
  have named' := named_upward curve hGenerator blake3 toLeBytes manager before' pass'
  constructor
  · intro epochs
    by_cases none : pass.beacons = []
    · have empty := layers_upward_of_none curve hGenerator blake3 toLeBytes manager before none
      by_cases none' : pass'.beacons = []
      · have empty' := layers_upward_of_none curve hGenerator blake3 toLeBytes manager before' none'
        rw [none, none']
        refine (NetworkGeoid.deltaFrom_bounds _ _).2.2.mpr ⟨by rw [empty, empty'], ?_⟩
        rw [empty, List.zip_nil_left]
        exact fun p member => absurd member List.not_mem_nil
      · obtain ⟨layer, listed, _⟩ := regions_upward curve hGenerator blake3 toLeBytes manager before'
          none'
        rw [List.isEmpty_eq_false_iff.mpr none', Bool.and_false, if_neg Bool.false_ne_true]
        refine NetworkGeoid.deltaFrom_of_length ?_
        rw [empty, List.length_nil]
        exact (List.length_pos_iff.mpr (List.ne_nil_of_mem listed)).ne
    · rw [List.isEmpty_eq_false_iff.mpr none, Bool.false_and, if_neg Bool.false_ne_true]
      rw [← epoch_upward curve hGenerator blake3 toLeBytes manager before] at epochs named
      rw [← epoch_upward curve hGenerator blake3 toLeBytes manager before'] at epochs named'
      exact NetworkGeoid.deltaFrom_of_apart (NetworkGeoid.ids_apart named named' injective epochs)
        (regions_upward curve hGenerator blake3 toLeBytes manager before none)
  · intro epochs positions distinct
    have shapes : (manager.upward curve hGenerator blake3 toLeBytes
          (before ++ [pass])).geoid.layers.map (·.shape) =
        (manager.upward curve hGenerator blake3 toLeBytes
          (before' ++ [pass'])).geoid.layers.map (·.shape) := by
      rw [layers_upward, layers_upward, CoarseningOperator.map_shape_buildHierarchy,
        CoarseningOperator.map_shape_buildHierarchy, positions]
    rw [← epochs] at named'
    refine (NetworkGeoid.deltaFrom_bounds _ _).2.2.mpr ⟨?_, fun p listed => ?_⟩
    · have lengths := congrArg List.length shapes
      rwa [List.length_map, List.length_map] at lengths
    · obtain ⟨first, second⟩ := List.of_mem_zip listed
      refine GeoidLayer.unchanged_of_shape (named _ first) (named' _ second) ?_ (distinct _ first)
      rw [← List.forall₂_eq_eq_eq, List.forall₂_map_left_iff, List.forall₂_map_right_iff] at shapes
      exact (List.forall₂_iff_zip.mp shapes).2 listed

end Passes

/-! ### One beacon at the origin -/

theorem shape_originUpward (before : List (UpwardPass ℝ (ZMod Layer1Store.groupOrder)))
    (epoch : UInt64) : ∃ c, ∀ layer ∈ (originUpward (before ++ [originPass epoch])).geoid.layers,
      layer.shape = (0, [(c, 1)]) := by
  obtain ⟨c, shapes⟩ : ∃ c, (withLevels ⟨0⟩ 1).coarsener.hierarchyShapes
      (CoarseningOperator.positions (originPass epoch).beacons) = [(0, [(c, 1)])] := ⟨_, rfl⟩
  refine ⟨c, fun layer listed => ?_⟩
  rw [originUpward, layers_upward] at listed
  have shaped := List.mem_map_of_mem (f := (·.shape)) listed
  rwa [CoarseningOperator.map_shape_buildHierarchy, shapes, List.mem_singleton] at shaped

theorem nodup_originUpward (before : List (UpwardPass ℝ (ZMod Layer1Store.groupOrder)))
    (epoch : UInt64) : ∀ layer ∈ (originUpward (before ++ [originPass epoch])).geoid.layers,
      (layer.regions.map (·.id)).Nodup := by
  intro layer listed
  obtain ⟨c, shapes⟩ := shape_originUpward before epoch
  have one := congrArg (fun shape : UInt8 × List (Coordinates ℝ × UInt32) => shape.2.length)
    (shapes layer listed)
  rw [GeoidLayer.shape, List.length_map] at one
  obtain ⟨r, only⟩ := List.length_eq_one_iff.mp one
  rw [only]
  exact List.nodup_singleton r.id

theorem preimages_originUpward (before : List (UpwardPass ℝ (ZMod Layer1Store.groupOrder)))
    (epoch : UInt64) :
    (originUpward (before ++ [originPass epoch])).geoid.preimages (fun _ => List.replicate 8 0) ⊆
      {List.replicate 48 0 ++ 0 :: Bytes.leBytes 8 epoch.toNat} := by
  rintro bytes ⟨layer, listed, r, member, rfl⟩
  obtain ⟨c, shapes⟩ := shape_originUpward before epoch
  have level : layer.level = 0 := congrArg Prod.fst (shapes layer listed)
  have ofEpoch : (originUpward (before ++ [originPass epoch])).geoid.epoch = ⟨epoch⟩ :=
    epoch_upward _ _ _ _ _ before
  rw [RegionId.preimage, flatMap_zeros, level, ofEpoch]
  rfl

/-- Two passes over one beacon, for two epochs. -/
theorem deltaFrom_upward_origin :
    (originUpward ([] ++ [originPass 1])).geoid.deltaFrom
        (originUpward ([originPass 1] ++ [originPass 2])).geoid = 1 :=
  (deltaFrom_upward Layer1Store.zeroCurve 0 originDigests (fun _ => List.replicate 8 0)
    (withLevels ⟨0⟩ 1) [] [originPass 1]
    ((Set.injOn_pair.mpr fun same => absurd same (by decide)).mono
      (Set.union_subset_union (preimages_originUpward [] 1)
        (preimages_originUpward [originPass 1] 2)))).1 (by decide)

/-- Their share of changes is the same in both directions. -/
theorem deltaFrom_spec_origin :
    (originUpward ([] ++ [originPass 1])).geoid.deltaFrom
        (originUpward ([originPass 1] ++ [originPass 2])).geoid =
      (originUpward ([originPass 1] ++ [originPass 2])).geoid.deltaFrom
        (originUpward ([] ++ [originPass 1])).geoid :=
  (NetworkGeoid.deltaFrom_spec _ _).2.2.2 (nodup_originUpward [] 1)
    (nodup_originUpward [originPass 1] 2)

end CirculationManager

end Rtfsn
