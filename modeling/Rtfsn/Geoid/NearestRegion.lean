/-
**Which accumulator a beacon joins**, `f64` read as exact reals.

* `CoarseningOperator.accums_concat`: the accumulators of the leaf layer as the beacons come.
* `JoinsNearest`: what the leaf layer sets out to do with a beacon. It opens an accumulator only if
  none is within the resolution (`opened_of_accums`), and joins one that is; but it takes the first,
  not the nearest.
* `FirstIsNearest`: when this is the same. `joinsNearest_iff` is one beacon,
  `accums_joinsNearest_iff` all of them, and `firstIsNearest_of_separated` a case in which it is.
* `accums_joins_farther`: a beacon that joins the farther one of two accumulators.
-/
import Rtfsn.Geoid.Lineage
import Rtfsn.Sync.EuclideanCoordinates

namespace Rtfsn

/-- How far a beacon is from the centroid of an accumulator. -/
def RegionAccum.distanceTo {F : Type} [F64Coord F] (acc : RegionAccum F) (beacon : Layer1Beacon F) :
    F :=
  acc.centroid.distance beacon.coordinates.position

/-- Another member makes another accumulator. -/
theorem RegionAccum.add_ne_self {F : Type} [F64Coord F] (acc : RegionAccum F)
    (beacon : Layer1Beacon F) : acc.add beacon ≠ acc := by
  intro same
  have counts : acc.count + 1 = acc.count := congrArg RegionAccum.count same
  simp at counts

namespace CoarseningOperator

/-! ### The accumulators -/

section Accums

variable {F : Type} [F64Coord F] (op : CoarseningOperator F)

theorem accums_concat (before : List (Layer1Beacon F)) (beacon : Layer1Beacon F) :
    op.accums (before ++ [beacon]) =
      Grouping.place (RegionAccum.accepts op.baseResolutionSecs) .add .start (op.accums before)
        beacon :=
  List.foldl_concat ..

/-- The regions of the leaf layer are those of the accumulators. -/
theorem buildLeafLayer_regions {Point Scalar : Type} [AddCommGroup Point] [CommRing Scalar]
    [Module Scalar Point] (curve : Ristretto Point Scalar) (hGenerator : Point)
    (blake3 : List UInt8 → Bytes32) (toLeBytes : F → List UInt8)
    (blindings : Draw → Scalar × Scalar) (epoch : Epoch) (beacons : List (Layer1Beacon F)) :
    (buildLeafLayer curve hGenerator blake3 toLeBytes blindings op epoch beacons).regions =
      addInterEdges curve hGenerator blindings 0
        ((op.accums beacons).mapIdx
          (leafRegion curve hGenerator blake3 toLeBytes blindings op epoch))
        (op.baseResolutionSecs * F64.lit 3) :=
  rfl

end Accums

variable (op : CoarseningOperator ℝ) (before : List (Layer1Beacon ℝ)) (beacon : Layer1Beacon ℝ)

/-- The accumulator a beacon joins is within the resolution and nearest of all; where it opens one
of its own, none is within the resolution. -/
structure JoinsNearest : Prop where
  joined : ∀ i acc, (op.accums before)[i]? = some acc →
    op.accums (before ++ [beacon]) = (op.accums before).set i (acc.add beacon) →
      acc.distanceTo beacon < op.baseResolutionSecs ∧
        ∀ other ∈ op.accums before, acc.distanceTo beacon ≤ other.distanceTo beacon
  opened : op.accums (before ++ [beacon]) = op.accums before ++ [.start beacon] →
    ∀ acc ∈ op.accums before, op.baseResolutionSecs ≤ acc.distanceTo beacon

/-- No accumulator after the first one within the resolution is strictly nearer than it. -/
def FirstIsNearest : Prop :=
  ∀ earlier first later, op.accums before = earlier ++ first :: later →
    (∀ acc ∈ earlier, op.baseResolutionSecs ≤ acc.distanceTo beacon) →
      first.distanceTo beacon < op.baseResolutionSecs →
        ∀ acc ∈ later, first.distanceTo beacon ≤ acc.distanceTo beacon

variable {op before beacon}

theorem accepts_eq_true {threshold : ℝ} {acc : RegionAccum ℝ} :
    acc.accepts threshold beacon = true ↔ acc.distanceTo beacon < threshold := by
  simp [RegionAccum.accepts, RegionAccum.distanceTo]

theorem accepts_eq_false {threshold : ℝ} {acc : RegionAccum ℝ} :
    acc.accepts threshold beacon = false ↔ threshold ≤ acc.distanceTo beacon := by
  simp [RegionAccum.accepts, RegionAccum.distanceTo]

/-- The first accumulator within the resolution takes the beacon. -/
theorem accums_joined {earlier later : List (RegionAccum ℝ)} {first : RegionAccum ℝ}
    (split : op.accums before = earlier ++ first :: later)
    (far : ∀ acc ∈ earlier, op.baseResolutionSecs ≤ acc.distanceTo beacon)
    (within : first.distanceTo beacon < op.baseResolutionSecs) :
    op.accums (before ++ [beacon]) = earlier ++ first.add beacon :: later := by
  rw [accums_concat, split]
  exact Grouping.place_of_first (fun acc member => accepts_eq_false.mpr (far acc member))
    (accepts_eq_true.mpr within)

/-- None within the resolution, or a first one. -/
theorem none_or_first_within (op : CoarseningOperator ℝ) (before : List (Layer1Beacon ℝ))
    (beacon : Layer1Beacon ℝ) :
    (∀ acc ∈ op.accums before, op.baseResolutionSecs ≤ acc.distanceTo beacon) ∨
      ∃ earlier first later, op.accums before = earlier ++ first :: later ∧
        (∀ acc ∈ earlier, op.baseResolutionSecs ≤ acc.distanceTo beacon) ∧
          first.distanceTo beacon < op.baseResolutionSecs := by
  simpa only [accepts_eq_true, accepts_eq_false] using
    Grouping.none_or_first (RegionAccum.accepts op.baseResolutionSecs) (op.accums before) beacon

theorem accums_opened (far : ∀ acc ∈ op.accums before,
    op.baseResolutionSecs ≤ acc.distanceTo beacon) :
    op.accums (before ++ [beacon]) = op.accums before ++ [.start beacon] := by
  rw [accums_concat]
  exact Grouping.place_of_none fun acc member => accepts_eq_false.mpr (far acc member)

/-- **A beacon opens an accumulator only if none is within the resolution.** -/
theorem opened_of_accums
    (opened : op.accums (before ++ [beacon]) = op.accums before ++ [.start beacon]) :
    ∀ acc ∈ op.accums before, op.baseResolutionSecs ≤ acc.distanceTo beacon := by
  rcases none_or_first_within op before beacon with far |
    ⟨earlier, first, later, split, far, within⟩
  · exact far
  · have lengths := congrArg List.length (opened.symm.trans (accums_joined split far within))
    rw [split] at lengths
    simp at lengths

/-- The accumulator that another member was added to is the first within the resolution. -/
theorem first_of_joined {i : ℕ} {acc : RegionAccum ℝ} (listed : (op.accums before)[i]? = some acc)
    (joined : op.accums (before ++ [beacon]) = (op.accums before).set i (acc.add beacon)) :
    ∃ earlier later, op.accums before = earlier ++ acc :: later ∧
      (∀ other ∈ earlier, op.baseResolutionSecs ≤ other.distanceTo beacon) ∧
        acc.distanceTo beacon < op.baseResolutionSecs := by
  rcases none_or_first_within op before beacon with far |
    ⟨earlier, first, later, split, far, within⟩
  · have lengths := congrArg List.length (joined.symm.trans (accums_opened far))
    simp at lengths
  · have same := joined.symm.trans (accums_joined split far within)
    have placed : earlier ++ first.add beacon :: later =
        (op.accums before).set earlier.length (first.add beacon) := by simp [split]
    rw [placed] at same
    by_cases here : i = earlier.length
    · have first_eq : first = acc := by
        rw [here, split] at listed
        simpa using listed
      exact ⟨earlier, later, first_eq ▸ split, far, first_eq ▸ within⟩
    · obtain ⟨inside, _⟩ := List.getElem?_eq_some_iff.mp listed
      have entry := congrArg (·[i]?) same
      simp only [List.getElem?_set_self inside, List.getElem?_set_ne (Ne.symm here), listed,
        Option.some.injEq] at entry
      exact absurd entry (acc.add_ne_self beacon)

/-- **What a beacon joins is the nearest** exactly where the first accumulator within the resolution
is. -/
theorem joinsNearest_iff : op.JoinsNearest before beacon ↔ op.FirstIsNearest before beacon := by
  constructor
  · rintro ⟨joined, _⟩ earlier first later split far within acc member
    have listed : (op.accums before)[earlier.length]? = some first := by simp [split]
    have result : op.accums (before ++ [beacon]) =
        (op.accums before).set earlier.length (first.add beacon) := by
      rw [accums_joined split far within]
      simp [split]
    refine (joined _ first listed result).2 acc ?_
    rw [split]
    exact List.mem_append_right _ (List.mem_cons_of_mem _ member)
  · intro nearest
    refine ⟨fun i acc listed joined => ?_, opened_of_accums⟩
    obtain ⟨earlier, later, split, far, within⟩ := first_of_joined listed joined
    refine ⟨within, fun other member => ?_⟩
    rw [split] at member
    rcases List.mem_append.mp member with before_it | here
    · exact within.le.trans (far other before_it)
    · rcases List.mem_cons.mp here with rfl | after_it
      · exact le_refl _
      · exact nearest earlier acc later split far within other after_it

/-- Where the centroids are twice the resolution apart, a beacon is within the resolution of at most
one. -/
theorem firstIsNearest_of_separated (separated : (op.accums before).Pairwise fun a b =>
    2 * op.baseResolutionSecs ≤ a.centroid.distance b.centroid) :
    op.FirstIsNearest before beacon := by
  intro earlier first later split _ within acc member
  rw [split] at separated
  have apart := (List.pairwise_cons.mp (List.pairwise_append.mp separated).2.1).1 acc member
  have triangle := Coordinates.distance_triangle first.centroid beacon.coordinates.position
    acc.centroid
  rw [Coordinates.distance_comm beacon.coordinates.position] at triangle
  unfold RegionAccum.distanceTo at within ⊢
  linarith

/-- **Over all beacons**: every beacon joins the nearest accumulator exactly if, whenever one comes,
the first accumulator within the resolution is the nearest. -/
theorem accums_joinsNearest_iff (op : CoarseningOperator ℝ) (beacons : List (Layer1Beacon ℝ)) :
    (∀ before beacon after, beacons = before ++ beacon :: after → op.JoinsNearest before beacon) ↔
      ∀ before beacon after, beacons = before ++ beacon :: after →
        op.FirstIsNearest before beacon := by
  simp only [joinsNearest_iff]

/-! ### A beacon between two accumulators -/

/-- A beacon at a point of the first axis. -/
noncomputable def axisBeacon (x : ℝ) : Layer1Beacon ℝ :=
  { Layer1Store.zeroProofBeacon (Vector.replicate 32 0) with coordinates := ⟨.firstAxis x, 1⟩ }

theorem distanceTo_start_axisBeacon (x y : ℝ) :
    (RegionAccum.start (axisBeacon x)).distanceTo (axisBeacon y) = |x - y| := by
  have centroid : (RegionAccum.start (axisBeacon x)).centroid = .firstAxis x := by
    refine congrArg Coordinates.mk (Vector.ext fun i inside => ?_)
    rw [Vector.getElem_map]
    exact (congrArg _ Nat.cast_one).trans (div_one _)
  unfold RegionAccum.distanceTo
  rw [centroid]
  exact Coordinates.distance_firstAxis x y

theorem accums_axisBeacon_pair : (new : CoarseningOperator ℝ).accums
    [axisBeacon 0, axisBeacon 0.003] = [.start (axisBeacon 0), .start (axisBeacon 0.003)] := by
  have one : (new : CoarseningOperator ℝ).accums [axisBeacon 0] = [.start (axisBeacon 0)] := rfl
  have far : ∀ acc ∈ (new : CoarseningOperator ℝ).accums [axisBeacon 0],
      (new : CoarseningOperator ℝ).baseResolutionSecs ≤ acc.distanceTo (axisBeacon 0.003) := by
    intro acc member
    rw [one] at member
    rw [List.mem_singleton.mp member, distanceTo_start_axisBeacon]
    norm_num [new, abs_of_nonpos]
  have two := accums_opened far
  rwa [one] at two

/-- **The farther of two**: with centroids at 0 and 3 ms, a beacon at 1.9 ms joins the first. -/
theorem accums_joins_farther : 0 < (new : CoarseningOperator ℝ).baseResolutionSecs ∧
    ¬ (new : CoarseningOperator ℝ).JoinsNearest [axisBeacon 0, axisBeacon 0.003]
      (axisBeacon 0.0019) := by
  refine ⟨by norm_num [new], fun joins => ?_⟩
  have nearer := joinsNearest_iff.mp joins [] _ _ accums_axisBeacon_pair
    (fun _ member => absurd member List.not_mem_nil)
    (by rw [distanceTo_start_axisBeacon]; norm_num [new, abs_of_nonpos])
    (.start (axisBeacon 0.003)) (List.mem_singleton_self _)
  rw [distanceTo_start_axisBeacon, distanceTo_start_axisBeacon] at nearer
  norm_num [abs_of_nonpos, abs_of_nonneg] at nearer

end CoarseningOperator

end Rtfsn
