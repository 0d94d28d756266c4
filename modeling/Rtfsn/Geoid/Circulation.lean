/-
The circulation of the geoid: rebuilt from the beacons of each epoch, with the hash it had before.

* `CirculationManager.processUpward`, `convergenceDelta`: the upward pass, and what it says of the
  change since the pass before.
* `upward`: a run of upward passes. Each pass starts a geoid afresh, so its generation is that of
  the first pass (`generation_upward`), while the hash before it is kept (`prevHash_upward`).
* `convergenceDelta_upward`: between two passes over the same positions nothing changes exactly
  if they are for one epoch, since ids and hash cover the epoch.
* `Bookkeeping`: what the passes set out to keep, and `bookkeeping_iff` when they do.
-/
import Rtfsn.Geoid.Shape

namespace Rtfsn

/-- The geoid, and the hash it had before the last upward pass. -/
structure CirculationManager (F : Type) where
  geoid : NetworkGeoid F
  coarsener : CoarseningOperator F
  prevGeoidHash : Bytes32

/-- The beacons of an upward pass, the epoch it is for and the blindings it draws. -/
structure UpwardPass (F Scalar : Type) where
  beacons : List (Layer1Beacon F)
  epoch : Epoch
  blindings : Draw → Scalar × Scalar

variable {F : Type} [F64Coord F]

namespace CirculationManager

def new (epoch : Epoch) : CirculationManager F := ⟨.new epoch, .new, Vector.replicate 32 0⟩

def withLevels (epoch : Epoch) (levels : UInt8) : CirculationManager F :=
  ⟨.new epoch, .withLevels levels, Vector.replicate 32 0⟩

section

variable {Point Scalar : Type} [AddCommGroup Point] [CommRing Scalar] [Module Scalar Point]
  (curve : Ristretto Point Scalar) (hGenerator : Point) (blake3 : List UInt8 → Bytes32)
  (toLeBytes : F → List UInt8) (manager : CirculationManager F)

def processUpward (pass : UpwardPass F Scalar) : CirculationManager F :=
  let prevGeoidHash := manager.geoid.hash blake3
  let geoid := CoarseningOperator.buildHierarchy curve hGenerator blake3 toLeBytes pass.blindings
    manager.coarsener pass.epoch pass.beacons
  { manager with
    geoid := { geoid with
      refinementGeneration := geoid.refinementGeneration + 1
      prevHash := prevGeoidHash }
    prevGeoidHash := prevGeoidHash }

/-- How much the geoid changed, by its hash. -/
def convergenceDelta : F :=
  let currentHash := manager.geoid.hash blake3
  if currentHash = manager.prevGeoidHash then 0
  else if manager.prevGeoidHash = Vector.replicate 32 0 then 1
  else F64.lit 0.5

/-- The manager after a run of upward passes. -/
def upward (passes : List (UpwardPass F Scalar)) : CirculationManager F :=
  passes.foldl (processUpward curve hGenerator blake3 toLeBytes) manager

theorem upward_concat (before : List (UpwardPass F Scalar)) (pass : UpwardPass F Scalar) :
    manager.upward curve hGenerator blake3 toLeBytes (before ++ [pass]) =
      (manager.upward curve hGenerator blake3 toLeBytes before).processUpward curve hGenerator
        blake3 toLeBytes pass :=
  List.foldl_concat ..

theorem coarsener_upward (passes : List (UpwardPass F Scalar)) :
    (manager.upward curve hGenerator blake3 toLeBytes passes).coarsener = manager.coarsener := by
  induction passes using List.reverseRecOn with
  | nil => rfl
  | append_singleton passes pass ih =>
    rw [upward_concat]
    exact ih

/-! ### One pass -/

theorem refinementGeneration_buildHierarchy (blindings : Draw → Scalar × Scalar)
    (op : CoarseningOperator F) (epoch : Epoch) (beacons : List (Layer1Beacon F)) :
    (CoarseningOperator.buildHierarchy curve hGenerator blake3 toLeBytes blindings op epoch
      beacons).refinementGeneration = 0 := by
  unfold CoarseningOperator.buildHierarchy
  split_ifs
  · rfl
  · rfl

/-- A pass starts the geoid afresh. -/
theorem refinementGeneration_processUpward (pass : UpwardPass F Scalar) :
    (manager.processUpward curve hGenerator blake3 toLeBytes pass).geoid.refinementGeneration = 1 :=
  congrArg (· + 1) (refinementGeneration_buildHierarchy ..)

/-- What is hashed after a pass comes from its positions and its epoch. -/
theorem hashed_processUpward (pass : UpwardPass F Scalar) :
    (manager.processUpward curve hGenerator blake3 toLeBytes pass).geoid.hashed =
      CoarseningOperator.hashedShapes blake3 toLeBytes pass.epoch
        (manager.coarsener.hierarchyShapes (CoarseningOperator.positions pass.beacons)) :=
  CoarseningOperator.hashed_buildHierarchy curve hGenerator blake3 toLeBytes pass.blindings
    manager.coarsener pass.epoch pass.beacons

theorem convergenceDelta_eq_zero_iff_hash (one_ne : (1 : F) ≠ 0) (half_ne : (F64.lit 0.5 : F) ≠ 0) :
    manager.convergenceDelta blake3 = 0 ↔ manager.geoid.hash blake3 = manager.prevGeoidHash := by
  unfold convergenceDelta
  dsimp only
  split_ifs with same first
  · simp [same]
  · simp [same, one_ne]
  · simp [same, half_ne]

/-! ### Runs of passes -/

/-- The generation after any pass is that of a first one. -/
theorem generation_upward (before : List (UpwardPass F Scalar)) (pass : UpwardPass F Scalar) :
    (manager.upward curve hGenerator blake3 toLeBytes
      (before ++ [pass])).geoid.refinementGeneration = 1 := by
  rw [upward_concat, refinementGeneration_processUpward]

/-- The geoid keeps the hash it had before a pass. -/
theorem prevHash_upward (before : List (UpwardPass F Scalar)) (pass : UpwardPass F Scalar) :
    (manager.upward curve hGenerator blake3 toLeBytes (before ++ [pass])).geoid.prevHash =
      (manager.upward curve hGenerator blake3 toLeBytes before).geoid.hash blake3 := by
  rw [upward_concat]
  rfl

theorem hashed_upward (before : List (UpwardPass F Scalar)) (pass : UpwardPass F Scalar) :
    (manager.upward curve hGenerator blake3 toLeBytes (before ++ [pass])).geoid.hashed =
      CoarseningOperator.hashedShapes blake3 toLeBytes pass.epoch
        (manager.coarsener.hierarchyShapes (CoarseningOperator.positions pass.beacons)) := by
  rw [upward_concat, hashed_processUpward, coarsener_upward]

/-- **Between two passes over the same positions** the code sees no change exactly if they are for
one epoch. -/
theorem convergenceDelta_upward (one_ne : (1 : F) ≠ 0) (half_ne : (F64.lit 0.5 : F) ≠ 0)
    (before : List (UpwardPass F Scalar)) (first second : UpwardPass F Scalar)
    (positions : CoarseningOperator.positions first.beacons =
      CoarseningOperator.positions second.beacons)
    (apart : Set.InjOn blake3
      {(manager.upward curve hGenerator blake3 toLeBytes (before ++ [first])).geoid.hashed,
        (manager.upward curve hGenerator blake3 toLeBytes
          (before ++ [first] ++ [second])).geoid.hashed}) :
    (manager.upward curve hGenerator blake3 toLeBytes
        (before ++ [first] ++ [second])).convergenceDelta blake3 = 0 ↔
      first.epoch = second.epoch := by
  have kept : (manager.upward curve hGenerator blake3 toLeBytes
      (before ++ [first] ++ [second])).prevGeoidHash =
      (manager.upward curve hGenerator blake3 toLeBytes (before ++ [first])).geoid.hash blake3 := by
    rw [upward_concat]
    rfl
  rw [convergenceDelta_eq_zero_iff_hash blake3 _ one_ne half_ne, kept]
  constructor
  · intro same
    have hashed := apart (Or.inr rfl) (Or.inl rfl) same
    rw [hashed_upward, hashed_upward] at hashed
    obtain ⟨epochs, _⟩ := List.append_inj hashed (by simp)
    exact congrArg Epoch.mk
      (UInt64.toNat_inj.mp (Bytes.leBytes_injective (UInt64.toNat_lt _) (UInt64.toNat_lt _)
        epochs)).symm
  · intro same
    unfold NetworkGeoid.hash
    rw [hashed_upward, hashed_upward, same, positions]

/-- What the passes set out to keep: a generation that counts them, the hash before, and no change
between two passes over the same positions in consecutive epochs. -/
structure Bookkeeping (passes : List (UpwardPass F Scalar)) : Prop where
  generation : ∀ before pass after, passes = before ++ pass :: after →
    (manager.upward curve hGenerator blake3 toLeBytes
      (before ++ [pass])).geoid.refinementGeneration = before.length + 1
  prevHash : ∀ before pass after, passes = before ++ pass :: after →
    (manager.upward curve hGenerator blake3 toLeBytes (before ++ [pass])).geoid.prevHash =
      (manager.upward curve hGenerator blake3 toLeBytes before).geoid.hash blake3
  converged : ∀ before first second after, passes = before ++ first :: second :: after →
    CoarseningOperator.positions first.beacons = CoarseningOperator.positions second.beacons →
      first.epoch.next = some second.epoch →
        (manager.upward curve hGenerator blake3 toLeBytes
          (before ++ [first] ++ [second])).convergenceDelta blake3 = 0

theorem bookkeeping_iff_length (passes : List (UpwardPass F Scalar)) :
    manager.Bookkeeping curve hGenerator blake3 toLeBytes passes ↔ passes.length ≤ 1 := by
  constructor
  · intro kept
    rcases passes with _ | ⟨first, _ | ⟨second, after⟩⟩
    · exact Nat.zero_le _
    · exact le_refl _
    · have counted := kept.generation [first] second after rfl
      rw [generation_upward, List.length_singleton] at counted
      exact absurd counted (by decide)
  · intro short
    refine ⟨fun before pass after split => ?_, fun before pass _ _ => prevHash_upward .., ?_⟩
    · have none_before : before = [] := by
        rw [split, List.length_append, List.length_cons] at short
        exact List.length_eq_zero_iff.mp (by omega)
      rw [generation_upward, none_before]
      rfl
    · intro before first second after split
      rw [split, List.length_append, List.length_cons, List.length_cons] at short
      omega

/-- **The bookkeeping of a run.** It is kept as a whole only by runs of at most one pass. By its
parts: the hash before is always kept, the generation counts the first pass only, and consecutive
epochs are never seen without change. -/
theorem bookkeeping_iff (one_ne : (1 : F) ≠ 0) (half_ne : (F64.lit 0.5 : F) ≠ 0)
    (passes : List (UpwardPass F Scalar)) :
    (manager.Bookkeeping curve hGenerator blake3 toLeBytes passes ↔ passes.length ≤ 1) ∧
      (∀ before pass after, passes = before ++ pass :: after →
        (manager.upward curve hGenerator blake3 toLeBytes (before ++ [pass])).geoid.prevHash =
            (manager.upward curve hGenerator blake3 toLeBytes before).geoid.hash blake3 ∧
          ((manager.upward curve hGenerator blake3 toLeBytes
              (before ++ [pass])).geoid.refinementGeneration = before.length + 1 ↔
            before = [])) ∧
      ∀ before first second after, passes = before ++ first :: second :: after →
        CoarseningOperator.positions first.beacons = CoarseningOperator.positions second.beacons →
          Set.InjOn blake3
            {(manager.upward curve hGenerator blake3 toLeBytes (before ++ [first])).geoid.hashed,
              (manager.upward curve hGenerator blake3 toLeBytes
                (before ++ [first] ++ [second])).geoid.hashed} →
            ((manager.upward curve hGenerator blake3 toLeBytes
                (before ++ [first] ++ [second])).convergenceDelta blake3 = 0 ↔
              first.epoch = second.epoch) := by
  refine ⟨bookkeeping_iff_length .., fun before pass _ _ => ⟨prevHash_upward .., ?_⟩,
    fun before first second _ _ positions apart =>
      convergenceDelta_upward _ _ _ _ _ one_ne half_ne before first second positions apart⟩
  rw [generation_upward, eq_comm, Nat.add_eq_right, List.length_eq_zero_iff]

end

/-! ### Two passes over one beacon -/

/-- The hashes of two passes over one beacon at the origin. -/
def originDigests (bytes : List UInt8) : Bytes32 :=
  if bytes = Bytes.leBytes 8 0 then
    #v[113, 224, 169, 145, 115, 86, 73, 49, 192, 184, 172, 197, 45, 38, 133, 168, 227, 156, 100,
      220, 82, 227, 208, 35, 144, 253, 172, 42, 18, 177, 85, 203]
  else if bytes = List.replicate 48 0 ++ 0 :: Bytes.leBytes 8 1 then
    #v[71, 109, 83, 13, 74, 209, 91, 116, 16, 92, 50, 127, 237, 114, 159, 194, 232, 144, 245, 240,
      86, 56, 199, 197, 112, 90, 144, 170, 119, 46, 53, 14]
  else if bytes = List.replicate 48 0 ++ 0 :: Bytes.leBytes 8 2 then
    #v[55, 46, 77, 241, 179, 64, 67, 199, 142, 40, 253, 121, 49, 5, 113, 251, 108, 49, 33, 163, 211,
      34, 76, 190, 222, 41, 83, 88, 33, 44, 43, 183]
  else if bytes.take 8 = Bytes.leBytes 8 1 then
    #v[172, 173, 76, 60, 60, 62, 159, 188, 169, 51, 236, 1, 214, 32, 63, 253, 21, 58, 9, 191, 153,
      73, 214, 219, 133, 249, 70, 95, 163, 98, 149, 76]
  else
    #v[42, 46, 223, 67, 104, 99, 109, 64, 161, 180, 32, 42, 47, 138, 212, 133, 82, 183, 210, 155,
      135, 78, 82, 68, 73, 175, 72, 89, 37, 242, 59, 253]

/-- A pass over one beacon at the origin. -/
noncomputable def originPass (epoch : UInt64) : UpwardPass ℝ (ZMod Layer1Store.groupOrder) where
  beacons := [Layer1Store.zeroProofBeacon (Vector.replicate 32 0)]
  epoch := ⟨epoch⟩
  blindings _ := (0, 0)

/-- The manager after passes over it, with one level. -/
noncomputable def originUpward (passes : List (UpwardPass ℝ (ZMod Layer1Store.groupOrder))) :
    CirculationManager ℝ :=
  (withLevels ⟨0⟩ 1).upward Layer1Store.zeroCurve 0 originDigests (fun _ => List.replicate 8 0)
    passes

/-- The bytes of a point whose coordinates are zero. -/
theorem flatMap_zeros (c : Coordinates ℝ) :
    c.dims.toList.flatMap (fun _ => List.replicate 8 (0 : UInt8)) = List.replicate 48 0 := by
  rw [List.eq_replicate_iff]
  refine ⟨by simp [List.length_flatMap], fun byte member => ?_⟩
  obtain ⟨_, _, listed⟩ := List.mem_flatMap.mp member
  exact List.eq_of_mem_replicate listed

theorem hashed_originUpward (before : List (UpwardPass ℝ (ZMod Layer1Store.groupOrder)))
    (epoch : UInt64) :
    (originUpward (before ++ [originPass epoch])).geoid.hashed = Bytes.leBytes 8 epoch.toNat ++
      ((originDigests (List.replicate 48 0 ++ 0 :: Bytes.leBytes 8 epoch.toNat)).toList ++
        Bytes.leBytes 4 1) := by
  obtain ⟨c, shapes⟩ : ∃ c, (withLevels ⟨0⟩ 1).coarsener.hierarchyShapes
      (CoarseningOperator.positions (originPass epoch).beacons) = [(0, [(c, 1)])] := ⟨_, rfl⟩
  rw [originUpward, hashed_upward, shapes]
  simp only [CoarseningOperator.hashedShapes, List.flatMap_cons, List.flatMap_nil, List.append_nil,
    RegionId.fromCentroid, flatMap_zeros]
  rfl

theorem originDigests_apart : Set.InjOn originDigests
    {(originUpward ([] ++ [originPass 1])).geoid.hashed,
      (originUpward ([] ++ [originPass 1] ++ [originPass 2])).geoid.hashed} := by
  rw [hashed_originUpward, hashed_originUpward, Set.injOn_pair]
  intro same
  exact absurd same (by decide)

/-- The second of two passes for consecutive epochs. -/
theorem bookkeeping_iff_origin :
    (originUpward ([] ++ [originPass 1] ++ [originPass 2])).convergenceDelta originDigests = 0 ↔
      (originPass 1).epoch = (originPass 2).epoch :=
  (bookkeeping_iff Layer1Store.zeroCurve 0 originDigests (fun _ => List.replicate 8 0)
    (withLevels ⟨0⟩ 1) one_ne_zero (by norm_num) [originPass 1, originPass 2]).2.2 [] _ _ [] rfl rfl
    originDigests_apart

/-- **After two passes** over one beacon, for consecutive epochs, the generation is still 1 and
there was a change. -/
theorem bookkeeping_lost :
    ¬ (withLevels ⟨0⟩ 1 : CirculationManager ℝ).Bookkeeping Layer1Store.zeroCurve 0 originDigests
        (fun _ => List.replicate 8 0) [originPass 1, originPass 2] ∧
      (originUpward [originPass 1, originPass 2]).geoid.refinementGeneration = 1 ∧
      (originUpward [originPass 1, originPass 2]).convergenceDelta originDigests ≠ 0 := by
  refine ⟨?_, generation_upward _ _ _ _ _ [originPass 1] (originPass 2), fun unchanged => ?_⟩
  · rw [bookkeeping_iff_length]
    exact (by decide : ¬ 2 ≤ 1)
  · have epochs := (convergenceDelta_upward Layer1Store.zeroCurve 0 originDigests
      (fun _ => List.replicate 8 0) (withLevels ⟨0⟩ 1) one_ne_zero (by norm_num) []
      (originPass 1) (originPass 2) rfl originDigests_apart).mp unchanged
    exact absurd (congrArg Epoch.number epochs) (by decide)

end CirculationManager

end Rtfsn
