/-
**A position in the hierarchy, committed to.**

* `CommittedGeoidCoordinate.fromCoordinate`: a commitment for each region on the path, and the bytes
  that are returned for its blinding. The seeds the source draws at random are an argument, one for
  each level; their reduction to a scalar is a parameter.
* `fromCoordinate_opened_iff`: the returned bytes open a commitment only where the half of the seed
  that they leave out is a multiple of the order of the group.
-/
import Rtfsn.Crypto.GroupOrder
import Rtfsn.Geoid.Model
import Rtfsn.Lib.LinearCommitment

namespace Rtfsn

/-- A node's position in the hierarchy. -/
structure GeoidCoordinate (F : Type) where
  /-- From the finest level to the coarsest. -/
  regionPath : List RegionId
  /-- The node's coordinates within its finest region. -/
  intraRegionPosition : Coordinates F
  epoch : Epoch

/-- The regions of a position, hidden. -/
structure CommittedGeoidCoordinate where
  regionCommitments : List SerializableCommitment
  epoch : Epoch

/-- `[u8; 64]`. -/
abbrev Seed := Vector UInt8 64

/-- The bytes of a seed that are kept for the blinding. -/
def Seed.kept (seed : Seed) : Bytes32 := seed.take 32

/-- The value of the bytes that are not. -/
def Seed.dropped (seed : Seed) : ℕ := Bytes.leValue (seed.toList.drop 32)

/-- A seed is worth the bytes kept and those dropped after them. -/
theorem Seed.leValue_eq (seed : Seed) :
    Bytes.leValue seed.toList = Bytes.leValue seed.kept.toList + 256 ^ 32 * seed.dropped := by
  have kept : seed.kept.toList = seed.toList.take 32 := Vector.toList_take
  have length : (seed.toList.take 32).length = 32 := by simp
  have joined := Bytes.leValue_append (seed.toList.take 32) (seed.toList.drop 32)
  rw [List.take_append_drop, length] at joined
  rw [kept]
  exact joined

namespace CommittedGeoidCoordinate

section

variable {F Point Scalar : Type} [AddCommGroup Point] [CommRing Scalar] [Module Scalar Point]
  (curve : Ristretto Point Scalar) (hGenerator : Point) (fromBytesModOrderWide : Seed → Scalar)

/-- What one level adds: the commitment to its region, and the bytes returned for the blinding. -/
def commitLevel (regionId : RegionId) (seed : Seed) : SerializableCommitment × Bytes32 :=
  let blinding := fromBytesModOrderWide seed
  let regionScalar := curve.fromBytesModOrder regionId.bytes
  (.from (PedersenCommitment.commit curve hGenerator regionScalar blinding), seed.kept)

/-- Commit to each region of the path, with the seed drawn for its level. -/
def fromCoordinate (coord : GeoidCoordinate F) (seeds : ℕ → Seed) :
    CommittedGeoidCoordinate × List Bytes32 :=
  let levels := coord.regionPath.zipIdx.map fun (regionId, level) =>
    commitLevel curve hGenerator fromBytesModOrderWide regionId (seeds level)
  (⟨levels.map Prod.fst, coord.epoch⟩, levels.map Prod.snd)

/-- The commitment is the one with the blinding that the bytes encode, and `verify` accepts it. -/
def Opens [DecidableEq Point] (regionId : RegionId) (commitment : SerializableCommitment)
    (blinding : Bytes32) : Prop :=
  let value := curve.fromBytesModOrder regionId.bytes
  commitment = .from (PedersenCommitment.commit curve hGenerator value
    (curve.fromBytesModOrder blinding)) ∧
  ∃ point, curve.decompress commitment.bytes = some point ∧
    PedersenCommitment.verify curve hGenerator ⟨point, commitment.bytes⟩ value
      (curve.fromBytesModOrder blinding) = true

/-- There is one blinding for each region's commitment, and it opens it. -/
structure Opened [DecidableEq Point] (coord : GeoidCoordinate F)
    (committed : CommittedGeoidCoordinate × List Bytes32) : Prop where
  commitments : committed.1.regionCommitments.length = coord.regionPath.length
  blindings : committed.2.length = committed.1.regionCommitments.length
  opens : ∀ (level : ℕ) (regionId : RegionId) (commitment : SerializableCommitment)
    (blinding : Bytes32), coord.regionPath[level]? = some regionId →
    committed.1.regionCommitments[level]? = some commitment → committed.2[level]? = some blinding →
    Opens curve hGenerator regionId commitment blinding

theorem getElem?_commitments (coord : GeoidCoordinate F) (seeds : ℕ → Seed) (level : ℕ) :
    (fromCoordinate curve hGenerator fromBytesModOrderWide coord
        seeds).1.regionCommitments[level]? =
      coord.regionPath[level]?.map fun regionId =>
        (commitLevel curve hGenerator fromBytesModOrderWide regionId (seeds level)).1 := by
  simp [fromCoordinate, Function.comp_def]

theorem getElem?_blindings (coord : GeoidCoordinate F) (seeds : ℕ → Seed) (level : ℕ) :
    (fromCoordinate curve hGenerator fromBytesModOrderWide coord seeds).2[level]? =
      coord.regionPath[level]?.map fun regionId =>
        (commitLevel curve hGenerator fromBytesModOrderWide regionId (seeds level)).2 := by
  simp [fromCoordinate, Function.comp_def]

/-- Each level is opened for itself. -/
theorem opened_iff [DecidableEq Point] (coord : GeoidCoordinate F) (seeds : ℕ → Seed) :
    Opened curve hGenerator coord
        (fromCoordinate curve hGenerator fromBytesModOrderWide coord seeds) ↔
      ∀ (level : ℕ) (regionId : RegionId), coord.regionPath[level]? = some regionId →
        Opens curve hGenerator regionId
          (commitLevel curve hGenerator fromBytesModOrderWide regionId (seeds level)).1
          (commitLevel curve hGenerator fromBytesModOrderWide regionId (seeds level)).2 := by
  constructor
  · intro opened level regionId there
    refine opened.opens level regionId _ _ there ?_ ?_
    · rw [getElem?_commitments, there, Option.map_some]
    · rw [getElem?_blindings, there, Option.map_some]
  · intro all
    refine ⟨by simp [fromCoordinate], by simp [fromCoordinate], ?_⟩
    intro level regionId commitment blinding there committed returned
    rw [getElem?_commitments, there, Option.map_some, Option.some_inj] at committed
    rw [getElem?_blindings, there, Option.map_some, Option.some_inj] at returned
    rw [← committed, ← returned]
    exact all level regionId there

end

/-! ### The two reductions -/

section

variable {F Point : Type} {l : ℕ} [Fact l.Prime] [AddCommGroup Point] [Module (ZMod l) Point]
  [DecidableEq Point] {curve : Ristretto Point (ZMod l)} {hGenerator : Point}
  {fromBytesModOrderWide : Seed → ZMod l} (odd : l ≠ 2) (generator : hGenerator ≠ 0)
  (decompress : ∀ point, curve.decompress (curve.compress point) = some point)
  (narrow : ∀ bytes, curve.fromBytesModOrder bytes = (Bytes.leValue bytes.toList : ZMod l))
  (wide : ∀ seed, fromBytesModOrderWide seed = (Bytes.leValue seed.toList : ZMod l))

include odd narrow wide in
omit [AddCommGroup Point] [Module (ZMod l) Point] [DecidableEq Point] in
/-- The bytes kept encode the blinding where the others reduce to nothing. -/
theorem kept_eq_iff (seed : Seed) :
    curve.fromBytesModOrder seed.kept = fromBytesModOrderWide seed ↔ l ∣ seed.dropped := by
  have coprime : l.Coprime (256 ^ 32) := by
    have two : l.Coprime 2 := (Nat.coprime_primes Fact.out Nat.prime_two).mpr odd
    rw [show 256 = 2 ^ 8 by norm_num, ← pow_mul]
    exact two.pow_right _
  rw [narrow, wide, seed.leValue_eq, Nat.cast_add, left_eq_add, ZMod.natCast_eq_zero_iff,
    coprime.dvd_mul_left]

include odd generator decompress narrow wide in
theorem opens_commitLevel_iff (regionId : RegionId) (seed : Seed) :
    Opens curve hGenerator regionId
      (commitLevel curve hGenerator fromBytesModOrderWide regionId seed).1
      (commitLevel curve hGenerator fromBytesModOrderWide regionId seed).2 ↔ l ∣ seed.dropped := by
  rw [← kept_eq_iff odd narrow wide]
  constructor
  · rintro ⟨same, -⟩
    -- Equal bytes decode to equal points, and a point has one blinding.
    have bytes : curve.compress _ = curve.compress _ := congrArg SerializableCommitment.bytes same
    have points := congrArg curve.decompress bytes
    rw [decompress, decompress, Option.some_inj] at points
    exact ((LinearCommitment.commit_blinding_inj generator).mp points).symm
  · intro kept
    unfold Opens commitLevel
    rw [kept]
    exact ⟨rfl, _, decompress _, decide_eq_true rfl⟩

include odd generator decompress narrow wide in
/-- **When a committed position can be opened.** The returned bytes open every commitment just where
the half of each seed that they leave out is a multiple of the order of the group. -/
theorem fromCoordinate_opened_iff (coord : GeoidCoordinate F) (seeds : ℕ → Seed) :
    Opened curve hGenerator coord
        (fromCoordinate curve hGenerator fromBytesModOrderWide coord seeds) ↔
      ∀ level < coord.regionPath.length, l ∣ (seeds level).dropped := by
  rw [opened_iff]
  simp only [opens_commitLevel_iff odd generator decompress narrow wide]
  constructor
  · intro all level inside
    exact all level _ (List.getElem?_eq_getElem inside)
  · intro all level regionId there
    exact all level (List.getElem?_eq_some_iff.mp there).1

end

/-! ### The scalars of the curve -/

open Layer1Store (groupOrder groupOrder_le groupOrder_ne_two two_ne_zero_mod)
open scoped PrimeOrder

/-- 64 bytes, reduced. -/
def wideReduction (seed : Seed) : ZMod groupOrder := Bytes.leValue seed.toList

/-- A position in the region of the id of thirty-two sevens. -/
noncomputable def inSevens : GeoidCoordinate ℝ :=
  ⟨[⟨Vector.replicate 32 7⟩], ⟨Vector.replicate 6 0⟩, ⟨1⟩⟩

/-- The seed that is zero up to its 33rd byte, and from there on. -/
def oneDropped : Seed := (Vector.replicate 64 0).set 32 1

theorem fromCoordinate_opened_iff_sevens :
    Opened (Ristretto.modular groupOrder) 2 inSevens
        (fromCoordinate (Ristretto.modular groupOrder) 2 wideReduction inSevens
          fun _ => oneDropped) ↔
      ∀ level < inSevens.regionPath.length, groupOrder ∣ oneDropped.dropped :=
  fromCoordinate_opened_iff groupOrder_ne_two two_ne_zero_mod
    (Ristretto.modular_decompress groupOrder_le) (fun _ => rfl) (fun _ => rfl) inSevens
    fun _ => oneDropped

/-- **Bytes that open nothing**: the seed is not zero, and the bytes kept of it are. -/
theorem fromCoordinate_not_opened :
    ¬ ∀ (coord : GeoidCoordinate ℝ) (seeds : ℕ → Seed),
      Opened (Ristretto.modular groupOrder) 2 coord
        (fromCoordinate (Ristretto.modular groupOrder) 2 wideReduction coord seeds) := by
  intro all
  have opened := (opened_iff _ _ _ _ _).mp (all inSevens fun _ => oneDropped) 0 _ rfl
  have divides : groupOrder ∣ oneDropped.dropped :=
    (opens_commitLevel_iff groupOrder_ne_two two_ne_zero_mod
      (Ristretto.modular_decompress groupOrder_le) (fun _ => rfl) (fun _ => rfl) _ _).mp opened
  have dropped : oneDropped.dropped = 1 := by decide
  rw [dropped, Nat.dvd_one] at divides
  exact absurd divides (by norm_num [groupOrder])

end CommittedGeoidCoordinate

end Rtfsn
