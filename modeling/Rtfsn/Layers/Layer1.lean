/-
Layer 1: the beacons, and what identity their store binds them to.

* `Layer1Store.insert`: a beacon gets in when its proof verifies and its key is new. The key hashes
  the blinded commitment with the beacon's epoch; the proof is checked on its own commitment.
* `mem_inserts`: the store holds the first verifying beacon of each key.
* `identityBinding_iff`: blinded identity, epoch and proof agree in the store exactly when each of
  these first beacons came with them agreeing. `insert` compares none of them.
-/
import Rtfsn.Crypto.Blinding
import Rtfsn.Numbers
import Rtfsn.Lib.Bytes

namespace Rtfsn

/-- Proof that the node incorporated at least so many distinct peers. -/
structure PeerCountProof where
  claimedCount : UInt32
  merkleRoot : Bytes32

/-- What a node publishes in an epoch. -/
structure Layer1Beacon (F : Type) where
  blindedId : BlindedIdentity
  epoch : Epoch
  coordinates : CoordinateState F
  clockOffset : F
  clockDrift : F
  uncertainty : F
  peerCount : UInt32
  consistencyScore : F
  proofOfIdentity : BlindingProof
  proofOfPeerCount : Option PeerCountProof

/-- The store of the beacons received. -/
structure Layer1Store (F : Type) where
  beacons : List (Layer1Beacon F)

section

variable {F Point Scalar : Type} [AddCommGroup Point] [CommRing Scalar] [Module Scalar Point]
  [DecidableEq Point] (curve : Ristretto Point Scalar) (blake3 : List UInt8 → Bytes32)

namespace Layer1Beacon

def verifyIdentity (beacon : Layer1Beacon F) : Bool := beacon.proofOfIdentity.verify curve blake3

def key (beacon : Layer1Beacon F) : Bytes32 :=
  blake3 (beacon.blindedId.commitment.toList ++ Bytes.leBytes 8 beacon.epoch.number.toNat)

/-- The blinded identity is the one the proof is about, in the beacon's own epoch. -/
def Bound (beacon : Layer1Beacon F) : Prop :=
  beacon.blindedId.commitment = beacon.proofOfIdentity.commitment ∧
    beacon.blindedId.epoch = beacon.epoch

end Layer1Beacon

namespace Layer1Store

def new : Layer1Store F := ⟨[]⟩

def insert (store : Layer1Store F) (beacon : Layer1Beacon F) : Bool × Layer1Store F :=
  if ¬ beacon.verifyIdentity curve blake3 then (false, store)
  else if store.beacons.any fun b => b.key blake3 == beacon.key blake3 then (false, store)
  else (true, ⟨store.beacons ++ [beacon]⟩)

def getEpoch (store : Layer1Store F) (epoch : Epoch) : List (Layer1Beacon F) :=
  store.beacons.filter fun b => b.epoch = epoch

/-- The store after the beacons have come in one by one. -/
def inserts (beacons : List (Layer1Beacon F)) : Layer1Store F :=
  beacons.foldl (fun store beacon => (store.insert curve blake3 beacon).2) new

/-- A beacon that gets in after `earlier`: it verifies, and none that verified before had its
key. -/
def Accepted (earlier : List (Layer1Beacon F)) (beacon : Layer1Beacon F) : Prop :=
  beacon.verifyIdentity curve blake3 = true ∧
    ∀ b ∈ earlier, b.verifyIdentity curve blake3 = true → b.key blake3 ≠ beacon.key blake3

/-- Every stored beacon's blinded identity is its proof's, in its own epoch; a proof or a blinded
identity occurs once an epoch. -/
structure IdentityBinding (store : Layer1Store F) : Prop where
  bound : ∀ b ∈ store.beacons, b.verifyIdentity curve blake3 = true ∧ b.Bound
  one_proof : store.beacons.Pairwise fun b b' =>
    ¬ (b.proofOfIdentity = b'.proofOfIdentity ∧ b.epoch = b'.epoch)
  one_identity : store.beacons.Pairwise fun b b' =>
    ¬ (b.blindedId.commitment = b'.blindedId.commitment ∧ b.epoch = b'.epoch)

/-! ### What gets in -/

variable {curve blake3}

theorem insert_of_fresh {store : Layer1Store F} {beacon : Layer1Beacon F}
    (verifies : beacon.verifyIdentity curve blake3 = true)
    (fresh : ∀ b ∈ store.beacons, b.key blake3 ≠ beacon.key blake3) :
    store.insert curve blake3 beacon = (true, ⟨store.beacons ++ [beacon]⟩) := by
  unfold insert
  rw [if_neg (not_not.mpr verifies), if_neg (by simpa using fresh)]

theorem insert_of_not_fresh {store : Layer1Store F} {beacon : Layer1Beacon F}
    (refused : ¬ (beacon.verifyIdentity curve blake3 = true ∧
      ∀ b ∈ store.beacons, b.key blake3 ≠ beacon.key blake3)) :
    store.insert curve blake3 beacon = (false, store) := by
  unfold insert
  by_cases verifies : beacon.verifyIdentity curve blake3 = true
  · have taken : ∃ b ∈ store.beacons, b.key blake3 = beacon.key blake3 := by
      by_contra none
      exact refused ⟨verifies, fun b stored same => none ⟨b, stored, same⟩⟩
    rw [if_neg (not_not.mpr verifies), if_pos (by simpa using taken)]
  · rw [if_pos verifies]

theorem insert_beacons (store : Layer1Store F) (beacon : Layer1Beacon F) :
    (store.insert curve blake3 beacon).2.beacons = store.beacons ∨
      (store.insert curve blake3 beacon).2.beacons = store.beacons ++ [beacon] := by
  by_cases enters : beacon.verifyIdentity curve blake3 = true ∧
      ∀ b ∈ store.beacons, b.key blake3 ≠ beacon.key blake3
  · rw [insert_of_fresh enters.1 enters.2]
    exact Or.inr rfl
  · rw [insert_of_not_fresh enters]
    exact Or.inl rfl

theorem inserts_concat (earlier : List (Layer1Beacon F)) (beacon : Layer1Beacon F) :
    inserts curve blake3 (earlier ++ [beacon]) =
      ((inserts curve blake3 earlier).insert curve blake3 beacon).2 := by
  rw [inserts, List.foldl_append]
  rfl

variable (curve blake3) in
/-- What is stored came in and verified; what verified has its key stored. -/
theorem stored_keys (beacons : List (Layer1Beacon F)) :
    (∀ b ∈ (inserts curve blake3 beacons).beacons,
      b ∈ beacons ∧ b.verifyIdentity curve blake3 = true) ∧
    ∀ b ∈ beacons, b.verifyIdentity curve blake3 = true →
      ∃ stored ∈ (inserts curve blake3 beacons).beacons, stored.key blake3 = b.key blake3 := by
  induction beacons using List.reverseRecOn with
  | nil => simp [inserts, new]
  | append_singleton earlier beacon ih =>
    rw [inserts_concat]
    by_cases enters : beacon.verifyIdentity curve blake3 = true ∧
        ∀ b ∈ (inserts curve blake3 earlier).beacons, b.key blake3 ≠ beacon.key blake3
    · rw [insert_of_fresh enters.1 enters.2]
      refine ⟨fun b stored => ?_, fun b came verifies => ?_⟩
      · rcases List.mem_append.mp stored with before | now
        · exact ⟨List.mem_append_left _ (ih.1 b before).1, (ih.1 b before).2⟩
        · exact ⟨List.mem_append_right _ now, List.mem_singleton.mp now ▸ enters.1⟩
      · rcases List.mem_append.mp came with before | now
        · obtain ⟨stored, inside, same⟩ := ih.2 b before verifies
          exact ⟨stored, List.mem_append_left _ inside, same⟩
        · exact ⟨b, List.mem_append_right _ now, rfl⟩
    · rw [insert_of_not_fresh enters]
      refine ⟨fun b stored => ⟨List.mem_append_left _ (ih.1 b stored).1, (ih.1 b stored).2⟩,
        fun b came verifies => ?_⟩
      rcases List.mem_append.mp came with before | now
      · exact ih.2 b before verifies
      · rw [List.mem_singleton.mp now] at verifies ⊢
        push Not at enters
        exact enters verifies

/-- Acceptance on arrival is decided by the keys the store has. -/
theorem accepted_iff {earlier : List (Layer1Beacon F)} {beacon : Layer1Beacon F} :
    Accepted curve blake3 earlier beacon ↔ beacon.verifyIdentity curve blake3 = true ∧
      ∀ b ∈ (inserts curve blake3 earlier).beacons, b.key blake3 ≠ beacon.key blake3 := by
  obtain ⟨sound, complete⟩ := stored_keys curve blake3 earlier
  refine and_congr_right fun _ => ⟨fun fresh b stored => ?_, fun fresh b came verifies same => ?_⟩
  · exact fresh b (sound b stored).1 (sound b stored).2
  · obtain ⟨stored, inside, key⟩ := complete b came verifies
    exact fresh stored inside (key.trans same)

theorem inserts_of_accepted {earlier : List (Layer1Beacon F)} {beacon : Layer1Beacon F}
    (accepted : Accepted curve blake3 earlier beacon) :
    (inserts curve blake3 (earlier ++ [beacon])).beacons =
      (inserts curve blake3 earlier).beacons ++ [beacon] := by
  obtain ⟨verifies, fresh⟩ := accepted_iff.mp accepted
  rw [inserts_concat, insert_of_fresh verifies fresh]

theorem inserts_of_not_accepted {earlier : List (Layer1Beacon F)} {beacon : Layer1Beacon F}
    (refused : ¬ Accepted curve blake3 earlier beacon) :
    inserts curve blake3 (earlier ++ [beacon]) = inserts curve blake3 earlier := by
  rw [inserts_concat, insert_of_not_fresh (mt accepted_iff.mpr refused)]

variable (curve blake3) in
/-- Keys occur once. -/
theorem inserts_keys (beacons : List (Layer1Beacon F)) :
    (inserts curve blake3 beacons).beacons.Pairwise fun b b' =>
      b.key blake3 ≠ b'.key blake3 := by
  induction beacons using List.reverseRecOn with
  | nil => exact List.Pairwise.nil
  | append_singleton earlier beacon ih =>
    by_cases accepted : Accepted curve blake3 earlier beacon
    · rw [inserts_of_accepted accepted, List.pairwise_append]
      exact ⟨ih, List.pairwise_singleton _ _, by simpa using (accepted_iff.mp accepted).2⟩
    · rw [inserts_of_not_accepted accepted]
      exact ih

/-- **The store holds the beacons that were accepted on arrival.** -/
theorem mem_inserts {beacons : List (Layer1Beacon F)} {b : Layer1Beacon F} :
    b ∈ (inserts curve blake3 beacons).beacons ↔
      ∃ earlier later, beacons = earlier ++ b :: later ∧ Accepted curve blake3 earlier b := by
  induction beacons using List.reverseRecOn with
  | nil => simp [inserts, new]
  | append_singleton before beacon ih =>
    -- A place in the longer list is the new end or a place in the shorter one.
    have places : (∃ earlier later, before ++ [beacon] = earlier ++ b :: later ∧
          Accepted curve blake3 earlier b) ↔
        (b = beacon ∧ Accepted curve blake3 before b) ∨
          ∃ earlier later, before = earlier ++ b :: later ∧ Accepted curve blake3 earlier b := by
      constructor
      · rintro ⟨earlier, later, split, accepted⟩
        induction later using List.reverseRecOn with
        | nil =>
          obtain ⟨rfl, same⟩ := List.append_inj' split rfl
          exact Or.inl ⟨(List.singleton_inj.mp same).symm, accepted⟩
        | append_singleton later last _ =>
          rw [← List.cons_append, ← List.append_assoc] at split
          exact Or.inr ⟨earlier, later, (List.append_inj' split rfl).1, accepted⟩
      · rintro (⟨rfl, accepted⟩ | ⟨earlier, later, rfl, accepted⟩)
        · exact ⟨before, [], rfl, accepted⟩
        · exact ⟨earlier, later ++ [beacon], by simp, accepted⟩
    rw [places, ← ih]
    by_cases accepted : Accepted curve blake3 before beacon
    · rw [inserts_of_accepted accepted, List.mem_append, List.mem_singleton]
      exact ⟨fun either => either.elim Or.inr fun same => Or.inl ⟨same, same ▸ accepted⟩,
        fun either => either.elim (fun new => Or.inr new.1) Or.inl⟩
    · rw [inserts_of_not_accepted accepted]
      exact ⟨Or.inr, fun either => either.elim (fun new => absurd (new.1 ▸ new.2) accepted) id⟩

/-- **Identity binding** holds of the store exactly when every accepted beacon came with its blinded
identity, its epoch and its proof agreeing. -/
theorem identityBinding_iff (beacons : List (Layer1Beacon F)) :
    IdentityBinding curve blake3 (inserts curve blake3 beacons) ↔
      ∀ earlier b later, beacons = earlier ++ b :: later → Accepted curve blake3 earlier b →
        b.Bound := by
  constructor
  · intro binding earlier b later split accepted
    exact (binding.bound b (mem_inserts.mpr ⟨earlier, later, split, accepted⟩)).2
  · intro agreeing
    have bound : ∀ b ∈ (inserts curve blake3 beacons).beacons, b.Bound := fun b stored => by
      obtain ⟨earlier, later, split, accepted⟩ := mem_inserts.mp stored
      exact agreeing earlier b later split accepted
    have keys := inserts_keys curve blake3 beacons
    refine ⟨fun b stored => ⟨?_, bound b stored⟩, ?_, ?_⟩
    · exact ((stored_keys curve blake3 beacons).1 b stored).2
    · refine keys.imp_of_mem fun {b b'} stored stored' distinct => ?_
      rintro ⟨sameProof, sameEpoch⟩
      have commitment : b.blindedId.commitment = b'.blindedId.commitment := by
        rw [(bound b stored).1, (bound b' stored').1, sameProof]
      refine distinct ?_
      rw [Layer1Beacon.key, Layer1Beacon.key, commitment, sameEpoch]
    · refine keys.imp fun {b b'} distinct => ?_
      rintro ⟨commitment, sameEpoch⟩
      refine distinct ?_
      rw [Layer1Beacon.key, Layer1Beacon.key, commitment, sameEpoch]

/-! ### One proof, two identities -/

/-- The order of the curve's group. -/
def groupOrder : ℕ := 2 ^ 252 + 27742317777372353535851937790883648493

/-- A group of that order. It reads the all-zero bytes as its zero, as the curve does. -/
def zeroCurve : Ristretto (ZMod groupOrder) (ZMod groupOrder) where
  basepoint := 1
  identityGenerator := 2
  compress _ := Vector.replicate 32 0
  decompress bytes := if bytes = Vector.replicate 32 0 then some 0 else none
  toBytes _ := Vector.replicate 32 0
  fromBytesModOrder bytes := (Bytes.leValue bytes.toList : ZMod groupOrder)
  fromCanonicalBytes bytes :=
    if Bytes.leValue bytes.toList < groupOrder then
      some (Bytes.leValue bytes.toList : ZMod groupOrder) else none

/-- The digest of 64 zero bytes. -/
def zerosDigest : Bytes32 :=
  #v[77, 0, 105, 118, 99, 106, 134, 150, 217, 9, 166, 48, 164, 8, 26, 173, 77, 124, 80, 248, 26,
    253, 238, 4, 2, 11, 240, 80, 134, 171, 106, 85]

/-- The digests of the two keys below and of the challenge of the all-zero proof. -/
def zeroProofDigests (bytes : List UInt8) : Bytes32 :=
  if bytes = List.replicate 32 0 ++ Bytes.leBytes 8 1 then
    #v[84, 105, 103, 153, 56, 167, 2, 207, 209, 45, 139, 72, 115, 148, 93, 17, 115, 179, 171, 27,
      168, 98, 88, 236, 173, 200, 108, 243, 234, 6, 117, 131]
  else if bytes = List.replicate 32 1 ++ Bytes.leBytes 8 1 then
    #v[192, 138, 53, 163, 160, 51, 225, 178, 206, 85, 171, 216, 120, 50, 255, 162, 161, 44, 29, 199,
      227, 202, 236, 57, 29, 205, 5, 26, 5, 241, 121, 80]
  else
    zerosDigest

/-- A beacon of epoch 1 under the blinded identity `commitment`, with the all-zero proof. -/
noncomputable def zeroProofBeacon (commitment : Bytes32) : Layer1Beacon ℝ where
  blindedId := ⟨commitment, ⟨1⟩⟩
  epoch := ⟨1⟩
  coordinates := ⟨⟨Vector.replicate 6 0⟩, 1⟩
  clockOffset := 0
  clockDrift := 0
  uncertainty := 0
  peerCount := 0
  consistencyScore := 1
  proofOfIdentity :=
    ⟨Vector.replicate 32 0, Vector.replicate 32 0, Vector.replicate 32 0, Vector.replicate 32 0⟩
  proofOfPeerCount := none

theorem verify_zeroProof (commitment : Bytes32) :
    (zeroProofBeacon commitment).verifyIdentity zeroCurve zeroProofDigests = true := by
  have zero : Bytes.leValue (Vector.replicate 32 (0 : UInt8)).toList = 0 := by decide
  have canonical : zeroCurve.fromCanonicalBytes (Vector.replicate 32 0) = some 0 := by
    unfold zeroCurve
    dsimp only
    rw [zero, if_pos (by norm_num [groupOrder]), Nat.cast_zero]
  have identity : zeroCurve.decompress (Vector.replicate 32 0) = some 0 := by simp [zeroCurve]
  simp [Layer1Beacon.verifyIdentity, BlindingProof.verify, zeroProofBeacon, canonical, identity]

/-- **Both get in**: two beacons of one epoch with one proof, under identities that are not the
proof's for the second. -/
theorem inserts_one_proof_twice :
    ¬ ∀ beacons : List (Layer1Beacon ℝ),
      IdentityBinding zeroCurve zeroProofDigests (inserts zeroCurve zeroProofDigests beacons) := by
  intro binding
  have keys : (zeroProofBeacon (Vector.replicate 32 0)).key zeroProofDigests ≠
      (zeroProofBeacon (Vector.replicate 32 1)).key zeroProofDigests := by
    unfold Layer1Beacon.key zeroProofDigests
    decide
  have second : Accepted zeroCurve zeroProofDigests [zeroProofBeacon (Vector.replicate 32 0)]
      (zeroProofBeacon (Vector.replicate 32 1)) := by
    refine ⟨verify_zeroProof _, fun b member _ => ?_⟩
    rw [List.mem_singleton.mp member]
    exact keys
  have stored : zeroProofBeacon (Vector.replicate 32 1) ∈ (inserts zeroCurve zeroProofDigests
      [zeroProofBeacon (Vector.replicate 32 0), zeroProofBeacon (Vector.replicate 32 1)]).beacons :=
    mem_inserts.mpr ⟨_, [], rfl, second⟩
  have same := ((binding _).bound _ stored).2.1
  have first := congrArg (fun bytes : Bytes32 => bytes[0]) same
  exact absurd first (by decide)

end Layer1Store

end

end Rtfsn
