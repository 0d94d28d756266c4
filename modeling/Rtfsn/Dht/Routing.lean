/-
The routing table of a layer.

A node sits in the bucket that `bucketIndex` gives it: by the leading zeros of its distance from the
local id. `insert` moves a node that is there to the end of its bucket and turns a new one away when
the bucket is full; an index past the buckets is a failure of it.

* `distanceKey_injective`: no two nodes are at one distance from a target.
* `findClosest_eq`: `find_closest` ranks the nodes of all buckets by that distance.
* `insert_cases`: what an insertion can do, one constructor for each exit.
-/
import Rtfsn.Types
import Rtfsn.Lib.Ranking

namespace Rtfsn

def kBucketSize : ℕ := 20

def keyBits : ℕ := 256

def xorDistance (a b : Bytes32) : Bytes32 := .ofFn fun i => a[i] ^^^ b[i]

/-- `u8::leading_zeros`. -/
def byteLeadingZeros (byte : UInt8) : ℕ := byte.toBitVec.clz.toNat

/-- The loop over the bytes, which stops at the first that is not zero. -/
def leadingZerosFrom (zeros : ℕ) : List UInt8 → ℕ
  | [] => zeros
  | byte :: rest =>
    if byte = 0 then leadingZerosFrom (zeros + 8) rest else zeros + byteLeadingZeros byte

def leadingZeros (distance : Bytes32) : ℕ := leadingZerosFrom 0 distance.toList

def bucketIndex (localId remote : Bytes32) : ℕ :=
  let dist := xorDistance localId remote
  let lz := leadingZeros dist
  if keyBits ≤ lz then keyBits - 1 else keyBits - 1 - lz

/-- Kademlia-style routing table. -/
structure RoutingTable where
  localId : Bytes32
  buckets : List (List NodeId)

namespace RoutingTable

def new (localId : Bytes32) : RoutingTable := ⟨localId, List.replicate keyBits []⟩

/-- Replace a bucket. -/
def setBucket (t : RoutingTable) (idx : ℕ) (bucket : List NodeId) : RoutingTable :=
  { t with buckets := t.buckets.set idx bucket }

def insert (t : RoutingTable) (node : NodeId) : Option (Bool × RoutingTable) :=
  if node.bytes = t.localId then some (false, t)
  else do
    let idx := bucketIndex t.localId node.bytes
    let bucket ← t.buckets[idx]?
    if node ∈ bucket then
      -- Move to end (most recently seen).
      return (true, t.setBucket idx (bucket.filter (· ≠ node) ++ [node]))
    else if bucket.length < kBucketSize then return (true, t.setBucket idx (bucket ++ [node]))
    else return (false, t)

/-- The nodes of all buckets. -/
def allNodes (t : RoutingTable) : List NodeId := t.buckets.flatten

def findClosest (t : RoutingTable) (target : Bytes32) (count : ℕ) : List NodeId :=
  let all := t.allNodes.map fun n => (n, xorDistance n.bytes target)
  -- `NodeId` has the order of `[u8; 32]`.
  let sorted := all.mergeSort fun a b => decide (NodeId.mk a.2 ≤ NodeId.mk b.2)
  (sorted.take count).map Prod.fst

def remove (t : RoutingTable) (node : NodeId) : RoutingTable :=
  { t with buckets := t.buckets.map fun bucket => bucket.filter (· ≠ node) }

def nodeCount (t : RoutingTable) : ℕ := (t.buckets.map List.length).sum

theorem length_allNodes (t : RoutingTable) : t.allNodes.length = t.nodeCount :=
  List.length_flatten

end RoutingTable

/-! ### Buckets -/

/-- There is a bucket for every node. -/
theorem bucketIndex_lt (localId remote : Bytes32) : bucketIndex localId remote < keyBits := by
  unfold bucketIndex keyBits
  dsimp only
  split_ifs <;> omega

/-! ### Distances -/

/-- The distance from a target, in the order of `[u8; 32]`. -/
def distanceKey (target : Bytes32) (node : NodeId) : NodeId := ⟨xorDistance node.bytes target⟩

/-- **No two nodes are at one distance from a target.** -/
theorem distanceKey_injective (target : Bytes32) : Function.Injective (distanceKey target) := by
  rintro ⟨first⟩ ⟨second⟩ equal
  have distances : xorDistance first target = xorDistance second target :=
    congrArg NodeId.bytes equal
  refine congrArg NodeId.mk (Vector.ext fun i inside => ?_)
  have byte : (xorDistance first target)[i] = (xorDistance second target)[i] := by rw [distances]
  simp only [xorDistance, Vector.getElem_ofFn] at byte
  exact (UInt8.xor_left_inj _).mp byte

/-- `find_closest` ranks the nodes of all buckets by their distance. -/
theorem RoutingTable.findClosest_eq (t : RoutingTable) (target : Bytes32) (count : ℕ) :
    t.findClosest target count = Ranking.nearest (distanceKey target) count t.allNodes := by
  have sorted := List.map_mergeSort (l := t.allNodes)
    (r := fun m n => decide (distanceKey target m ≤ distanceKey target n))
    (s := fun a b : NodeId × Bytes32 => decide (NodeId.mk a.2 ≤ NodeId.mk b.2))
    (f := fun n => (n, xorDistance n.bytes target)) fun _ _ _ _ => rfl
  unfold findClosest
  dsimp only
  rw [← sorted, ← List.map_take, List.map_map]
  exact List.map_id _

/-! ### What an insertion can do -/

/-- The exits of `insert`. -/
inductive RoutingTable.Inserts (t : RoutingTable) (node : NodeId) (bucket : List NodeId) :
    Bool → RoutingTable → Prop
  | isLocal (same : node.bytes = t.localId) : Inserts t node bucket false t
  | moved (other : node.bytes ≠ t.localId) (there : node ∈ bucket) :
      Inserts t node bucket true (t.setBucket (bucketIndex t.localId node.bytes)
        (bucket.filter (· ≠ node) ++ [node]))
  | pushed (other : node.bytes ≠ t.localId) (absent : node ∉ bucket)
      (room : bucket.length < kBucketSize) :
      Inserts t node bucket true (t.setBucket (bucketIndex t.localId node.bytes) (bucket ++ [node]))
  | full (other : node.bytes ≠ t.localId) (absent : node ∉ bucket)
      (filled : kBucketSize ≤ bucket.length) : Inserts t node bucket false t

/-- With a bucket for every index an insertion goes through one of its exits. -/
theorem RoutingTable.insert_cases {t : RoutingTable} (whole : t.buckets.length = keyBits)
    (node : NodeId) :
    ∃ bucket answer t', t.buckets[bucketIndex t.localId node.bytes]? = some bucket ∧
      t.insert node = some (answer, t') ∧ Inserts t node bucket answer t' := by
  have inside : bucketIndex t.localId node.bytes < t.buckets.length :=
    whole ▸ bucketIndex_lt t.localId node.bytes
  obtain ⟨bucket, found⟩ : ∃ bucket, t.buckets[bucketIndex t.localId node.bytes]? = some bucket :=
    ⟨_, List.getElem?_eq_getElem inside⟩
  refine ⟨bucket, ?_⟩
  by_cases same : node.bytes = t.localId
  · exact ⟨false, t, found, if_pos same, .isLocal same⟩
  have rest : t.insert node = _ := if_neg same
  simp only [found, Option.bind_eq_bind, Option.bind_some] at rest
  by_cases there : node ∈ bucket
  · rw [if_pos there] at rest
    exact ⟨_, _, found, rest, .moved same there⟩
  by_cases room : bucket.length < kBucketSize
  · rw [if_neg there, if_pos room] at rest
    exact ⟨_, _, found, rest, .pushed same there room⟩
  · rw [if_neg there, if_neg room] at rest
    exact ⟨_, _, found, rest, .full same there (Nat.le_of_not_lt room)⟩

end Rtfsn
