/-
Epochs, coordinates, digests, node identities, and the order of a hash map.

A `NodeId` is 32 bytes, ordered as Rust orders `[u8; 32]`: lexicographically. `BTreeSet` and
`BTreeMap` keyed by nodes iterate in this order; the model reads a `BTreeSet` as a `Finset`
iterated by `Finset.sort`, and a `BTreeMap` as a `Std.ExtTreeMap`. A map keyed by pairs is keyed by
the lexicographic product. A `HashMap` is a `Std.ExtTreeMap` too; where its order can be seen it is
listed through a `HashOrder`.
-/
import Rtfsn.Checked

namespace Rtfsn

/-- `[u8; 32]`. -/
abbrev Bytes32 := Vector UInt8 32

/-- The number of an epoch. -/
structure Epoch where
  number : UInt64
deriving DecidableEq

/-- The epoch after this one; `none` where the number overflows. -/
def Epoch.next (epoch : Epoch) : Option Epoch := (U64.checkedAdd epoch.number 1).map Epoch.mk

theorem Epoch.exists_next_iff {epoch : Epoch} :
    (∃ e, epoch.next = some e) ↔ epoch.number.toNat + 1 < 2 ^ 64 := by
  unfold Epoch.next U64.checkedAdd
  simp

/-- A point of the latency space: `COORDINATE_DIMENSIONS` is six. -/
structure Coordinates (F : Type) where
  dims : Vector F 6

structure CoordinateState (F : Type) where
  position : Coordinates F
  error : F

/-- A digest over a list of items. -/
structure MerkleDigest where
  bytes : Bytes32

/-- The hash of the items' hashes, one after the other. -/
def MerkleDigest.fromItems (blake3 : List UInt8 → Bytes32) (items : List (List UInt8)) :
    MerkleDigest :=
  ⟨blake3 (items.flatMap fun item => (blake3 item).toList)⟩

/-- An order in which a hash map may list its keys. -/
structure HashOrder (K : Type) where
  arrange : List K → List K
  perm : ∀ keys, (arrange keys).Perm keys

/-- The keys as they come. -/
def HashOrder.asListed {K : Type} : HashOrder K := ⟨id, fun _ => .refl _⟩

theorem HashOrder.mem {K : Type} (order : HashOrder K) {keys : List K} {k : K} :
    k ∈ order.arrange keys ↔ k ∈ keys :=
  (order.perm keys).mem_iff

/-- A node: the hash of its public key. -/
structure NodeId where
  bytes : Vector UInt8 32

namespace NodeId

/-- The bytes as numbers, most significant first. -/
def digits (id : NodeId) : List ℕ := id.bytes.toList.map UInt8.toNat

theorem digits_injective : Function.Injective digits := by
  rintro ⟨first⟩ ⟨second⟩ equal
  have sameBytes : first.toList = second.toList :=
    List.map_injective_iff.mpr (fun _ _ => UInt8.toNat_inj.mp) equal
  rw [Vector.toList_inj.mp sameBytes]

/-- The order of `[u8; 32]`. -/
instance : LinearOrder NodeId := LinearOrder.lift' digits digits_injective

instance transCmp : Std.TransCmp (compare : NodeId → NodeId → Ordering) := inferInstance

instance pairTransOrd : Std.TransOrd (NodeId ×ₗ NodeId) := inferInstance

instance lawfulBEq : LawfulBEq NodeId := inferInstance

/-- The node whose bytes are all `byte`. -/
def replicate (byte : UInt8) : NodeId := ⟨Vector.replicate 32 byte⟩

@[simp] theorem replicate_inj {a b : UInt8} : replicate a = replicate b ↔ a = b := by
  refine ⟨fun equal => ?_, fun equal => equal ▸ rfl⟩
  have first := congrArg (fun id : NodeId => id.bytes[0]) equal
  simpa [replicate] using first

end NodeId

/-- Keys that compare equal as pairs are equal. -/
instance lawfulEqOrdLex {A B : Type} [Ord A] [Ord B] [Std.LawfulEqOrd A] [Std.LawfulEqOrd B] :
    Std.LawfulEqOrd (A ×ₗ B) where
  eq_of_compare {p q} equal := by
    rw [Prod.Lex.compare_def] at equal
    simp only [compareLex, compareOn, Ordering.then_eq_eq,
      Std.LawfulEqCmp.compare_eq_iff_eq] at equal
    exact Prod.ext equal.1 equal.2
  compare_self := by
    intro p
    rw [Prod.Lex.compare_def]
    simp [compareLex, compareOn]

end Rtfsn
