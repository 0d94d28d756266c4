/-
**A routing table over whole runs of insertions and removals.**

`Sound` ties a table to the history of its calls: each bucket holds at most twenty nodes, all of
them the bucket's own, none of them local, in the order of their last successful insertion.
`sound_step` keeps it through every call, and `run_routing` reads the laws of the table and of
`find_closest` off it.
-/
import Rtfsn.Dht.Routing
import Rtfsn.Lib.Machine

namespace Rtfsn.RoutingTable

/-- A call that changes the table. -/
inductive Op
  | insert (node : NodeId)
  | remove (node : NodeId)

/-- One call; a removal answers nothing. -/
def step (t : RoutingTable) : Op → Option (Option Bool × RoutingTable)
  | .insert node => (t.insert node).map fun r => (some r.1, r.2)
  | .remove node => some (none, t.remove node)

def run : RoutingTable → List Op → Option (List (Option Bool) × RoutingTable) := Machine.run step

/-- The calls made, each with its answer. -/
abbrev History := List (Op × Option Bool)

/-! ### The last successful insertion of a node -/

/-- Call `k` is the last that inserted the node. -/
structure LastInserted (history : History) (node : NodeId) (k : ℕ) : Prop where
  inserted : history[k]? = some (.insert node, some true)
  last : ∀ j, k < j → history[j]? ≠ some (.insert node, some true)

theorem LastInserted.lt_length {history : History} {node : NodeId} {k : ℕ}
    (last : LastInserted history node k) : k < history.length :=
  (List.getElem?_eq_some_iff.mp last.inserted).1

/-- Another call leaves it the last. -/
theorem LastInserted.snoc {history : History} {node : NodeId} {k : ℕ}
    (last : LastInserted history node k) {entry : Op × Option Bool}
    (other : entry ≠ (.insert node, some true)) :
    LastInserted (history ++ [entry]) node k := by
  refine ⟨?_, fun j after same => ?_⟩
  · rw [List.getElem?_append_left last.lt_length]
    exact last.inserted
  · rcases lt_trichotomy j history.length with earlier | now | beyond
    · rw [List.getElem?_append_left earlier] at same
      exact last.last j after same
    · rw [now, List.getElem?_concat_length] at same
      exact other (Option.some.inj same)
    · rw [List.getElem?_eq_none (by simp; omega)] at same
      cases same

theorem lastInserted_now (history : History) (node : NodeId) :
    LastInserted (history ++ [(.insert node, some true)]) node history.length := by
  refine ⟨List.getElem?_concat_length, fun j after same => ?_⟩
  rw [List.getElem?_eq_none (by simp; omega)] at same
  cases same

/-- The last insertion of `m` came before that of `n`. -/
def Before (history : History) (m n : NodeId) : Prop :=
  ∃ j k, LastInserted history m j ∧ LastInserted history n k ∧ j < k

theorem Before.ne {history : History} {m n : NodeId} (before : Before history m n) : m ≠ n := by
  rintro rfl
  obtain ⟨j, k, first, second, smaller⟩ := before
  exact first.last k smaller second.inserted

/-! ### Buckets -/

/-- What a bucket holds. -/
structure BucketSound (localId : Bytes32) (history : History) (idx : ℕ) (bucket : List NodeId) :
    Prop where
  own : ∀ n ∈ bucket, bucketIndex localId n.bytes = idx
  foreign : ∀ n ∈ bucket, n.bytes ≠ localId
  small : bucket.length ≤ kBucketSize
  inserted : ∀ n ∈ bucket, ∃ k, LastInserted history n k
  ordered : bucket.Pairwise (Before history)

section Bucket

variable {localId : Bytes32} {history : History} {idx : ℕ} {bucket kept : List NodeId}

theorem BucketSound.nodup (sound : BucketSound localId history idx bucket) : bucket.Nodup :=
  sound.ordered.imp Before.ne

/-- A bucket that only loses nodes stays sound over a call that inserts none of those it keeps. -/
theorem BucketSound.keep (sound : BucketSound localId history idx bucket)
    (fewer : kept.Sublist bucket) {entry : Op × Option Bool}
    (other : ∀ n ∈ kept, entry ≠ (.insert n, some true)) :
    BucketSound localId (history ++ [entry]) idx kept where
  own n member := sound.own n (fewer.subset member)
  foreign n member := sound.foreign n (fewer.subset member)
  small := fewer.length_le.trans sound.small
  inserted n member := by
    obtain ⟨k, last⟩ := sound.inserted n (fewer.subset member)
    exact ⟨k, last.snoc (other n member)⟩
  ordered := by
    refine (sound.ordered.sublist fewer).imp_of_mem fun {m n} first second before => ?_
    obtain ⟨j, k, lastM, lastN, smaller⟩ := before
    exact ⟨j, k, lastM.snoc (other m first), lastN.snoc (other n second), smaller⟩

/-- A bucket with room that is without a node takes it at its end. -/
theorem BucketSound.push (sound : BucketSound localId history idx bucket)
    (fewer : kept.Sublist bucket) {node : NodeId} (home : bucketIndex localId node.bytes = idx)
    (other : node.bytes ≠ localId) (absent : node ∉ kept) (room : kept.length < kBucketSize) :
    BucketSound localId (history ++ [(.insert node, some true)]) idx (kept ++ [node]) := by
  have apart : ∀ n ∈ kept, ((.insert node, some true) : Op × Option Bool) ≠
      (.insert n, some true) := fun n member same => by
    cases same
    exact absent member
  have rest := sound.keep fewer apart
  have now := lastInserted_now history node
  refine ⟨fun n member => ?_, fun n member => ?_, by simpa using room, fun n member => ?_, ?_⟩
  · rcases List.mem_append.mp member with earlier | this
    · exact rest.own n earlier
    · rwa [List.mem_singleton.mp this]
  · rcases List.mem_append.mp member with earlier | this
    · exact rest.foreign n earlier
    · rwa [List.mem_singleton.mp this]
  · rcases List.mem_append.mp member with earlier | this
    · exact rest.inserted n earlier
    · rw [List.mem_singleton.mp this]
      exact ⟨_, now⟩
  · refine List.pairwise_append.mpr ⟨rest.ordered, List.pairwise_singleton _ _, ?_⟩
    intro n member m this
    obtain rfl := List.mem_singleton.mp this
    -- What is kept was inserted by an earlier call.
    obtain ⟨k, last⟩ := sound.inserted n (fewer.subset member)
    have earlier := last.lt_length
    exact ⟨k, _, last.snoc (apart n member), now, earlier⟩

end Bucket

/-! ### Tables -/

/-- The table is what the history made it. -/
structure Sound (localId : Bytes32) (history : History) (t : RoutingTable) : Prop where
  isLocal : t.localId = localId
  whole : t.buckets.length = keyBits
  bucket : ∀ idx bucket, t.buckets[idx]? = some bucket → BucketSound localId history idx bucket

variable {localId : Bytes32} {history : History} {t t' : RoutingTable}

theorem sound_new (localId : Bytes32) : Sound localId [] (new localId) := by
  refine ⟨rfl, List.length_replicate, fun idx bucket found => ?_⟩
  obtain ⟨_, rfl⟩ : idx < keyBits ∧ [] = bucket := by
    simpa [new, List.getElem?_replicate, Option.ite_none_right_eq_some] using found
  exact ⟨by simp, by simp, Nat.zero_le _, by simp, .nil⟩

/-- A node is in the table when it is in its own bucket. -/
theorem Sound.mem_iff (sound : Sound localId history t) {node : NodeId} {bucket : List NodeId}
    (found : t.buckets[bucketIndex localId node.bytes]? = some bucket) :
    node ∈ t.allNodes ↔ node ∈ bucket := by
  rw [allNodes, List.mem_flatten]
  constructor
  · rintro ⟨other, listed, member⟩
    obtain ⟨idx, at_⟩ := List.mem_iff_getElem?.mp listed
    rw [← (sound.bucket idx other at_).own node member, found] at at_
    cases at_
    exact member
  · exact fun member => ⟨bucket, List.mem_iff_getElem?.mpr ⟨_, found⟩, member⟩

theorem Sound.nodup (sound : Sound localId history t) : t.allNodes.Nodup := by
  refine List.nodup_flatten.mpr ⟨fun bucket listed => ?_, ?_⟩
  · obtain ⟨idx, found⟩ := List.mem_iff_getElem?.mp listed
    exact (sound.bucket idx bucket found).nodup
  · refine List.pairwise_iff_getElem.mpr fun i j inside inside' smaller n first second => ?_
    have left := (sound.bucket i _ (List.getElem?_eq_getElem inside)).own n first
    have right := (sound.bucket j _ (List.getElem?_eq_getElem inside')).own n second
    omega

/-- A call that changes no bucket. -/
theorem Sound.idle (sound : Sound localId history t) {entry : Op × Option Bool}
    (failed : entry.2 ≠ some true) : Sound localId (history ++ [entry]) t :=
  ⟨sound.isLocal, sound.whole, fun idx bucket found =>
    (sound.bucket idx bucket found).keep (List.Sublist.refl _) fun _ _ same =>
      failed (congrArg Prod.snd same)⟩

/-- A call that inserts a node into its bucket. -/
theorem Sound.set (sound : Sound localId history t) {node : NodeId} {bucket : List NodeId}
    (own : BucketSound localId (history ++ [(.insert node, some true)])
      (bucketIndex localId node.bytes) bucket) :
    Sound localId (history ++ [(.insert node, some true)])
      (t.setBucket (bucketIndex localId node.bytes) bucket) := by
  refine ⟨sound.isLocal, by simpa [setBucket] using sound.whole, fun idx other found => ?_⟩
  by_cases here : idx = bucketIndex localId node.bytes
  · have inside : bucketIndex localId node.bytes < t.buckets.length :=
      sound.whole ▸ bucketIndex_lt localId node.bytes
    rw [here, setBucket, List.getElem?_set_self inside] at found
    cases found
    rwa [here]
  · rw [setBucket, List.getElem?_set_ne (Ne.symm here)] at found
    have rest := sound.bucket idx other found
    refine rest.keep (List.Sublist.refl _) fun n member same => here ?_
    cases same
    exact (rest.own node member).symm

/-- **Every insertion keeps the table sound, and answers whether the node is in it afterwards.** -/
theorem sound_insert (sound : Sound localId history t) (node : NodeId) :
    ∃ answer t', t.insert node = some (answer, t') ∧
      Sound localId (history ++ [(.insert node, some answer)]) t' ∧
      (answer = true ↔ node ∈ t'.allNodes) := by
  obtain ⟨bucket, answer, t', found, eq, inserts⟩ := insert_cases sound.whole node
  rw [sound.isLocal] at found
  have own := sound.bucket _ bucket found
  have inside : bucketIndex localId node.bytes < t.buckets.length :=
    sound.whole ▸ bucketIndex_lt localId node.bytes
  have placed : ∀ xs : List NodeId, node ∈
      (t.setBucket (bucketIndex localId node.bytes) (xs ++ [node])).allNodes := fun xs =>
    List.mem_flatten.mpr ⟨_, List.mem_set inside _, by simp⟩
  refine ⟨answer, t', eq, ?_⟩
  cases inserts with
  | isLocal same =>
    refine ⟨sound.idle (by simp), by simp, fun member => ?_⟩
    rw [sound.mem_iff found] at member
    exact absurd (same.trans sound.isLocal) (own.foreign node member)
  | moved other there =>
    rw [sound.isLocal] at other ⊢
    have removed : (bucket.filter (· ≠ node)).length < bucket.length :=
      List.length_filter_lt_length_iff_exists.mpr ⟨node, there, by simp⟩
    exact ⟨sound.set (own.push List.filter_sublist rfl other (by simp)
      (removed.trans_le own.small)), iff_of_true rfl (placed _)⟩
  | pushed other absent room =>
    rw [sound.isLocal] at other ⊢
    exact ⟨sound.set (own.push (List.Sublist.refl _) rfl other absent room),
      iff_of_true rfl (placed _)⟩
  | full other absent filled =>
    refine ⟨sound.idle (by simp), by simp, fun member => ?_⟩
    rw [sound.mem_iff found] at member
    exact absurd member absent

theorem sound_remove (sound : Sound localId history t) (node : NodeId) :
    Sound localId (history ++ [(.remove node, none)]) (t.remove node) := by
  refine ⟨sound.isLocal, by simpa [remove] using sound.whole, fun idx kept found => ?_⟩
  rw [remove, List.getElem?_map, Option.map_eq_some_iff] at found
  obtain ⟨bucket, found, rfl⟩ := found
  exact (sound.bucket idx bucket found).keep List.filter_sublist fun n _ same => by cases same

/-- **Every call keeps the table sound.** -/
theorem sound_step (sound : Sound localId history t) (op : Op) :
    ∃ answer t', t.step op = some (answer, t') ∧ Sound localId (history ++ [(op, answer)]) t' := by
  cases op with
  | insert node =>
    obtain ⟨answer, t', eq, sound', _⟩ := sound_insert sound node
    exact ⟨some answer, t', by rw [step, eq]; rfl, sound'⟩
  | remove node => exact ⟨none, t.remove node, rfl, sound_remove sound node⟩

/-! ### The closest nodes -/

/-- The closest nodes to a target. -/
structure Closest (t : RoutingTable) (target : Bytes32) (count : ℕ) (found : List NodeId) :
    Prop where
  length : found.length = min count t.nodeCount
  stored : ∀ n ∈ found, n ∈ t.allNodes
  distinct : found.Nodup
  increasing : found.Pairwise fun m n => distanceKey target m < distanceKey target n
  nearer : ∀ m ∈ found, ∀ n ∈ t.allNodes, n ∉ found →
    distanceKey target m < distanceKey target n

theorem findClosest_closest (nodup : t.allNodes.Nodup) (target : Bytes32) (count : ℕ) :
    Closest t target count (t.findClosest target count) := by
  rw [findClosest_eq]
  have injective := distanceKey_injective target
  refine ⟨?_, fun n => Ranking.mem_of_mem_nearest, Ranking.nodup_nearest nodup count,
    Ranking.strict_nearest injective nodup count, fun m taken n stored out =>
      Ranking.lt_of_left_out injective nodup taken stored out⟩
  rw [Ranking.length_nearest, length_allNodes]

/-- **The laws of a routing table over every run.** No call fails; at the state reached every node
sits in its own bucket and once in the table, no bucket is larger than twenty, the local id is not
stored, and each bucket is in the order of last successful insertion; `find_closest` gives the
closest nodes, and an insertion answers whether the node is in the table afterwards. -/
theorem run_routing (localId : Bytes32) (ops : List Op) :
    ∃ answers t, (new localId).run ops = some (answers, t) ∧ answers.length = ops.length ∧
      t.buckets.length = 256 ∧
      (∀ idx bucket, t.buckets[idx]? = some bucket →
        (∀ n ∈ bucket, bucketIndex localId n.bytes = idx ∧ n.bytes ≠ localId) ∧
        bucket.length ≤ 20 ∧ bucket.Pairwise (Before (ops.zip answers))) ∧
      t.allNodes.Nodup ∧
      (∀ target count, Closest t target count (t.findClosest target count)) ∧
      ∀ node, ∃ answer t', t.insert node = some (answer, t') ∧
        (answer = true ↔ node ∈ t'.allNodes) := by
  have keep : ∀ history t op, Sound localId history t → ∃ answer t', step t op = some (answer, t') ∧
      Sound localId (history ++ [(op, answer)]) t' := fun _ _ op sound => sound_step sound op
  obtain ⟨answers, t, ran, length, sound⟩ := Machine.run_spec keep (sound_new localId) ops
  refine ⟨answers, t, ran, length, sound.whole, fun idx bucket found => ?_, sound.nodup,
    findClosest_closest sound.nodup, fun node => ?_⟩
  · have own := sound.bucket idx bucket found
    exact ⟨fun n member => ⟨own.own n member, own.foreign n member⟩, own.small, own.ordered⟩
  · obtain ⟨answer, t', eq, _, iff⟩ := sound_insert sound node
    exact ⟨answer, t', eq, iff⟩

end Rtfsn.RoutingTable
