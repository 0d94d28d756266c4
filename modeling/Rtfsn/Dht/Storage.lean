/-
The store of one DHT layer.

The store is a hash map: where `evict_oldest` lists it, it is listed in the `HashOrder` given with
the call. The sum of an entry's epochs in `expire` is checked, and its overflow is a failure.

* `put_law`: a `put` stores its value, and loses at most one other entry, of a least timestamp, when
  the key is new and the store is full.
* `expire_law`, `expire_expire`: exactly the entries that outlive the epoch remain, and two expiries
  are one at the later epoch.
* `run_storage`: these hold after every run, within the capacity.
-/
import Rtfsn.Types
import Rtfsn.Lib.Machine
import Rtfsn.Lib.Maps

namespace Rtfsn

structure StoredValue where
  data : List UInt8
  timestamp : UInt64
  ttlEpochs : UInt32
  originEpoch : UInt64

/-- `origin_epoch + ttl_epochs as u64`. -/
def StoredValue.expiry (v : StoredValue) : Option UInt64 :=
  U64.checkedAdd v.originEpoch v.ttlEpochs.toUInt64

/-- The epochs of a value add up within a `u64`. -/
def StoredValue.Fits (v : StoredValue) : Prop :=
  v.originEpoch.toNat + v.ttlEpochs.toNat < 2 ^ 64

instance (v : StoredValue) : Decidable v.Fits := inferInstanceAs (Decidable (_ < _))

theorem StoredValue.Fits.expiry {v : StoredValue} (fits : v.Fits) :
    ∃ expiry, v.expiry = some expiry ∧
      expiry.toNat = v.originEpoch.toNat + v.ttlEpochs.toNat := by
  have inRange : v.originEpoch.toNat + v.ttlEpochs.toUInt64.toNat < 2 ^ 64 := by
    rw [UInt32.toNat_toUInt64]
    exact fits
  obtain ⟨expiry, eq, value⟩ := U64.exists_checkedAdd inRange
  exact ⟨expiry, eq, by rw [value, UInt32.toNat_toUInt64]⟩

/-- Key-value storage for a single DHT layer. -/
structure LayerStorage where
  store : Std.ExtTreeMap Bytes32 StoredValue
  maxEntries : ℕ

namespace LayerStorage

def new (maxEntries : ℕ) : LayerStorage := ⟨∅, maxEntries⟩

def get (s : LayerStorage) (key : Bytes32) : Option StoredValue := s.store[key]?

def len (s : LayerStorage) : ℕ := s.store.size

/-- The entries as the map lists them. -/
def iter (s : LayerStorage) (order : HashOrder Bytes32) : List (Bytes32 × StoredValue) :=
  (order.arrange s.store.keys).filterMap fun key => s.store[key]?.map (key, ·)

/-- The key of `min_by_key`. -/
def timestampOf (entry : Bytes32 × StoredValue) : ℕ := entry.2.timestamp.toNat

/-- Drop an entry of a least timestamp: of those, the first listed. -/
def evictOldest (s : LayerStorage) (order : HashOrder Bytes32) : LayerStorage :=
  match (s.iter order).argmin timestampOf with
  | some oldest => { s with store := s.store.erase oldest.1 }
  | none => s

def put (s : LayerStorage) (order : HashOrder Bytes32) (key : Bytes32) (value : StoredValue) :
    Bool × LayerStorage :=
  let s := if s.maxEntries ≤ s.len ∧ ¬ s.store.contains key then s.evictOldest order else s
  (true, { s with store := s.store.insert key value })

def remove (s : LayerStorage) (key : Bytes32) : Bool × LayerStorage :=
  (s.store.contains key, { s with store := s.store.erase key })

/-- Keep the entries that outlive the epoch. -/
def expire (s : LayerStorage) (currentEpoch : UInt64) : Option LayerStorage :=
  if s.store.toList.all fun entry => entry.2.expiry.isSome then
    some { s with
      store := s.store.filter fun _ v => v.expiry.any fun expiry => decide (currentEpoch < expiry) }
  else none

/-- A call that changes the store; the order is the one its map would be listed in. -/
inductive Op
  | put (order : HashOrder Bytes32) (key : Bytes32) (value : StoredValue)
  | remove (key : Bytes32)
  | expire (currentEpoch : UInt64)

/-- One call; an expiry answers nothing. -/
def step (s : LayerStorage) : Op → Option (Option Bool × LayerStorage)
  | .put order key value =>
    let (answer, s) := s.put order key value
    some (some answer, s)
  | .remove key =>
    let (answer, s) := s.remove key
    some (some answer, s)
  | .expire currentEpoch => (s.expire currentEpoch).map (none, ·)

def run : LayerStorage → List Op → Option (List (Option Bool) × LayerStorage) := Machine.run step

/-! ### Eviction -/

variable {s : LayerStorage} {order : HashOrder Bytes32}

theorem mem_iter {key : Bytes32} {v : StoredValue} :
    (key, v) ∈ s.iter order ↔ s.get key = some v := by
  simp only [iter, List.mem_filterMap, order.mem, Option.map_eq_some_iff, Prod.mk.injEq, get]
  constructor
  · rintro ⟨_, _, _, found, rfl, rfl⟩
    exact found
  · intro found
    refine ⟨key, ?_, v, found, rfl, rfl⟩
    rw [Std.ExtTreeMap.mem_keys, Std.ExtTreeMap.mem_iff_isSome_getElem?, found]
    rfl

/-- A store that is not empty loses one entry, of a least timestamp. -/
theorem evictOldest_spec (order : HashOrder Bytes32) (nonempty : 0 < s.len) :
    ∃ oldest v, s.get oldest = some v ∧
      (∀ key v', s.get key = some v' → v.timestamp ≤ v'.timestamp) ∧
      s.evictOldest order = { s with store := s.store.erase oldest } := by
  cases found : (s.iter order).argmin timestampOf with
  | none =>
    exfalso
    rw [List.argmin_eq_none] at found
    have listed : s.store ≠ ∅ := fun empty => by
      rw [len, empty] at nonempty
      exact absurd nonempty (by simp)
    obtain ⟨key, member⟩ := List.exists_mem_of_ne_nil _
      (mt Std.ExtTreeMap.keys_eq_nil_iff.mp listed)
    rw [Std.ExtTreeMap.mem_keys, Std.ExtTreeMap.mem_iff_isSome_getElem?] at member
    obtain ⟨v, stored⟩ := Option.isSome_iff_exists.mp member
    have inside : (key, v) ∈ s.iter order := mem_iter.mpr stored
    simp [found] at inside
  | some oldest =>
    refine ⟨oldest.1, oldest.2, mem_iter.mp (List.argmin_mem found), fun key v' stored => ?_, ?_⟩
    · have least : timestampOf oldest ≤ timestampOf (key, v') :=
        List.le_of_mem_argmin (mem_iter.mpr stored) found
      exact UInt64.le_iff_toNat_le.mpr least
    · rw [evictOldest, found]

/-! ### A put -/

/-- What a `put` leaves: its value, and the other entries but at most one. That one is lost only to
a new key in a full store, and no stored timestamp was below its own. -/
structure Put (s : LayerStorage) (key : Bytes32) (value : StoredValue) (s' : LayerStorage) :
    Prop where
  stored : s'.get key = some value
  others : (∀ k, k ≠ key → s'.get k = s.get k) ∨
    ∃ oldest v, s.get key = none ∧ s.maxEntries ≤ s.len ∧ s.get oldest = some v ∧
      (∀ k v', s.get k = some v' → v.timestamp ≤ v'.timestamp) ∧
      s'.get oldest = none ∧ ∀ k, k ≠ key → k ≠ oldest → s'.get k = s.get k

theorem contains_iff {key : Bytes32} : s.store.contains key = true ↔ s.get key ≠ none := by
  rw [Std.ExtTreeMap.contains_eq_isSome_getElem?, Option.isSome_iff_ne_none]
  rfl

/-- The store `put` inserts into. -/
theorem put_cases (room : 1 ≤ s.maxEntries) (order : HashOrder Bytes32) (key : Bytes32)
    (value : StoredValue) :
    (¬ (s.maxEntries ≤ s.len ∧ s.get key = none) ∧
      (s.put order key value).2 = { s with store := s.store.insert key value }) ∨
    ∃ oldest v, s.get key = none ∧ s.maxEntries ≤ s.len ∧ s.get oldest = some v ∧
      (∀ k v', s.get k = some v' → v.timestamp ≤ v'.timestamp) ∧
      (s.put order key value).2 =
        { s with store := (s.store.erase oldest).insert key value } := by
  have absent : ¬ s.store.contains key = true ↔ s.get key = none := by rw [contains_iff, not_not]
  by_cases full : s.maxEntries ≤ s.len ∧ s.get key = none
  · obtain ⟨oldest, v, stored, least, evicted⟩ :=
      evictOldest_spec order (room.trans full.1)
    refine Or.inr ⟨oldest, v, full.2, full.1, stored, least, ?_⟩
    rw [put, if_pos ⟨full.1, absent.mpr full.2⟩, evicted]
  · refine Or.inl ⟨full, ?_⟩
    rw [put, if_neg fun both => full ⟨both.1, absent.mp both.2⟩]

theorem put_law (room : 1 ≤ s.maxEntries) (order : HashOrder Bytes32) (key : Bytes32)
    (value : StoredValue) : Put s key value (s.put order key value).2 := by
  obtain ⟨_, eq⟩ | ⟨oldest, v, absent, full, stored, least, eq⟩ := put_cases room order key value
  · rw [eq]
    exact ⟨Std.ExtTreeMap.getElem?_insert_self,
      Or.inl fun k other => Maps.getElem?_insert_of_ne (Ne.symm other) value⟩
  · rw [eq]
    have apart : key ≠ oldest := fun same => by
      rw [same, stored] at absent
      cases absent
    refine ⟨Std.ExtTreeMap.getElem?_insert_self,
      Or.inr ⟨oldest, v, absent, full, stored, least, ?_, fun k other other' => ?_⟩⟩
    · exact (Maps.getElem?_insert_of_ne apart value).trans Std.ExtTreeMap.getElem?_erase_self
    · exact (Maps.getElem?_insert_of_ne (Ne.symm other) value).trans
        (Maps.getElem?_erase_of_ne (Ne.symm other'))

theorem put_len (room : 1 ≤ s.maxEntries) (within : s.len ≤ s.maxEntries)
    (order : HashOrder Bytes32) (key : Bytes32) (value : StoredValue) :
    (s.put order key value).2.len ≤ s.maxEntries := by
  obtain ⟨spare, eq⟩ | ⟨oldest, v, absent, full, stored, least, eq⟩ :=
    put_cases room order key value
  · rw [eq]
    show (s.store.insert key value).size ≤ s.maxEntries
    rw [Std.ExtTreeMap.size_insert]
    split_ifs with there
    · exact within
    · rw [contains_iff, not_not] at there
      have below : s.len < s.maxEntries := Nat.lt_of_not_le fun full => spare ⟨full, there⟩
      exact below
  · rw [eq]
    show ((s.store.erase oldest).insert key value).size ≤ s.maxEntries
    have listed : s.store.contains oldest = true := contains_iff.mpr (by simp [stored])
    have erased : (s.store.erase oldest).size + 1 = s.store.size := by
      have some : 0 < s.len := room.trans full
      rw [Std.ExtTreeMap.size_erase, if_pos listed]
      exact Nat.sub_add_cancel some
    rw [Std.ExtTreeMap.size_insert]
    split_ifs with there
    · exact (Nat.le_succ _).trans (erased.le.trans within)
    · exact erased.le.trans within

/-! ### Expiry -/

/-- What an expiry leaves. -/
structure Expired (s : LayerStorage) (currentEpoch : UInt64) (s' : LayerStorage) : Prop where
  maxEntries : s'.maxEntries = s.maxEntries
  len : s'.len ≤ s.len
  remain : ∀ k v, s'.get k = some v ↔ s.get k = some v ∧
    currentEpoch.toNat < v.originEpoch.toNat + v.ttlEpochs.toNat

/-- An expiry leaves exactly the entries that outlive the epoch. -/
theorem expire_law (fits : Maps.Entries (fun _ v => v.Fits) s.store) (currentEpoch : UInt64) :
    ∃ s', s.expire currentEpoch = some s' ∧ Expired s currentEpoch s' := by
  have all : (s.store.toList.all fun entry => entry.2.expiry.isSome) = true :=
    List.all_eq_true.mpr fun entry listed => by
      obtain ⟨expiry, eq, _⟩ := (fits.toList entry listed).expiry
      rw [eq]
      rfl
  refine ⟨_, if_pos all, rfl, Std.ExtTreeMap.size_filter_le_size, fun k v => ?_⟩
  rw [get, Std.ExtTreeMap.getElem?_filter', Option.filter_eq_some_iff]
  refine and_congr_right fun stored => ?_
  obtain ⟨expiry, eq, value⟩ := (fits k v stored).expiry
  rw [eq, ← value, Option.any_some, decide_eq_true_eq, UInt64.lt_iff_toNat_lt]

theorem Expired.fits {currentEpoch : UInt64} {s' : LayerStorage}
    (expired : Expired s currentEpoch s') (fits : Maps.Entries (fun _ v => v.Fits) s.store) :
    Maps.Entries (fun _ v => v.Fits) s'.store :=
  fun k v stored => fits k v ((expired.remain k v).mp stored).1

/-- Stores with the same entries and capacity are the same. -/
theorem ext_get {s s' : LayerStorage} (entries : ∀ k v, s.get k = some v ↔ s'.get k = some v)
    (maxEntries : s.maxEntries = s'.maxEntries) : s = s' := by
  obtain ⟨store, _⟩ := s
  obtain ⟨store', _⟩ := s'
  cases maxEntries
  exact congrArg (LayerStorage.mk · _) (Std.ExtTreeMap.ext_getElem? fun k => Option.ext (entries k))

/-- **Two expiries are one at the later epoch.** -/
theorem expire_expire (fits : Maps.Entries (fun _ v => v.Fits) s.store) (e₁ e₂ : UInt64) :
    (s.expire e₁).bind (expire · e₂) = s.expire (max e₁ e₂) := by
  obtain ⟨first, eq, expired⟩ := expire_law fits e₁
  obtain ⟨second, eq', expired'⟩ := expire_law (expired.fits fits) e₂
  obtain ⟨both, eq'', expired''⟩ := expire_law fits (max e₁ e₂)
  rw [eq, Option.bind_some, eq', eq'', Option.some.injEq]
  refine ext_get (fun k v => ?_) ?_
  · rw [expired'.remain, expired.remain, expired''.remain, U64.toNat_max, max_lt_iff, and_assoc]
  · rw [expired'.maxEntries, expired.maxEntries, expired''.maxEntries]

/-! ### Runs -/

/-- The values that are put add up within a `u64`. -/
def Op.Fits : Op → Prop
  | .put _ _ value => value.Fits
  | .remove _ => True
  | .expire _ => True

/-- What every call preserves. -/
structure Within (maxEntries : ℕ) (s : LayerStorage) : Prop where
  capacity : s.maxEntries = maxEntries
  len : s.len ≤ maxEntries
  fits : Maps.Entries (fun _ v => v.Fits) s.store

theorem within_new (maxEntries : ℕ) : Within maxEntries (new maxEntries) :=
  ⟨rfl, by simp [len, new], .empty _⟩

/-- **Every call keeps the store within its capacity**, and none fails. -/
theorem within_step {maxEntries : ℕ} (room : 1 ≤ maxEntries) (within : Within maxEntries s)
    {op : Op} (fits : op.Fits) :
    ∃ answer s', s.step op = some (answer, s') ∧ Within maxEntries s' := by
  obtain ⟨capacity, small, inRange⟩ := within
  subst capacity
  cases op with
  | put order key value =>
    have len := put_len room small order key value
    refine ⟨some true, (s.put order key value).2, rfl, ?_⟩
    obtain ⟨_, eq⟩ | ⟨oldest, _, _, _, _, _, eq⟩ := put_cases room order key value
    · rw [eq] at len ⊢
      exact ⟨rfl, len, .insert (fun k v _ found => inRange k v found) fits⟩
    · rw [eq] at len ⊢
      exact ⟨rfl, len, .insert (fun k v _ found => inRange.erase oldest k v found) fits⟩
  | remove key =>
    refine ⟨_, _, rfl, rfl, ?_, inRange.erase key⟩
    exact (Std.ExtTreeMap.size_erase_le).trans small
  | expire currentEpoch =>
    obtain ⟨s', eq, expired⟩ := expire_law inRange currentEpoch
    refine ⟨none, s', by rw [step, eq]; rfl, expired.maxEntries,
      expired.len.trans small, expired.fits inRange⟩

/-- **The laws of a store over every run**, in whatever order its map is listed. No call fails and
the capacity is kept; at the state reached, a `put` and an expiry leave what they promise, and two
expiries are one at the later epoch. -/
theorem run_storage {maxEntries : ℕ} (room : 1 ≤ maxEntries) (ops : List Op)
    (fits : ∀ op ∈ ops, op.Fits) :
    ∃ answers s, (new maxEntries).run ops = some (answers, s) ∧ s.maxEntries = maxEntries ∧
      s.len ≤ maxEntries ∧
      (∀ order key value, Put s key value (s.put order key value).2) ∧
      (∀ e, ∃ s', s.expire e = some s' ∧ Expired s e s') ∧
      ∀ e₁ e₂, (s.expire e₁).bind (expire · e₂) = s.expire (max e₁ e₂) := by
  have keep : ∀ s op, Within maxEntries s → Op.Fits op → ∃ answer s', step s op =
      some (answer, s') ∧ Within maxEntries s' := fun _ _ within fits =>
    within_step room within fits
  obtain ⟨answers, s, ran, capacity, len, inRange⟩ :=
    Machine.run_spec_all keep (within_new maxEntries) ops fits
  exact ⟨answers, s, ran, capacity, len, put_law (capacity ▸ room), expire_law inRange,
    expire_expire inRange⟩

/-- A value of the run below. -/
def stamped (timestamp : UInt64) : StoredValue := ⟨[], timestamp, 3, 1⟩

/-- Two new keys in a store of one entry, and an expiry. -/
theorem run_storage_evicting :
    let ops : List Op := [.put .asListed (.replicate 32 1) (stamped 5),
      .put .asListed (.replicate 32 2) (stamped 5), .expire 2]
    ∃ answers s, (new 1).run ops = some (answers, s) ∧ s.maxEntries = 1 ∧ s.len ≤ 1 ∧
      (∀ order key value, Put s key value (s.put order key value).2) ∧
      (∀ e, ∃ s', s.expire e = some s' ∧ Expired s e s') ∧
      ∀ e₁ e₂, (s.expire e₁).bind (expire · e₂) = s.expire (max e₁ e₂) := by
  refine run_storage le_rfl _ fun op member => ?_
  simp only [List.mem_cons, List.not_mem_nil, or_false] at member
  obtain rfl | rfl | rfl := member
  · show (stamped 5).Fits
    decide
  · show (stamped 5).Fits
    decide
  · trivial

end LayerStorage

end Rtfsn
