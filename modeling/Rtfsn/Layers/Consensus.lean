/-
**What it takes to emit a tick.**

* `Built`: the aggregators that any sequence of `aggregate` and `valveL1ToL2` calls leads to.
* `Built.unproven`: none of their clusters has an agreement proof, so that `hasConsensus` asks for
  no more and no less than a threshold of zero (`Built.hasConsensus_eq`).
* `valveL2ToL3_built`: the valve asks for one beacon among the clusters of the epoch, and does not
  look at the threshold.
-/
import Rtfsn.Layers.ValveRuns
import Rtfsn.Lib.Loop

set_option linter.unusedSectionVars false

namespace Rtfsn.Valve

variable {F Point Scalar : Type} [F64Coord F] [AddCommGroup Point] [CommRing Scalar]
  [Module Scalar Point] (curve : Ristretto Point Scalar) (hGenerator : Point)
  (blake3 : List UInt8 → Bytes32) (toLeBytes : F → List UInt8)

/-- What aggregating leads to. -/
inductive Built : ClusterAggregator → Prop
  | new : Built .new
  | aggregate (before after : ClusterAggregator) (built : Built before) (clusterId : ClusterId)
      (epoch : Epoch) (offsets : List F) (blinding varBlinding : Scalar)
      (entry : Option Layer2Entry)
      (goes : before.aggregate curve hGenerator clusterId epoch offsets blinding varBlinding =
        some (entry, after)) : Built after
  | valve (before after : ClusterAggregator) (built : Built before) (order : HashOrder (List ℤ))
      (blindings : List ℤ → Scalar × Scalar) (l1Store : Layer1Store F) (epoch : Epoch)
      (gridSize : F)
      (goes : valveL1ToL2 curve hGenerator blake3 toLeBytes order blindings l1Store before epoch
        gridSize = some after) : Built after

/-- No cluster has an agreement proof. -/
def Unproven (aggregator : ClusterAggregator) : Prop :=
  ∀ entry ∈ aggregator.entries, entry.agreementProofs = []

variable {curve hGenerator blake3 toLeBytes}

/-- Aggregating appends a cluster without proofs, or nothing. -/
theorem Unproven.aggregate {before after : ClusterAggregator} (unproven : Unproven before)
    {clusterId : ClusterId} {epoch : Epoch} {offsets : List F} {blinding varBlinding : Scalar}
    {entry : Option Layer2Entry}
    (goes : before.aggregate curve hGenerator clusterId epoch offsets blinding varBlinding =
      some (entry, after)) : Unproven after := by
  unfold ClusterAggregator.aggregate at goes
  split_ifs at goes with none
  · cases goes
    exact unproven
  · simp only [Option.bind_eq_bind, Option.bind_eq_some_iff, Option.pure_def, Option.some.injEq,
      Prod.mk.injEq] at goes
    obtain ⟨_, _, _, _, rfl, rfl⟩ := goes
    intro entry listed
    rcases List.mem_append.mp listed with old | new
    · exact unproven entry old
    · rw [List.mem_singleton.mp new]

theorem Unproven.valve {before after : ClusterAggregator} (unproven : Unproven before)
    {order : HashOrder (List ℤ)} {blindings : List ℤ → Scalar × Scalar} {l1Store : Layer1Store F}
    {epoch : Epoch} {gridSize : F}
    (goes : valveL1ToL2 curve hGenerator blake3 toLeBytes order blindings l1Store before epoch
      gridSize = some after) : Unproven after := by
  unfold valveL1ToL2 at goes
  dsimp only at goes
  split_ifs at goes with none
  · cases goes
    exact unproven
  · refine Loop.foldlM_induction (fun aggregator key after held step => ?_) unproven goes
    obtain ⟨⟨entry, aggregator'⟩, aggregated, rfl⟩ := Option.map_eq_some_iff.mp step
    exact held.aggregate aggregated

/-- **No call makes an agreement proof.** -/
theorem Built.unproven {aggregator : ClusterAggregator}
    (built : Built curve hGenerator blake3 toLeBytes aggregator) : Unproven aggregator := by
  induction built with
  | new => exact fun entry listed => absurd listed List.not_mem_nil
  | aggregate _ _ _ _ _ _ _ _ _ goes ih => exact ih.aggregate goes
  | valve _ _ _ _ _ _ _ _ goes ih => exact ih.valve goes

/-- Without proofs there is consensus on a threshold of zero only. -/
theorem Unproven.hasConsensus_eq {aggregator : ClusterAggregator} (unproven : Unproven aggregator)
    (epoch : Epoch) (minClusters : ℕ) :
    aggregator.hasConsensus epoch minClusters = decide (minClusters = 0) := by
  have noProofs : (aggregator.getEpoch epoch).filter (fun c => ¬ c.agreementProofs.isEmpty) = [] :=
    List.filter_eq_nil_iff.mpr fun c listed => by
      simp [unproven c (List.mem_of_mem_filter listed)]
  unfold ClusterAggregator.hasConsensus
  dsimp only
  rw [noProofs]
  split_ifs with few
  · exact (decide_eq_false (by omega)).symm
  · simp

/-! ### The weight of an epoch -/

/-- The clusters of the epoch weigh less than one when none has a beacon. -/
theorem weight_lt_one_iff (clusters : List Layer2Entry) :
    F64.lt (F64.sum (clusters.map fun c => F64.ofNat c.clusterSize.toNat) : ℝ) 1 = true ↔
      ∀ c ∈ clusters, c.clusterSize = 0 := by
  have counted : (clusters.map fun c => (F64.ofNat c.clusterSize.toNat : ℝ)).sum =
      ((clusters.map fun c => c.clusterSize.toNat).sum : ℕ) := by
    rw [Nat.cast_list_sum, List.map_map]
    rfl
  rw [F64.sum_real, counted, F64.lt_real, decide_eq_true_eq, Nat.cast_lt_one, List.sum_eq_zero_iff]
  simp [← UInt32.toNat_inj]

/-! ### The valve -/

/-- What the valve does when it returns: one tick more if the epoch has a beacon, else nothing. -/
structure Emits (aggregator : ClusterAggregator) (clockStream : ClockStream) (epoch : Epoch)
    (emitted : Bool) (clockStream' : ClockStream) : Prop where
  beacon : emitted = true ↔ ∃ c ∈ aggregator.getEpoch epoch, c.clusterSize ≠ 0
  stream : if emitted then ∃ tick, clockStream'.ticks = clockStream.ticks ++ [tick]
    else clockStream' = clockStream

theorem emits_valveL2ToL3 {aggregator : ClusterAggregator} {clockStream clockStream' : ClockStream}
    {epoch : Epoch} {referenceTimeNanos : UInt64} {minClusters : ℕ} {emitted : Bool}
    (goes : valveL2ToL3 ℝ blake3 aggregator clockStream epoch referenceTimeNanos minClusters =
      some (emitted, clockStream')) :
    Emits aggregator clockStream epoch emitted clockStream' := by
  have spec := valveL2ToL3_spec blake3 goes
  refine ⟨?_, ?_⟩
  · unfold valveL2ToL3 at goes
    by_cases noClusters : (aggregator.getEpoch epoch).isEmpty
    · rw [if_pos noClusters] at goes
      cases goes
      simp [List.isEmpty_iff.mp noClusters]
    · rw [if_neg noClusters] at goes
      dsimp only at goes
      by_cases light : ∀ c ∈ aggregator.getEpoch epoch, c.clusterSize = 0
      · rw [if_pos ((weight_lt_one_iff _).mpr light)] at goes
        cases goes
        simpa using light
      · rw [if_neg (mt (weight_lt_one_iff _).mp light)] at goes
        obtain ⟨_, _, made⟩ := Option.map_eq_some_iff.mp goes
        cases made
        simpa using light
  · cases emitted with
    | false => exact spec
    | true =>
      obtain ⟨epochHash, emits⟩ := spec
      let request : TickRequest := ⟨referenceTimeNanos, 5000000, epochHash, none⟩
      have emission : clockStream.emit blake3 request.networkTimeNanos request.confidenceNanos
        request.epochHash request.vdfProof = some clockStream' := emits
      obtain ⟨tick, _, pushed⟩ := ClockStream.emit_iff.mp emission
      exact ⟨tick, by rw [pushed]; rfl⟩

/-- **A tick takes one beacon, and no consensus.** Whatever calls an aggregator was built by, it has
consensus on a threshold of zero and on no other. The valve does the same for every threshold: it
appends one tick and returns true when some cluster of the epoch has a beacon, and else returns
false and leaves the stream alone. -/
theorem valveL2ToL3_built {toLeBytes : ℝ → List UInt8} {aggregator : ClusterAggregator}
    (built : Built curve hGenerator blake3 toLeBytes aggregator) (clockStream : ClockStream)
    (epoch : Epoch) (referenceTimeNanos : UInt64) (minClusters : ℕ) :
    aggregator.hasConsensus epoch minClusters = decide (minClusters = 0) ∧
      (∀ threshold, valveL2ToL3 ℝ blake3 aggregator clockStream epoch referenceTimeNanos threshold =
        valveL2ToL3 ℝ blake3 aggregator clockStream epoch referenceTimeNanos minClusters) ∧
      ∀ emitted clockStream', valveL2ToL3 ℝ blake3 aggregator clockStream epoch referenceTimeNanos
        minClusters = some (emitted, clockStream') →
          Emits aggregator clockStream epoch emitted clockStream' :=
  ⟨built.unproven.hasConsensus_eq epoch minClusters, fun _ => rfl, fun _ _ => emits_valveL2ToL3⟩

/-- The aggregator after one call with one offset of zero. -/
theorem exists_built_lone : ∃ entry : Layer2Entry, entry.epoch = ⟨1⟩ ∧ entry.clusterSize = 1 ∧
    Built Layer1Store.zeroCurve 3 originDigests (fun _ : ℝ => List.replicate 8 0) ⟨[entry]⟩ := by
  obtain ⟨entry, epoch, size, made⟩ := aggregate_zero Layer1Store.zeroCurve 3 .new
    ⟨Vector.replicate 32 0⟩ ⟨1⟩ 0 0
  exact ⟨entry, epoch, size, .aggregate _ _ .new _ _ _ _ _ _ made⟩

/-- One cluster of one: asked for one cluster the valve emits a tick or not, as the theorem says. -/
theorem valveL2ToL3_built_lone : ∃ aggregator,
    Built Layer1Store.zeroCurve 3 originDigests (fun _ : ℝ => List.replicate 8 0) aggregator ∧
      aggregator.hasConsensus ⟨1⟩ 0 = true ∧ aggregator.hasConsensus ⟨1⟩ 2 = false := by
  obtain ⟨entry, _, _, built⟩ := exists_built_lone
  exact ⟨_, built, (valveL2ToL3_built built .new ⟨1⟩ 7 0).1,
    (valveL2ToL3_built built .new ⟨1⟩ 7 2).1⟩

/-- **A tick without consensus**: one cluster of one node, none of them agreed with. -/
theorem valveL2ToL3_no_consensus : ∃ aggregator clockStream,
    Built Layer1Store.zeroCurve 3 originDigests (fun _ : ℝ => List.replicate 8 0) aggregator ∧
      aggregator.hasConsensus ⟨1⟩ 1 = false ∧
      valveL2ToL3 ℝ originDigests aggregator .new ⟨1⟩ 7 1 = some (true, clockStream) := by
  obtain ⟨entry, epoch, size, built⟩ := exists_built_lone
  have clusters : ClusterAggregator.getEpoch ⟨[entry]⟩ ⟨1⟩ = [entry] := by
    simp [ClusterAggregator.getEpoch, epoch]
  have heavy : ¬ F64.lt (F64.sum ([entry].map fun c => F64.ofNat c.clusterSize.toNat) : ℝ) 1 =
      true := by
    rw [weight_lt_one_iff]
    simp [size]
  have emits : ∃ stream, valveL2ToL3 ℝ originDigests ⟨[entry]⟩ .new ⟨1⟩ 7 1 =
      some (true, stream) := by
    unfold valveL2ToL3
    dsimp only
    rw [clusters, if_neg heavy]
    exact ⟨_, rfl⟩
  obtain ⟨stream, emits⟩ := emits
  exact ⟨_, stream, built, built.unproven.hasConsensus_eq ⟨1⟩ 1, emits⟩

end Rtfsn.Valve
