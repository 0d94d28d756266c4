/-
Runs of the two upper valves on one aggregator and one clock stream.

* `Round`, `valveRound`: one epoch of them, with whatever the beacon store then holds.
* `run_ticks`: a tick is numbered by the ticks emitted before it, and is found under that number
  ever after. It carries the epoch it was agreed in exactly when that is this number.
* `run_first_epoch`: the tick agreed in epoch 0 is tick 1.
-/
import Rtfsn.Layers.ClockRuns
import Rtfsn.Layers.Valve
import Rtfsn.Lib.Machine
import Rtfsn.Lib.Maps

namespace Rtfsn.Valve

/-- What one epoch brings to the valves. -/
structure Round (F Scalar : Type) where
  order : HashOrder (List ℤ)
  blindings : List ℤ → Scalar × Scalar
  l1Store : Layer1Store F
  epoch : Epoch
  gridSize : F
  referenceTimeNanos : UInt64
  minClusters : ℕ

variable {F Point Scalar : Type} [F64Coord F] [AddCommGroup Point] [CommRing Scalar]
  [Module Scalar Point] (curve : Ristretto Point Scalar) (hGenerator : Point)
  (blake3 : List UInt8 → Bytes32) (toLeBytes : F → List UInt8)

/-- One epoch: aggregate, then emit. -/
def valveRound (state : ClusterAggregator × ClockStream) (round : Round F Scalar) :
    Option (Bool × ClusterAggregator × ClockStream) := do
  let l2Aggregator ← valveL1ToL2 curve hGenerator blake3 toLeBytes round.order round.blindings
    round.l1Store state.1 round.epoch round.gridSize
  let (emitted, clockStream) ← valveL2ToL3 F blake3 l2Aggregator state.2 round.epoch
    round.referenceTimeNanos round.minClusters
  return (emitted, l2Aggregator, clockStream)

/-- The run of the epochs from an empty aggregator and the genesis. -/
def run (rounds : List (Round F Scalar)) :
    Option (List Bool × ClusterAggregator × ClockStream) :=
  Machine.run (valveRound curve hGenerator blake3 toLeBytes) (.new, .new) rounds

/-! ### What a round does to the stream -/

variable {curve hGenerator blake3 toLeBytes}

/-- **A round emits one tick or leaves the stream alone.** -/
theorem valveRound_stream {state state' : ClusterAggregator × ClockStream}
    {round : Round F Scalar} {emitted : Bool}
    (goes : valveRound curve hGenerator blake3 toLeBytes state round = some (emitted, state')) :
    if emitted then ∃ request : TickRequest, request.vdfProof = none ∧ state.2.emit blake3
      request.networkTimeNanos request.confidenceNanos request.epochHash request.vdfProof =
        some state'.2 else state'.2 = state.2 := by
  simp only [valveRound, Option.bind_eq_bind, Option.bind_eq_some_iff, Option.pure_def,
    Option.some.injEq, Prod.mk.injEq, Prod.exists] at goes
  obtain ⟨l2Aggregator, _, verdict, clockStream, valve, rfl, rfl⟩ := goes
  have spec := valveL2ToL3_spec blake3 valve
  cases verdict with
  | false => exact spec
  | true =>
    obtain ⟨epochHash, emits⟩ := spec
    exact ⟨⟨round.referenceTimeNanos, 5000000, epochHash, none⟩, rfl, emits⟩

/-- The stream holds what so many rounds with these verdicts emitted. -/
def Counted (blake3 : List UInt8 → Bytes32) (verdicts : List Bool) (stream : ClockStream) : Prop :=
  ∃ requests, ClockStream.Emitted blake3 requests stream ∧ requests.length = verdicts.count true

theorem Counted.new : Counted blake3 [] .new := ⟨[], .new, rfl⟩

theorem Counted.round {verdicts : List Bool} {state state' : ClusterAggregator × ClockStream}
    {round : Round F Scalar} {emitted : Bool} (counted : Counted blake3 verdicts state.2)
    (goes : valveRound curve hGenerator blake3 toLeBytes state round = some (emitted, state')) :
    Counted blake3 (verdicts ++ [emitted]) state'.2 := by
  obtain ⟨requests, held, count⟩ := counted
  have spec := valveRound_stream goes
  cases emitted with
  | false =>
    rw [show state'.2 = state.2 from spec]
    exact ⟨requests, held, by simp [count]⟩
  | true =>
    obtain ⟨request, noVdf, emits⟩ := spec
    refine ⟨requests ++ [request], held.emit (fun vdf carried => ?_) emits, by simp [count]⟩
    rw [noVdf] at carried
    cases carried

theorem Counted.run {rounds : List (Round F Scalar)} {verdicts later : List Bool}
    {state state' : ClusterAggregator × ClockStream} (counted : Counted blake3 verdicts state.2)
    (went : Machine.run (valveRound curve hGenerator blake3 toLeBytes) state rounds =
      some (later, state')) : Counted blake3 (verdicts ++ later) state'.2 :=
  Machine.run_induction (fun _ verdicts now => Counted blake3 verdicts now.2)
    (fun _ _ _ _ _ _ held goes => held.round goes) [] verdicts counted went

theorem counted_of_run {rounds : List (Round F Scalar)} {verdicts : List Bool}
    {state : ClusterAggregator × ClockStream}
    (ran : run curve hGenerator blake3 toLeBytes rounds = some (verdicts, state)) :
    Counted blake3 verdicts state.2 := by
  have counted := Counted.run Counted.new ran
  rwa [List.nil_append] at counted

/-- **Ticks stay where they are.** -/
theorem prefix_of_run {rounds : List (Round F Scalar)} {later : List Bool}
    {state state' : ClusterAggregator × ClockStream}
    (went : Machine.run (valveRound curve hGenerator blake3 toLeBytes) state rounds =
      some (later, state')) : state.2.ticks <+: state'.2.ticks := by
  refine Machine.run_induction (fun _ _ now => state.2.ticks <+: now.2.ticks)
    (fun _ _ now round emitted next before goes => ?_) [] [] List.prefix_rfl went
  have spec := valveRound_stream goes
  cases emitted with
  | false => exact (show next.2 = now.2 from spec) ▸ before
  | true =>
    obtain ⟨request, _, emits⟩ := spec
    obtain ⟨tick, _, pushed⟩ := ClockStream.emit_iff.mp emits
    rw [pushed]
    exact before.trans (List.prefix_append _ _)

/-! ### The number of a tick -/

/-- **A tick is numbered by the ticks before it**, and found under its number from then on. It
carries the epoch it was agreed in, and is found under it, exactly when that is its number. -/
theorem run_ticks {before after : List (Round F Scalar)} {round : Round F Scalar}
    {verdicts later : List Bool} {state agreed final : ClusterAggregator × ClockStream}
    (ran : run curve hGenerator blake3 toLeBytes before = some (verdicts, state))
    (emits : valveRound curve hGenerator blake3 toLeBytes state round = some (true, agreed))
    (went : Machine.run (valveRound curve hGenerator blake3 toLeBytes) agreed after =
      some (later, final)) :
    ∃ tick, agreed.2.ticks = state.2.ticks ++ [tick] ∧
      tick.epoch.number.toNat = verdicts.count true + 1 ∧
      final.2.get tick.epoch = some tick ∧
      (tick.epoch = round.epoch ↔ round.epoch.number.toNat = verdicts.count true + 1) ∧
      (final.2.get round.epoch = some tick ↔
        round.epoch.number.toNat = verdicts.count true + 1) := by
  obtain ⟨requests, held, count⟩ := counted_of_run ran
  obtain ⟨request, _, emission⟩ := valveRound_stream emits
  obtain ⟨tick, next, pushed⟩ := ClockStream.emit_iff.mp emission
  have number : tick.epoch.number.toNat = verdicts.count true + 1 := by
    rw [next.1, held.latest_epoch, count]
  have place : agreed.2.ticks[verdicts.count true + 1]? = some tick := by
    rw [pushed, ClockStream.push_ticks, ← count, ← held.complete, List.getElem?_concat_length]
  have stays : final.2.ticks[verdicts.count true + 1]? = some tick := by
    obtain ⟨rest, more⟩ := prefix_of_run went
    rw [← more, List.getElem?_append_left (List.getElem?_eq_some_iff.mp place).1, place]
  -- What the final stream has at a number carries that number.
  obtain ⟨_, heldAfter, _⟩ := ((counted_of_run ran).round emits).run went
  refine ⟨tick, by rw [pushed]; rfl, number, ?_, ?_, ?_⟩
  · rw [ClockStream.get, number, stays]
  · rw [← number]
    constructor
    · intro same
      rw [same]
    · intro same
      exact congrArg Epoch.mk (UInt64.toNat_inj.mp same.symm)
  · constructor
    · intro found
      rw [← number]
      exact (heldAfter.epoch found).symm
    · intro same
      rw [ClockStream.get, same, stays]

/-! ### A lone beacon -/

section Lone

variable (curve hGenerator blake3) {round : Round ℝ Scalar} {beacon : Layer1Beacon ℝ}

theorem aggregate_zero (aggregator : ClusterAggregator) (id : ClusterId) (epoch : Epoch)
    (blinding varBlinding : Scalar) : ∃ entry : Layer2Entry, entry.epoch = epoch ∧
      entry.clusterSize = 1 ∧
      aggregator.aggregate curve hGenerator id epoch [(0 : ℝ)] blinding varBlinding =
        some (some entry, ⟨aggregator.entries ++ [entry]⟩) := by
  simp [ClusterAggregator.aggregate, PedersenCommitment.commitF64, F64.toI64]

/-- One beacon at offset zero makes one cluster of one. -/
theorem valveL1ToL2_lone (toLeBytes : ℝ → List UInt8)
    (only : round.l1Store.getEpoch round.epoch = [beacon]) (zero : beacon.clockOffset = 0)
    (aggregator : ClusterAggregator) : ∃ entry : Layer2Entry, entry.epoch = round.epoch ∧
      entry.clusterSize = 1 ∧
      valveL1ToL2 curve hGenerator blake3 toLeBytes round.order round.blindings round.l1Store
        aggregator round.epoch round.gridSize = some ⟨aggregator.entries ++ [entry]⟩ := by
  have clusters : clusterOffsets round.gridSize [beacon] =
      (∅ : Std.ExtTreeMap (List ℤ) (List ℝ)).insert (gridKey round.gridSize beacon) [0] := by
    simp [clusterOffsets, zero]
  have arranged : round.order.arrange
      ((∅ : Std.ExtTreeMap (List ℤ) (List ℝ)).insert (gridKey round.gridSize beacon) [0]).keys =
        [gridKey round.gridSize beacon] := by
    refine List.perm_singleton.mp ?_
    rw [← Maps.keys_singleton (gridKey round.gridSize beacon) ([0] : List ℝ)]
    exact round.order.perm _
  obtain ⟨entry, epoch, size, made⟩ := aggregate_zero curve hGenerator aggregator
    (ClusterId.fromRegion blake3 toLeBytes
      ((gridKey round.gridSize beacon).map fun g => F64.ofInt g * round.gridSize) round.epoch)
    round.epoch (round.blindings (gridKey round.gridSize beacon)).1
    (round.blindings (gridKey round.gridSize beacon)).2
  refine ⟨entry, epoch, size, ?_⟩
  unfold valveL1ToL2
  dsimp only
  rw [only, clusters, arranged]
  simp only [List.isEmpty_cons, Bool.false_eq_true, if_false, List.foldlM_cons, List.foldlM_nil,
    Std.ExtTreeMap.getElem?_insert_self, Option.getD_some, made, Option.map_some,
    Option.bind_eq_bind, Option.bind_some]
  rfl

/-- **A lone beacon at offset zero gets its tick**, on a fresh stream. -/
theorem valveRound_lone (toLeBytes : ℝ → List UInt8)
    (only : round.l1Store.getEpoch round.epoch = [beacon]) (zero : beacon.clockOffset = 0) :
    ∃ state, valveRound curve hGenerator blake3 toLeBytes (.new, .new) round =
      some (true, state) := by
  obtain ⟨entry, epoch, size, made⟩ :=
    valveL1ToL2_lone curve hGenerator blake3 toLeBytes only zero .new
  have clusters : ClusterAggregator.getEpoch ⟨[entry]⟩ round.epoch = [entry] := by
    simp [ClusterAggregator.getEpoch, epoch]
  have heavy : F64.lt (F64.sum ([entry].map fun c => F64.ofNat c.clusterSize.toNat) : ℝ) 1 =
      false := by
    simp [size]
  have emits : ∃ stream, valveL2ToL3 ℝ blake3 ⟨[entry]⟩ .new round.epoch round.referenceTimeNanos
      round.minClusters = some (true, stream) := by
    unfold valveL2ToL3
    dsimp only
    rw [clusters, heavy]
    exact ⟨_, rfl⟩
  obtain ⟨stream, emits⟩ := emits
  refine ⟨(⟨[entry]⟩, stream), ?_⟩
  unfold valveRound
  rw [made, Option.bind_eq_bind, Option.bind_some,
    show ClusterAggregator.mk (ClusterAggregator.new.entries ++ [entry]) = ⟨[entry]⟩ from rfl,
    emits]
  rfl

end Lone

/-- **Without a beacon nothing happens** in an epoch without clusters. -/
theorem valveRound_silent {round : Round F Scalar} {state : ClusterAggregator × ClockStream}
    (none : round.l1Store.getEpoch round.epoch = [])
    (noClusters : state.1.getEpoch round.epoch = []) :
    valveRound curve hGenerator blake3 toLeBytes state round = some (false, state) := by
  unfold valveRound valveL1ToL2 valveL2ToL3
  simp [none, noClusters]

/-! ### The first epoch -/

/-- A beacon of epoch 0 at the origin. -/
noncomputable def originBeacon : Layer1Beacon ℝ :=
  { Layer1Store.zeroProofBeacon (Vector.replicate 32 0) with
    blindedId := ⟨Vector.replicate 32 0, ⟨0⟩⟩
    epoch := ⟨0⟩ }

/-- The digests of the origin's cluster in epoch 0, of its two commitments, and of the genesis. -/
def originDigests (bytes : List UInt8) : Bytes32 :=
  if bytes = List.replicate 56 0 then
    #v[22, 247, 215, 241, 133, 193, 151, 2, 157, 235, 118, 222, 129, 179, 200, 106, 199, 10, 1, 175,
      138, 227, 44, 199, 59, 89, 214, 205, 4, 156, 238, 135]
  else if bytes = List.replicate 64 0 then
    Layer1Store.zerosDigest
  else
    genesisDigest

/-- The daemon's first epoch, with that beacon only. -/
noncomputable def originRound : Round ℝ (ZMod Layer1Store.groupOrder) where
  order := .asListed
  blindings _ := (0, 0)
  l1Store := ⟨[originBeacon]⟩
  epoch := ⟨0⟩
  gridSize := F64.lit 0.01
  referenceTimeNanos := 1000000000
  minClusters := 1

/-- **The round emits.** -/
theorem valveRound_originRound : ∃ state,
    valveRound Layer1Store.zeroCurve 3 originDigests (fun _ => List.replicate 8 0) (.new, .new)
      originRound = some (true, state) := by
  have only : originRound.l1Store.getEpoch originRound.epoch = [originBeacon] := by
    simp [originRound, Layer1Store.getEpoch, originBeacon]
  exact valveRound_lone _ _ _ _ only rfl

/-- Tick 1, emitted in the first epoch. -/
theorem run_ticks_origin : ∃ agreed tick,
    valveRound Layer1Store.zeroCurve 3 originDigests (fun _ => List.replicate 8 0) (.new, .new)
      originRound = some (true, agreed) ∧
    agreed.2.ticks = [ClockTick.genesis, tick] ∧ tick.epoch.number.toNat = 1 ∧
    agreed.2.get tick.epoch = some tick := by
  obtain ⟨agreed, emits⟩ := valveRound_originRound
  have ran : run Layer1Store.zeroCurve 3 originDigests (fun _ => List.replicate 8 0)
      ([] : List (Round ℝ (ZMod Layer1Store.groupOrder))) = some ([], (.new, .new)) := rfl
  have went : Machine.run (valveRound Layer1Store.zeroCurve 3 originDigests
      fun _ : ℝ => List.replicate 8 0) agreed [] = some ([], agreed) := rfl
  obtain ⟨tick, appended, number, found, _⟩ := run_ticks ran emits went
  exact ⟨agreed, tick, emits, appended, number, found⟩

/-- **The tick agreed in epoch 0 is tick 1**: epochs that increase, and a tick that does not carry
its own. -/
theorem run_first_epoch :
    ¬ ∀ (before : List (Round ℝ (ZMod Layer1Store.groupOrder)))
        (round : Round ℝ (ZMod Layer1Store.groupOrder)) (verdicts : List Bool)
        (state agreed : ClusterAggregator × ClockStream),
      ((before ++ [round]).map fun r => r.epoch.number.toNat).Pairwise (· < ·) →
      run Layer1Store.zeroCurve 3 originDigests (fun _ => List.replicate 8 0) before =
        some (verdicts, state) →
      valveRound Layer1Store.zeroCurve 3 originDigests (fun _ => List.replicate 8 0) state round =
        some (true, agreed) →
      ∃ tick, agreed.2.ticks = state.2.ticks ++ [tick] ∧ tick.epoch = round.epoch := by
  intro carries
  obtain ⟨agreed, emits⟩ := valveRound_originRound
  obtain ⟨tick, appended, same⟩ := carries [] originRound [] (.new, .new) agreed
    (List.pairwise_singleton _ _) rfl emits
  obtain ⟨request, _, emission⟩ := valveRound_stream emits
  obtain ⟨emitted, next, pushed⟩ := ClockStream.emit_iff.mp emission
  rw [pushed] at appended
  have equal : emitted = tick := List.singleton_inj.mp (List.append_cancel_left appended)
  have number : emitted.epoch.number.toNat = 1 := next.1
  rw [equal, same] at number
  exact absurd number (by decide)

end Rtfsn.Valve
