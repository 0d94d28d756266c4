/-
**What the tip hash of a clock stream commits to.**

* `hashed_injective`: the hashed bytes determine every field but the delay proof.
* `tip_commits`: two verified streams with one tip hash are as long, and agree tick by tick in those
  fields. They are the same exactly when they carry the same delay proofs, which no hash covers and
  `verify_chain` only checks on their own.
-/
import Rtfsn.Layers.ClockRuns

namespace Rtfsn

namespace ClockTick

/-- The tick without its delay proof: the fields that are hashed. -/
def hashedFields (tick : ClockTick) : ClockTick := { tick with vdfProof := none }

theorem u64_of_leBytes {n m : UInt64}
    (same : Bytes.leBytes 8 n.toNat = Bytes.leBytes 8 m.toNat) : n = m :=
  UInt64.toNat_inj.mp (Bytes.leBytes_injective n.toNat_lt m.toNat_lt same)

/-- **The encoding is injective**: its fields have fixed widths. -/
theorem hashed_injective {tick tick' : ClockTick} (same : tick.hashed = tick'.hashed) :
    tick.hashedFields = tick'.hashedFields := by
  unfold hashed at same
  obtain ⟨same, prev⟩ := List.append_inj' same (by simp)
  obtain ⟨same, epochHash⟩ := List.append_inj' same (by simp)
  obtain ⟨same, confidence⟩ := List.append_inj' same (by simp)
  obtain ⟨epoch, time⟩ := List.append_inj' same (by simp)
  have sameEpoch : tick.epoch = tick'.epoch :=
    congrArg Epoch.mk (u64_of_leBytes epoch)
  unfold hashedFields
  rw [sameEpoch, u64_of_leBytes time, u64_of_leBytes confidence, Vector.toList_inj.mp epochHash,
    Vector.toList_inj.mp prev]

/-- A tick is its hashed fields and its delay proof. -/
theorem eq_of_hashedFields {tick tick' : ClockTick}
    (fields : tick.hashedFields = tick'.hashedFields) (vdf : tick.vdfProof = tick'.vdfProof) :
    tick = tick' := by
  have restored (t : ClockTick) : t = { t.hashedFields with vdfProof := t.vdfProof } := rfl
  rw [restored tick, restored tick', fields, vdf]

theorem eq_of_map_hashedFields {ticks ticks' : List ClockTick}
    (fields : ticks.map hashedFields = ticks'.map hashedFields)
    (vdfs : ticks.map vdfProof = ticks'.map vdfProof) : ticks = ticks' := by
  have length : ticks.length = ticks'.length := by
    simpa using congrArg List.length fields
  refine List.ext_getElem length fun i inside inside' => eq_of_hashedFields ?_ ?_
  · have at_i := congrArg (fun l : List ClockTick => l[i]?) fields
    simpa [inside, inside'] using at_i
  · have at_i := congrArg (fun l : List (Option VdfProof) => l[i]?) vdfs
    simpa [inside, inside'] using at_i

end ClockTick

namespace ClockStream

variable {blake3 : List UInt8 → Bytes32} {stream stream' : ClockStream}

theorem linked_hashedFields (verifies : stream.verifyAll blake3 = some true) :
    HashChain.Linked (ClockTick.hash blake3) ClockTick.prevHash
      (fun tick => tick.epoch.number.toNat) (stream.ticks.map ClockTick.hashedFields) :=
  List.isChain_map_of_isChain ClockTick.hashedFields (fun _ _ linked => linked)
    (linked_of_follows (verifyAll_iff.mp verifies))

/-- **The tip commits to the stream, but for the delay proofs.** -/
theorem tip_commits (begins : stream.ticks.head? = some ClockTick.genesis)
    (begins' : stream'.ticks.head? = some ClockTick.genesis)
    (verifies : stream.verifyAll blake3 = some true)
    (verifies' : stream'.verifyAll blake3 = some true)
    (apart : Set.InjOn blake3
      {bytes | ∃ tick, (tick ∈ stream.ticks ∨ tick ∈ stream'.ticks) ∧ tick.hashed = bytes})
    (tip : stream.latest.hash blake3 = stream'.latest.hash blake3) :
    stream.len = stream'.len ∧
      stream.ticks.map ClockTick.hashedFields = stream'.ticks.map ClockTick.hashedFields ∧
      (stream.ticks = stream'.ticks ↔
        stream.ticks.map ClockTick.vdfProof = stream'.ticks.map ClockTick.vdfProof) := by
  have ends (s : ClockStream) :
      (s.ticks.map ClockTick.hashedFields).getLast? = some s.latest.hashedFields := by
    rw [List.getLast?_map, getLast?_ticks, Option.map_some]
  have starts {s : ClockStream} (first : s.ticks.head? = some ClockTick.genesis) :
      (s.ticks.map ClockTick.hashedFields).head? = some ClockTick.genesis := by
    rw [List.head?_map, first]
    rfl
  have fieldsApart : Set.InjOn (ClockTick.hash blake3)
      {tick | tick ∈ stream.ticks.map ClockTick.hashedFields ∨
        tick ∈ stream'.ticks.map ClockTick.hashedFields} := by
    have source {tick : ClockTick} (inside : tick ∈ stream.ticks.map ClockTick.hashedFields ∨
        tick ∈ stream'.ticks.map ClockTick.hashedFields) :
        ∃ full, (full ∈ stream.ticks ∨ full ∈ stream'.ticks) ∧ full.hashedFields = tick := by
      simp only [List.mem_map] at inside
      rcases inside with ⟨full, member, rfl⟩ | ⟨full, member, rfl⟩
      · exact ⟨full, Or.inl member, rfl⟩
      · exact ⟨full, Or.inr member, rfl⟩
    intro tick inside tick' inside' same
    obtain ⟨full, member, rfl⟩ := source inside
    obtain ⟨full', member', rfl⟩ := source inside'
    exact ClockTick.hashed_injective (apart ⟨full, member, rfl⟩ ⟨full', member', rfl⟩ same)
  have fields := HashChain.eq_of_tip (linked_hashedFields verifies) (linked_hashedFields verifies')
    (starts begins) (starts begins') rfl (ends stream) (ends stream') fieldsApart tip
  refine ⟨?_, fields, fun same => congrArg _ same, ClockTick.eq_of_map_hashedFields fields⟩
  unfold len
  simpa using congrArg List.length fields

/-! ### The same tip with and without a delay proof -/

/-- The genesis and one tick. -/
def oneTick (vdfProof : Option VdfProof) : ClockStream :=
  ⟨[ClockTick.genesis, firstTick vdfProof], by simp⟩

theorem firstDigests_apart :
    Set.InjOn firstDigests {bytes | ∃ tick, (tick ∈ (oneTick none).ticks ∨
      tick ∈ (oneTick (some idleVdf)).ticks) ∧ tick.hashed = bytes} := by
  have places {bytes : List UInt8} (hashed : ∃ tick, (tick ∈ (oneTick none).ticks ∨
      tick ∈ (oneTick (some idleVdf)).ticks) ∧ tick.hashed = bytes) :
      bytes = ClockTick.genesis.hashed ∨ bytes = (firstTick none).hashed := by
    obtain ⟨tick, member, rfl⟩ := hashed
    simp only [oneTick, List.mem_cons, List.not_mem_nil, or_false] at member
    rcases member with (rfl | rfl) | (rfl | rfl)
    · exact Or.inl rfl
    · exact Or.inr rfl
    · exact Or.inl rfl
    · exact Or.inr rfl
  have differ : firstDigests ClockTick.genesis.hashed ≠ firstDigests (firstTick none).hashed := by
    decide
  intro bytes hashed bytes' hashed' same
  rcases places hashed with rfl | rfl <;> rcases places hashed' with rfl | rfl
  · rfl
  · exact absurd same differ
  · exact absurd same.symm differ
  · rfl

theorem tip_commits_oneTick :
    (oneTick none).len = (oneTick (some idleVdf)).len ∧
      (oneTick none).ticks.map ClockTick.hashedFields =
        (oneTick (some idleVdf)).ticks.map ClockTick.hashedFields ∧
      ((oneTick none).ticks = (oneTick (some idleVdf)).ticks ↔
        (oneTick none).ticks.map ClockTick.vdfProof =
          (oneTick (some idleVdf)).ticks.map ClockTick.vdfProof) :=
  tip_commits rfl rfl (by decide) (by decide) firstDigests_apart rfl

/-- **A delay proof can be taken off a tick** without changing the tip or failing verification. -/
theorem tip_ignores_vdfProof :
    ¬ ∀ (blake3 : List UInt8 → Bytes32) (stream stream' : ClockStream),
      stream.ticks.head? = some ClockTick.genesis →
      stream'.ticks.head? = some ClockTick.genesis →
      stream.verifyAll blake3 = some true → stream'.verifyAll blake3 = some true →
      Set.InjOn blake3
        {bytes | ∃ tick, (tick ∈ stream.ticks ∨ tick ∈ stream'.ticks) ∧ tick.hashed = bytes} →
      stream.latest.hash blake3 = stream'.latest.hash blake3 →
      stream.ticks = stream'.ticks := by
  intro commits
  have same := commits firstDigests (oneTick none) (oneTick (some idleVdf)) rfl rfl (by decide)
    (by decide) firstDigests_apart rfl
  exact absurd same (by decide)

end ClockStream

end Rtfsn
