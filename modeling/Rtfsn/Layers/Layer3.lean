/-
Layer 3: the clock stream.

* `ClockTick.hash`: the digest of five of a tick's fields; the delay proof is not among them.
* `ClockTick.verifyChain`, `ClockStream.verifyAll`: the check of a tick against the one before, and
  of the whole stream.
* `ClockStream.emit`: the next tick, its time moved past the last one's.

The sums are checked: `none` is the panic of an overflow.
-/
import Rtfsn.Crypto.Vdf
import Rtfsn.Lib.Bytes

namespace Rtfsn

structure ClockTick where
  epoch : Epoch
  networkTimeNanos : UInt64
  confidenceNanos : UInt64
  epochHash : Bytes32
  prevHash : Bytes32
  vdfProof : Option VdfProof
deriving DecidableEq

/-- The ticks so far. There is always the genesis. -/
structure ClockStream where
  ticks : List ClockTick
  started : ticks ≠ []

namespace ClockTick

def genesis : ClockTick where
  epoch := ⟨0⟩
  networkTimeNanos := 0
  confidenceNanos := UInt64.ofNat maxU64
  epochHash := Vector.replicate 32 0
  prevHash := Vector.replicate 32 0
  vdfProof := none

/-- The bytes fed to the hasher. -/
def hashed (tick : ClockTick) : List UInt8 :=
  Bytes.leBytes 8 tick.epoch.number.toNat ++ Bytes.leBytes 8 tick.networkTimeNanos.toNat ++
    Bytes.leBytes 8 tick.confidenceNanos.toNat ++ tick.epochHash.toList ++ tick.prevHash.toList

variable (blake3 : List UInt8 → Bytes32)

def hash (tick : ClockTick) : Bytes32 := blake3 tick.hashed

def verifyChain (tick prev : ClockTick) : Option Bool :=
  (U64.checkedAdd prev.epoch.number 1).map fun next =>
    if tick.epoch.number ≠ next then false
    else if tick.prevHash ≠ prev.hash blake3 then false
    else if tick.networkTimeNanos < prev.networkTimeNanos then false
    else
      match tick.vdfProof with
      | some vdf => vdf.verify blake3
      | none => true

end ClockTick

namespace ClockStream

def new : ClockStream := ⟨[ClockTick.genesis], by simp⟩

def latest (stream : ClockStream) : ClockTick := stream.ticks.getLast stream.started

def len (stream : ClockStream) : ℕ := stream.ticks.length

def get (stream : ClockStream) (epoch : Epoch) : Option ClockTick :=
  stream.ticks[epoch.number.toNat]?

/-- The stream with one tick more. -/
def push (stream : ClockStream) (tick : ClockTick) : ClockStream :=
  ⟨stream.ticks ++ [tick], by simp⟩

variable (blake3 : List UInt8 → Bytes32)

def emit (stream : ClockStream) (networkTimeNanos confidenceNanos : UInt64) (epochHash : Bytes32)
    (vdfProof : Option VdfProof) : Option ClockStream := do
  let prev := stream.latest
  let epoch ← prev.epoch.next
  let floor ← U64.checkedAdd prev.networkTimeNanos 1
  return stream.push
    { epoch := epoch
      networkTimeNanos := max networkTimeNanos floor
      confidenceNanos := confidenceNanos
      epochHash := epochHash
      prevHash := prev.hash blake3
      vdfProof := vdfProof }

/-- The loop of `verify_all`, from the tick after `prev` on. -/
def verifyFrom (prev : ClockTick) : List ClockTick → Option Bool
  | [] => some true
  | tick :: rest =>
    match tick.verifyChain blake3 prev with
    | none => none
    | some false => some false
    | some true => verifyFrom tick rest

/-- Verify the whole chain. -/
def verifyAll (stream : ClockStream) : Option Bool :=
  match stream.ticks with
  | [] => some true
  | first :: rest => verifyFrom blake3 first rest

@[simp] theorem push_ticks (stream : ClockStream) (tick : ClockTick) :
    (stream.push tick).ticks = stream.ticks ++ [tick] := rfl

@[simp] theorem push_latest (stream : ClockStream) (tick : ClockTick) :
    (stream.push tick).latest = tick := by
  simp [latest]

theorem getLast?_ticks (stream : ClockStream) : stream.ticks.getLast? = some stream.latest :=
  List.getLast?_eq_some_getLast stream.started

end ClockStream

/-! ### What the verification checks -/

section Verified

variable (blake3 : List UInt8 → Bytes32)

/-- The tick may follow `prev`: the next epoch, linked to it, not before it in time, and with a
valid delay proof if any. -/
structure ClockTick.Follows (prev tick : ClockTick) : Prop where
  link : tick.prevHash = prev.hash blake3
  epoch : tick.epoch.number.toNat = prev.epoch.number.toNat + 1
  time : prev.networkTimeNanos ≤ tick.networkTimeNanos
  vdf : ∀ vdf, tick.vdfProof = some vdf → vdf.verify blake3 = true

variable {blake3}

theorem ClockTick.verifyChain_iff {tick prev : ClockTick} :
    tick.verifyChain blake3 prev = some true ↔ prev.Follows blake3 tick := by
  unfold verifyChain
  rw [Option.map_eq_some_iff]
  constructor
  · rintro ⟨next, fits, checked⟩
    rw [U64.checkedAdd_eq_some] at fits
    split_ifs at checked with epoch link time
    refine ⟨not_not.mp link, ?_, UInt64.not_lt.mp time, fun vdf carried => ?_⟩
    · rw [not_not.mp epoch, ← fits]
      rfl
    · rw [carried] at checked
      exact checked
  · intro follows
    refine ⟨tick.epoch.number, U64.checkedAdd_eq_some.mpr follows.epoch.symm, ?_⟩
    rw [if_neg (not_not.mpr rfl), if_neg (not_not.mpr follows.link),
      if_neg (UInt64.not_lt.mpr follows.time)]
    cases carried : tick.vdfProof with
    | none => rfl
    | some vdf => exact follows.vdf vdf carried

theorem ClockStream.verifyFrom_iff {prev : ClockTick} {rest : List ClockTick} :
    verifyFrom blake3 prev rest = some true ↔
      (prev :: rest).IsChain (ClockTick.Follows blake3) := by
  induction rest generalizing prev with
  | nil => simp [verifyFrom]
  | cons tick rest ih =>
    rw [verifyFrom, List.isChain_cons_cons, ← ClockTick.verifyChain_iff, ← ih]
    cases checked : tick.verifyChain blake3 prev with
    | none => simp
    | some verdict => cases verdict <;> simp

/-- **A stream verifies** when each tick may follow the one before. -/
theorem ClockStream.verifyAll_iff {stream : ClockStream} :
    stream.verifyAll blake3 = some true ↔ stream.ticks.IsChain (ClockTick.Follows blake3) := by
  unfold verifyAll
  split
  · next empty => simp [empty]
  · next first rest all => rw [all, verifyFrom_iff]

end Verified

/-! ### A first tick -/

/-- The digest of the genesis. -/
def genesisDigest : Bytes32 :=
  #v[67, 231, 236, 90, 210, 69, 91, 12, 237, 6, 142, 242, 210, 0, 222, 190, 91, 148, 71, 56, 5,
    243, 93, 36, 73, 115, 149, 234, 231, 155, 222, 39]

/-- The digests of the genesis and, for everything else, of the first tick below. -/
def firstDigests (bytes : List UInt8) : Bytes32 :=
  if bytes = ClockTick.genesis.hashed then
    genesisDigest
  else
    #v[104, 205, 173, 172, 72, 76, 197, 126, 189, 214, 152, 223, 223, 42, 240, 137, 36, 190, 197,
      36, 174, 4, 117, 44, 92, 194, 119, 94, 21, 121, 161, 195]

/-- The tick emitted first when `5 ns` are asked for. -/
def firstTick (vdfProof : Option VdfProof) : ClockTick :=
  ⟨⟨1⟩, 5, 7, Vector.replicate 32 0, ClockTick.genesis.hash firstDigests, vdfProof⟩

/-- A delay proof over no iterations. -/
def idleVdf : VdfProof := ⟨Vector.replicate 32 0, Vector.replicate 32 0, 0⟩

end Rtfsn
