/-
Prime channels, and the number they make.

* `PrimeChannel`, `SAMRState`: what is known of a node's clock, by remainders. `SAMRState.classify`:
  a measurement sets one of them.
* `modInverse`: the inverse of a number modulo another, by the extended Euclidean algorithm. Its
  loop runs on fuel. The outer `none` is a panic, or that the fuel is used up.
* `SAMRState.crtDecode`: the number with these remainders.

Arithmetic is checked, as in a build with overflow checks; a `u64` is a natural number.
-/
import Rtfsn.Checked
import Rtfsn.Lib.Loop

namespace Rtfsn

/-- The remainder of a state by a prime. -/
structure PrimeChannel where
  prime : UInt32
  value : UInt32
  defect : ℕ
deriving DecidableEq

namespace PrimeChannel

def new (prime : UInt32) : PrimeChannel := ⟨prime, 0, maxU64⟩

/-- Panics where the value is no remainder. -/
def set (channel : PrimeChannel) (value : UInt32) (defect : ℕ) : Option PrimeChannel :=
  if value < channel.prime then some { channel with value := value, defect := defect } else none

end PrimeChannel

/-! ### The inverse -/

namespace ModInverse

/-- Two remainders and their coefficients. -/
structure Remainders where
  oldR : ℤ
  r : ℤ
  oldS : ℤ
  s : ℤ

/-- `x - q * y`. -/
def subMul (x q y : ℤ) : Option ℤ := do
  let product ← checkedI128 (q * y)
  checkedI128 (x - product)

/-- One turn of the loop, which leaves it with the last remainder and its coefficient. -/
def turn (x : Remainders) : Option (Remainders ⊕ ℤ × ℤ) :=
  if x.r = 0 then some (.inr (x.oldR, x.oldS))
  else do
    let q ← checkedI128 (x.oldR.tdiv x.r)
    let r ← subMul x.oldR q x.r
    let s ← subMul x.oldS q x.s
    return .inl ⟨x.r, r, x.s, s⟩

end ModInverse

def modInverse (fuel a m : ℕ) : Option (Option ℕ) :=
  if m = 1 then some (some 0)
  else do
    let (oldR, oldS) ← (Loop.repeatUntil ModInverse.turn fuel ⟨a, m, 1, 0⟩).toOption
    if oldR ≠ 1 then return none
    else do
      let least ← remI128 oldS m
      let shifted ← checkedI128 (least + m)
      let inverse ← remI128 shifted m
      return some (wrapU64 inverse)

/-! ### The state -/

structure SAMRState where
  channels : List PrimeChannel

namespace SAMRState

/-- Reachability, network tier, precision of the offset, category of the drift. -/
def clockDefault : SAMRState := ⟨[.new 2, .new 3, .new 5, .new 7]⟩

def totalResolution (state : SAMRState) : Option ℕ :=
  (state.channels.map fun c => c.prime.toNat).foldlM
    (fun product prime => checkedU64 (product * prime : ℕ)) 1

/-- What a channel adds to the result. -/
def addend (fuel n : ℕ) (ch : PrimeChannel) : Option ℕ := do
  let ni ← divU64 n ch.prime.toNat
  let inverse ← modInverse fuel ni ch.prime.toNat
  let yi := inverse.getD 0
  let product ← checkedU64 (ch.value.toNat * ni : ℕ)
  checkedU64 (product * yi : ℕ)

def crtDecode (fuel : ℕ) (state : SAMRState) : Option ℕ := do
  let n ← state.totalResolution
  let result ← state.channels.foldlM
    (fun result ch => (addend fuel n ch).bind fun term => checkedU64 (result + term : ℕ)) 0
  remU64 result n

/-! ### The classifications -/

/-- Set a channel; panics where there is none. -/
def classify (index : ℕ) (value : UInt32) (defect : ℕ) (state : SAMRState) : Option SAMRState := do
  let channel ← state.channels[index]?
  let channel ← channel.set value defect
  return ⟨state.channels.set index channel⟩

def classifyReachability (reachable : Bool) : SAMRState → Option SAMRState :=
  classify 0 (if reachable then 1 else 0) 0

/-- Fast, medium or slow. -/
def tier (rttNanos : ℕ) : UInt32 :=
  if rttNanos < 10000000 then 0 else if rttNanos < 100000000 then 1 else 2

def classifyTier (rttNanos : ℕ) : SAMRState → Option SAMRState := classify 1 (tier rttNanos) 0

/-- How uncertain the offset is, from below a millisecond to above a hundred. -/
def precision (uncertaintyNanos : ℕ) : UInt32 :=
  if uncertaintyNanos < 1000000 then 0
  else if uncertaintyNanos < 5000000 then 1
  else if uncertaintyNanos < 20000000 then 2
  else if uncertaintyNanos < 100000000 then 3
  else 4

/-- The offset itself is not read. -/
def classifyOffset (_offsetNanos : ℤ) (uncertaintyNanos : ℕ) : SAMRState → Option SAMRState :=
  classify 2 (precision uncertaintyNanos) uncertaintyNanos

/-- From severely slow to severely fast. -/
def driftCategory (driftPpb : ℤ) : UInt32 :=
  if driftPpb.natAbs < 10 then 3
  else if 0 < driftPpb then
    if driftPpb.natAbs < 100 then 4 else if driftPpb.natAbs < 1000 then 5 else 6
  else if driftPpb.natAbs < 100 then 2
  else if driftPpb.natAbs < 1000 then 1
  else 0

def classifyDrift (driftPpb : ℤ) : SAMRState → Option SAMRState :=
  classify 3 (driftCategory driftPpb) driftPpb.natAbs

end SAMRState

end Rtfsn
