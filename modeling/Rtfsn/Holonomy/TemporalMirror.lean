/-
The retrodictive-predictive cascade at an epoch boundary.

* `TemporalMirror.findFixedPoint`: the means of two lists of clock estimates, each moved half of its
  way to their midpoint until less than a microsecond is between them.
* `EpochBoundarySolver.solveBoundary`: the estimates of an epoch's end, forward from the last
  boundary and backward from the next, and their fixed point.

Every sum and difference is an `i64`, in either build (`Overflow`): `none` is a panic.
-/
import Rtfsn.Overflow

namespace Rtfsn

structure TemporalMirror where
  predictiveTimeNanos : ℕ
  retrodictiveTimeNanos : ℕ
  fixedPointNanos : ℕ
  disagreementNanos : ℕ
  iterationsToConverge : ℕ

/-- The two mirrors in the loop. -/
structure Mirrors where
  predictive : ℤ
  retrodictive : ℤ

section

variable (F : Type) [F64 F] (overflow : Overflow)

namespace Mirrors

/-- A mirror moves to the midpoint, damped by a half. -/
def damp (midpoint mirror : ℤ) : Option ℤ := do
  let d ← overflow.i64 (midpoint - mirror)
  overflow.i64 (mirror + F64.toI64 (F64.ofInt d * F64.lit (1 / 2) : F))

/-- One iteration. -/
def adjust (m : Mirrors) : Option Mirrors := do
  let sum ← overflow.i64 (m.predictive + m.retrodictive)
  let midpoint := sum.tdiv 2
  let predictive ← damp F overflow midpoint m.predictive
  let retrodictive ← damp F overflow midpoint m.retrodictive
  return ⟨predictive, retrodictive⟩

def disagreement (m : Mirrors) : Option ℕ :=
  (overflow.i64 (m.predictive - m.retrodictive)).map Int.natAbs

/-- The loop, with the iterations it may still make and those it has made. -/
def cascade : ℕ → ℕ → Mirrors → Option (ℕ × Mirrors)
  | 0, iterations, m => some (iterations, m)
  | remaining + 1, iterations, m => do
    let m ← m.adjust F overflow
    let disagreement ← m.disagreement overflow
    if disagreement < 1000 then return (iterations + 1, m)
    else cascade remaining (iterations + 1) m

end Mirrors

/-- `iter().sum::<i64>() / len() as i64`. -/
def meanEstimate (estimates : List ℤ) : Option ℤ := do
  let sum ← overflow.sum estimates
  return sum.tdiv estimates.length

namespace TemporalMirror

/-- The fixed point of the predictive and the retrodictive estimates. -/
def findFixedPoint (forwardEstimates backwardEstimates : List ℤ) (maxIterations : ℕ) :
    Option TemporalMirror :=
  if forwardEstimates.isEmpty || backwardEstimates.isEmpty then some {
    predictiveTimeNanos := 0
    retrodictiveTimeNanos := 0
    fixedPointNanos := 0
    disagreementNanos := maxU64
    iterationsToConverge := 0 }
  else do
    let fwdMean ← meanEstimate overflow forwardEstimates
    let bwdMean ← meanEstimate overflow backwardEstimates
    let (iterations, m) ← Mirrors.cascade F overflow maxIterations 0 ⟨fwdMean, bwdMean⟩
    let sum ← overflow.i64 (m.predictive + m.retrodictive)
    let disagreement ← m.disagreement overflow
    return {
      predictiveTimeNanos := wrapU64 m.predictive
      retrodictiveTimeNanos := wrapU64 m.retrodictive
      fixedPointNanos := wrapU64 (sum.tdiv 2)
      disagreementNanos := disagreement
      iterationsToConverge := iterations }

def isConsistent (mirror : TemporalMirror) (toleranceNanos : ℕ) : Bool :=
  decide (mirror.disagreementNanos ≤ toleranceNanos)

end TemporalMirror

/-- The boundaries solved so far. -/
structure EpochBoundarySolver where
  epochDurationNanos : ℕ
  mirrors : List TemporalMirror

namespace EpochBoundarySolver

def new (epochDurationNanos : ℕ) : EpochBoundarySolver := ⟨epochDurationNanos, []⟩

/-- The next boundary by a node's offset. -/
def backward (dt prev offset : ℤ) : Option ℤ := do
  let boundary ← overflow.i64 (prev + dt)
  overflow.i64 (boundary + offset)

/-- The last boundary, extrapolated by a node's offset and drift. -/
def forward (dt prev : ℤ) (node : ℤ × ℤ) : Option ℤ := do
  let boundary ← overflow.i64 (prev + dt)
  let estimate ← overflow.i64 (boundary + node.1)
  let drifted ← overflow.i64 (node.2 * dt)
  overflow.i64 (estimate + drifted.tdiv 1000000000)

def solveBoundary (solver : EpochBoundarySolver) (nodeOffsets nodeDriftsPpb : List ℤ)
    (prevTimeNanos : ℕ) : Option (TemporalMirror × EpochBoundarySolver) := do
  let dt := wrapI64 solver.epochDurationNanos
  let prev := wrapI64 prevTimeNanos
  let forward ← (nodeOffsets.zip nodeDriftsPpb).mapM (forward overflow dt prev)
  let backward ← nodeOffsets.mapM (backward overflow dt prev)
  let mirror ← TemporalMirror.findFixedPoint F overflow forward backward 50
  return (mirror, { solver with mirrors := solver.mirrors ++ [mirror] })

def latestMirror (solver : EpochBoundarySolver) : Option TemporalMirror := solver.mirrors.getLast?

end EpochBoundarySolver

end

end Rtfsn
