/-
The two-state clock filter: offset and drift rate.

`ClockKalman` keeps the state and the three distinct entries of its covariance. `predict` moves
both by `dt` seconds, `update` absorbs one offset measurement, `step` does the two in turn.
-/
import Rtfsn.Numbers

namespace Rtfsn

variable {F : Type} [F64 F]

/-- A filter tracking clock offset and drift. -/
@[ext]
structure ClockKalman (F : Type) where
  /-- Offset and drift rate. -/
  x : F × F
  /-- The covariance, stored as `p00`, `p01`, `p11`. -/
  p : F × F × F
  qOffset : F
  qDrift : F

namespace ClockKalman

def new : ClockKalman F where
  x := (0, 0)
  p := (1, 0, F64.lit 1e-6)
  qOffset := F64.lit 1e-8
  qDrift := F64.lit 1e-12

def driftRate (k : ClockKalman F) : F := k.x.2

def uncertainty (k : ClockKalman F) : F := F64.sqrt k.p.1

/-- Advance the state by `dt` seconds. -/
def predict (k : ClockKalman F) (dt : F) : ClockKalman F :=
  let p00 := k.p.1 + F64.lit 2 * dt * k.p.2.1 + dt * dt * k.p.2.2 + k.qOffset * dt
  let p01 := k.p.2.1 + dt * k.p.2.2
  let p11 := k.p.2.2 + k.qDrift * dt
  { k with x := (k.x.1 + k.x.2 * dt, k.x.2), p := (p00, p01, p11) }

/-- Incorporate an offset measurement with the given variance. -/
def update (k : ClockKalman F) (measuredOffset measurementVariance : F) : ClockKalman F :=
  let innovation := measuredOffset - k.x.1
  let s := k.p.1 + measurementVariance
  if F64.lt (F64.abs s) (F64.lit 1e-30) then k
  else
    let k0 := k.p.1 / s
    let k1 := k.p.2.1 / s
    let p00 := (1 - k0) * k.p.1
    let p01 := (1 - k0) * k.p.2.1
    let p11 := k.p.2.2 - k1 * k.p.2.1
    { k with x := (k.x.1 + k0 * innovation, k.x.2 + k1 * innovation), p := (p00, p01, p11) }

/-- Predict, then update. -/
def step (k : ClockKalman F) (dt measuredOffset measurementVariance : F) : ClockKalman F :=
  (k.predict dt).update measuredOffset measurementVariance

/-! ### The process noise is never touched -/

@[simp] theorem predict_qOffset (k : ClockKalman F) (dt : F) :
    (k.predict dt).qOffset = k.qOffset := rfl

@[simp] theorem predict_qDrift (k : ClockKalman F) (dt : F) :
    (k.predict dt).qDrift = k.qDrift := rfl

@[simp] theorem update_qOffset (k : ClockKalman F) (z r : F) :
    (k.update z r).qOffset = k.qOffset := by
  dsimp only [update]
  split <;> rfl

@[simp] theorem update_qDrift (k : ClockKalman F) (z r : F) :
    (k.update z r).qDrift = k.qDrift := by
  dsimp only [update]
  split <;> rfl

end ClockKalman

end Rtfsn
