/-
Time exchanges and the clock regression over them.

`ClockState.addExchange` keeps the newest samples and fits offset and drift to them by weighted
least squares.
-/
import Rtfsn.Numbers

namespace Rtfsn

variable {F : Type} [F64 F]

/-- The four timestamps of one exchange, in seconds. -/
structure TimeExchange (F : Type) where
  t1 : F
  t2 : F
  t3 : F
  t4 : F

namespace TimeExchange

def offset (e : TimeExchange F) : F := ((e.t2 - e.t1) + (e.t3 - e.t4)) / F64.lit 2

def roundTripDelay (e : TimeExchange F) : F := (e.t4 - e.t1) - (e.t3 - e.t2)

end TimeExchange

structure ClockSample (F : Type) where
  time : F
  offset : F
  weight : F

/-- A clock's offset and drift relative to network time. -/
structure ClockState (F : Type) where
  offset : F
  driftRate : F
  uncertainty : F
  lastUpdate : F
  samples : List (ClockSample F)

namespace ClockState

/-- `f64::MAX`. -/
def maxF64 : ℚ := (2 ^ 53 - 1) * 2 ^ 971

def new : ClockState F := ⟨0, 0, F64.lit maxF64, 0, []⟩

def maxSamples : ℕ := 64

/-- Weighted linear regression, with the residuals' spread as the uncertainty. -/
def recompute (state : ClockState F) : ClockState F :=
  match state.samples with
  | [] => state
  | [s] => { state with offset := s.offset, driftRate := 0, uncertainty := 1 / s.weight }
  | samples =>
    let totalWeight := F64.sum (samples.map fun s => s.weight)
    let meanT := F64.sum (samples.map fun s => s.weight * s.time) / totalWeight
    let meanO := F64.sum (samples.map fun s => s.weight * s.offset) / totalWeight
    let (ssTt, ssTo) := samples.foldl (fun ss s =>
      let dt := s.time - meanT
      let dO := s.offset - meanO
      (ss.1 + s.weight * dt * dt, ss.2 + s.weight * dt * dO)) ((0, 0) : F × F)
    let (driftRate, offset) :=
      if F64.lt (F64.lit 1e-20) (F64.abs ssTt) then (ssTo / ssTt, meanO - ssTo / ssTt * meanT)
      else (0, meanO)
    let ssResidual := samples.foldl (fun ss s =>
      let residual := s.offset - (offset + driftRate * s.time)
      ss + s.weight * residual * residual) 0
    { state with
      offset := offset
      driftRate := driftRate
      uncertainty := F64.max (F64.sqrt (ssResidual / totalWeight)) (F64.lit 1e-9) }

/-- Take in an exchange. One without a positive round trip is ignored. -/
def addExchange (state : ClockState F) (exchange : TimeExchange F) (localTime : F) :
    ClockState F :=
  let delay := exchange.roundTripDelay
  if F64.le delay 0 then state
  else
    let samples := state.samples ++ [⟨localTime, exchange.offset, 1 / delay⟩]
    let samples := if maxSamples < samples.length then samples.drop 1 else samples
    { recompute { state with samples := samples } with lastUpdate := localTime }

def predict (state : ClockState F) (time : F) : F := state.offset + state.driftRate * time

end ClockState

end Rtfsn
