/-
Layer 0: a node's own measurements and solves, one entry an epoch.
-/
import Rtfsn.Sync.Clock
import Rtfsn.Types

namespace Rtfsn

structure MeasurementRecord (F : Type) where
  peer : NodeId
  exchange : TimeExchange F
  measuredRtt : F
  localTime : F

structure LocalSolve (F : Type) where
  coordinates : CoordinateState F
  clockOffset : F
  clockDrift : F
  uncertainty : F
  peerCount : ℕ

structure Layer0Entry (F : Type) where
  nodeId : NodeId
  epoch : Epoch
  measurements : List (MeasurementRecord F)
  solve : LocalSolve F

structure Layer0Store (F : Type) where
  nodeId : NodeId
  entries : List (Layer0Entry F)

namespace Layer0Store

variable {F : Type}

def new (nodeId : NodeId) : Layer0Store F := ⟨nodeId, []⟩

def recordEpoch (store : Layer0Store F) (epoch : Epoch) (measurements : List (MeasurementRecord F))
    (solve : LocalSolve F) : Layer0Store F :=
  { store with entries := store.entries ++ [⟨store.nodeId, epoch, measurements, solve⟩] }

def getEpoch (store : Layer0Store F) (epoch : Epoch) : Option (Layer0Entry F) :=
  store.entries.find? fun e => e.epoch = epoch

/-- The entry of an epoch recorded for the first time. -/
theorem getEpoch_of_fresh {store : Layer0Store F} {entry : Layer0Entry F}
    (fresh : ∀ e ∈ store.entries, e.epoch ≠ entry.epoch) :
    Layer0Store.getEpoch { store with entries := store.entries ++ [entry] } entry.epoch =
      some entry := by
  unfold getEpoch
  rw [List.find?_append, List.find?_eq_none.mpr (by simpa using fresh), Option.none_or]
  simp

end Layer0Store

end Rtfsn
