/-
One node of a relational clock network: its own tracks and what it has heard.

* `observe`, `forget`, `hear`, `expire`: the tracks of the peers and the edges other nodes measured.
* `observeReference`, `hearAnchor`, `gossipAnchors`, `expireAnchors`: the absolute references, each
  with the instant it was last measured.
* `Op`, `run`: any sequence of these. The counter of insertions into the table of raw measurements
  is unbounded here.
-/
import Rtfsn.Sync.Frame

set_option linter.unusedSectionVars false

namespace Rtfsn

variable {F : Type} [F64 F]

structure Heard (F : Type) where
  edge : EdgeEstimate F
  receivedNs : ℕ

/-- The node that stands for UTC itself in an absolute frame. -/
def utc : NodeId := NodeId.replicate 0xFF

/-- An absolute reference: a node whose clock is UTC up to its own error. -/
structure Anchor (F : Type) where
  node : NodeId
  /-- How far its clock may be from UTC. -/
  sigmaOffsetNs : F
  /-- How far its rate may be from UTC's. -/
  sigmaDrift : F
  stratum : UInt8
  /-- How long before this copy was handed on the reference was last measured. -/
  ageNs : ℕ

structure HeldAnchor (F : Type) where
  anchor : Anchor F
  /-- When the reference was last measured, on this node's clock. -/
  measuredNs : ℕ
  own : Bool

structure RelationalClock (F : Type) where
  me : NodeId
  cfg : TrackConfig F
  tracks : Std.ExtTreeMap NodeId (PeerTrack F)
  heard : Std.ExtTreeMap (NodeId ×ₗ NodeId) (Heard F)
  anchors : Std.ExtTreeMap NodeId (HeldAnchor F)
  lut : TwistLUT
  inserts : ℕ

namespace RelationalClock

/-- A node with no measurements. -/
def new (me : NodeId) (cfg : TrackConfig F) : RelationalClock F where
  me := me
  cfg := cfg
  tracks := ∅
  heard := ∅
  anchors := ∅
  lut := .new
  inserts := 0

/-- Keep an accepted measurement, and trim the table on every 64th. -/
def record (clock : RelationalClock F) (peer : NodeId) (twist : TwistIndex) : RelationalClock F :=
  let lut := clock.lut.insert clock.me peer twist
  let inserts := clock.inserts + 1
  { clock with
    lut := if inserts % 64 = 0 then lut.trim clock.cfg.history else lut
    inserts := inserts }

/-- Keep the track of a peer after an exchange, and the measurement if it was accepted. -/
def keep (clock : RelationalClock F) (peer : NodeId) (obs : Observation F) (track : PeerTrack F) :
    RelationalClock F :=
  let clock := { clock with tracks := clock.tracks.insert peer track }
  match obs with
  | .accepted twist _ _ => clock.record peer twist
  | .rejected _ => clock

/-- Absorb an exchange this node initiated with `peer`. -/
def observe (clock : RelationalClock F) (peer : NodeId) (e : Exchange) :
    Option (Observation F × RelationalClock F) := do
  let (obs, track) ← (clock.tracks[peer]?.getD (PeerTrack.new clock.cfg)).observe e
  return (obs, clock.keep peer obs track)

/-- Drop a peer: its track, every heard edge touching it, and its anchor. -/
def forget (clock : RelationalClock F) (peer : NodeId) : RelationalClock F :=
  { clock with
    tracks := clock.tracks.erase peer
    heard := clock.heard.filter fun key _ => (ofLex key).1 ≠ peer ∧ (ofLex key).2 ≠ peer
    anchors := clock.anchors.erase peer }

/-- The anchor a track with an estimate makes of its peer. -/
def referenceAnchor (server : NodeId) (track : PeerTrack F) (rootDistanceNs : F) (stratum : UInt8)
    (sigmaDrift : F) (nowNs : ℕ) : HeldAnchor F where
  anchor :=
    { node := server
      sigmaOffsetNs := rootDistanceNs + F64.ofNat (track.rttFloorNs.getD 0) / F64.lit 2
      sigmaDrift := sigmaDrift
      stratum := stratum
      ageNs := 0 }
  measuredNs := nowNs
  own := true

/-- The track that makes an anchor of `server`: one with an estimate. -/
def referenceTrack (clock : RelationalClock F) (server : NodeId) : Option (PeerTrack F) :=
  clock.tracks[server]?.filter fun track => decide (0 < track.accepted)

/-- Absorb an exchange with an absolute reference. -/
def observeReference (clock : RelationalClock F) (server : NodeId) (e : Exchange)
    (rootDistanceNs : F) (stratum : UInt8) (sigmaDrift : F) (nowNs : ℕ) :
    Option (Observation F × RelationalClock F) := do
  let (obs, clock) ← clock.observe server e
  match clock.referenceTrack server with
  | some track =>
    let held := referenceAnchor server track rootDistanceNs stratum sigmaDrift nowNs
    return (obs, { clock with anchors := clock.anchors.insert server held })
  | none => return (obs, clock)

/-- Ten seconds: copies measured this close together count as equally fresh. -/
def freshNs : ℕ := 10000000000

/-- Whether a copy measured at `measured` replaces what is held. The sums wrap, as they do in a
release build. -/
def replaces (held : Option (HeldAnchor F)) (anchor : Anchor F) (measured : ℕ) : Bool :=
  match held with
  | none => true
  | some h =>
    if h.own then false
    else if wrapU64 (measured + freshNs) < h.measuredNs then false
    else if F64.lt h.anchor.sigmaOffsetNs anchor.sigmaOffsetNs ∧
        measured ≤ wrapU64 (h.measuredNs + freshNs) then false
    else true

/-- Keep an anchor another node measured, heard at `nowNs`. -/
def hearAnchor (clock : RelationalClock F) (anchor : Anchor F) (nowNs : ℕ) : RelationalClock F :=
  let measured := nowNs - anchor.ageNs
  if replaces clock.anchors[anchor.node]? anchor measured then
    { clock with
      anchors := clock.anchors.insert anchor.node
        { anchor := { anchor with ageNs := 0 }, measuredNs := measured, own := false } }
  else clock

/-- Every anchor known. -/
def anchorList (clock : RelationalClock F) : List (Anchor F) :=
  clock.anchors.toList.map fun entry => entry.2.anchor

/-- Every anchor known, as handed on at `nowNs`. -/
def gossipAnchors (clock : RelationalClock F) (nowNs : ℕ) : List (Anchor F) :=
  clock.anchors.toList.map fun entry =>
    { entry.2.anchor with ageNs := nowNs - entry.2.measuredNs }

/-- Forget anchors whose reference nobody has measured for `maxAgeNs`. -/
def expireAnchors (clock : RelationalClock F) (nowNs maxAgeNs : ℕ) : RelationalClock F :=
  { clock with anchors := clock.anchors.filter fun _ h => nowNs - h.measuredNs ≤ maxAgeNs }

/-- This node's own edges, one per track with an estimate. -/
def edges (clock : RelationalClock F) : List (EdgeEstimate F) :=
  clock.tracks.toList.filterMap fun (peer, track) => do
    let relation ← track.relation
    return {
      fromNode := clock.me
      toNode := peer
      relation := relation
      rttFloorNs := track.rttFloorNs.getD 0
      samples := track.accepted }

/-- Keep an edge another node measured. Our own edges are ours to measure. -/
def hear (clock : RelationalClock F) (edge : EdgeEstimate F) (nowNs : ℕ) : RelationalClock F :=
  if edge.fromNode = clock.me ∨ edge.fromNode = edge.toNode then clock
  else
    { clock with heard := clock.heard.insert (toLex (edge.fromNode, edge.toNode)) ⟨edge, nowNs⟩ }

/-- Forget heard edges received more than `maxAgeNs` before `nowNs`. -/
def expire (clock : RelationalClock F) (nowNs maxAgeNs : ℕ) : RelationalClock F :=
  { clock with heard := clock.heard.filter fun _ h => nowNs - h.receivedNs ≤ maxAgeNs }

/-- Every edge heard from others. -/
def heardEdges (clock : RelationalClock F) : List (EdgeEstimate F) :=
  clock.heard.toList.map fun entry => entry.2.edge

/-- Everything this node knows: its own edges, then the heard ones. -/
def known (clock : RelationalClock F) : List (EdgeEstimate F) := clock.edges ++ clock.heardEdges

/-- The network frame from everything this node knows. -/
def solve (clock : RelationalClock F) (reference : NodeId) (atNs : ℕ) : Option (NetworkFrame F) :=
  solveFrame clock.me reference atNs clock.known

end RelationalClock

/-- What can happen to a node. -/
inductive Op (F : Type)
  | observe (peer : NodeId) (e : Exchange)
  | observeReference (server : NodeId) (e : Exchange) (rootDistanceNs : F) (stratum : UInt8)
      (sigmaDrift : F) (nowNs : ℕ)
  | hear (edge : EdgeEstimate F) (nowNs : ℕ)
  | hearAnchor (anchor : Anchor F) (nowNs : ℕ)
  | forget (peer : NodeId)
  | expire (nowNs maxAgeNs : ℕ)
  | expireAnchors (nowNs maxAgeNs : ℕ)

namespace RelationalClock

def apply (clock : RelationalClock F) : Op F → Option (RelationalClock F)
  | .observe peer e => (clock.observe peer e).map Prod.snd
  | .observeReference server e rootDistanceNs stratum sigmaDrift nowNs =>
    (clock.observeReference server e rootDistanceNs stratum sigmaDrift nowNs).map Prod.snd
  | .hear edge nowNs => some (clock.hear edge nowNs)
  | .hearAnchor anchor nowNs => some (clock.hearAnchor anchor nowNs)
  | .forget peer => some (clock.forget peer)
  | .expire nowNs maxAgeNs => some (clock.expire nowNs maxAgeNs)
  | .expireAnchors nowNs maxAgeNs => some (clock.expireAnchors nowNs maxAgeNs)

/-- A run of operations. -/
def run (clock : RelationalClock F) (ops : List (Op F)) : Option (RelationalClock F) :=
  ops.foldlM apply clock

/-! ### What one operation leaves -/

/-- Observing touches the tracks and the table only, and never fails. -/
theorem observe_spec (clock : RelationalClock F) (peer : NodeId) (e : Exchange) :
    ∃ obs after, clock.observe peer e = some (obs, after) ∧ after.me = clock.me ∧
      after.cfg = clock.cfg ∧ after.heard = clock.heard ∧ after.anchors = clock.anchors := by
  obtain ⟨obs, track, eq, _⟩ :=
    (clock.tracks[peer]?.getD (PeerTrack.new clock.cfg)).observe_outcome e
  refine ⟨obs, clock.keep peer obs track, by rw [observe, eq]; rfl, ?_⟩
  cases obs <;> exact ⟨rfl, rfl, rfl, rfl⟩

/-- Observing a reference also makes an anchor of it, once its track has an estimate. -/
theorem observeReference_spec (clock : RelationalClock F) (server : NodeId) (e : Exchange)
    (rootDistanceNs : F) (stratum : UInt8) (sigmaDrift : F) (nowNs : ℕ) :
    ∃ obs after, clock.observeReference server e rootDistanceNs stratum sigmaDrift nowNs =
        some (obs, after) ∧ after.me = clock.me ∧ after.heard = clock.heard ∧
      ((after.referenceTrack server = none ∧ after.anchors = clock.anchors) ∨
        ∃ track, after.referenceTrack server = some track ∧ after.anchors =
          clock.anchors.insert server
            (referenceAnchor server track rootDistanceNs stratum sigmaDrift nowNs)) := by
  obtain ⟨obs, after, eq, me, _, heard, anchors⟩ := clock.observe_spec server e
  rw [observeReference, eq]
  cases found : after.referenceTrack server with
  | none =>
    refine ⟨obs, after, ?_, me, heard, Or.inl ⟨found, anchors⟩⟩
    simp [found]
  | some track =>
    let held := referenceAnchor server track rootDistanceNs stratum sigmaDrift nowNs
    refine ⟨obs, { after with anchors := after.anchors.insert server held }, ?_, me, heard,
      Or.inr ⟨track, found, by rw [anchors]⟩⟩
    simp [found, held]

/-- A copy that is taken is held as measured `ageNs` before it was heard. -/
theorem hearAnchor_spec (clock : RelationalClock F) (anchor : Anchor F) (nowNs : ℕ) :
    (clock.hearAnchor anchor nowNs).me = clock.me ∧
      (clock.hearAnchor anchor nowNs).heard = clock.heard ∧
      (clock.hearAnchor anchor nowNs).anchors =
        if replaces clock.anchors[anchor.node]? anchor (nowNs - anchor.ageNs) then
          clock.anchors.insert anchor.node
            { anchor := { anchor with ageNs := 0 }
              measuredNs := nowNs - anchor.ageNs
              own := false }
        else clock.anchors := by
  unfold hearAnchor
  by_cases taken : replaces clock.anchors[anchor.node]? anchor (nowNs - anchor.ageNs) = true
  · simp only [taken, if_true, and_self]
  · simp [taken]

theorem expireAnchors_anchors (clock : RelationalClock F) (nowNs maxAgeNs : ℕ) (node : NodeId) :
    (clock.expireAnchors nowNs maxAgeNs).anchors[node]? =
      clock.anchors[node]?.filter fun h => nowNs - h.measuredNs ≤ maxAgeNs := by
  rw [expireAnchors, Std.ExtTreeMap.getElem?_filter']

theorem mem_gossipAnchors {clock : RelationalClock F} {nowNs : ℕ} {anchor : Anchor F} :
    anchor ∈ clock.gossipAnchors nowNs ↔ ∃ (node : NodeId) (held : HeldAnchor F),
      clock.anchors[node]? = some held ∧
      anchor = { held.anchor with ageNs := nowNs - held.measuredNs } := by
  simp only [gossipAnchors, List.mem_map, Prod.exists,
    Std.ExtTreeMap.mem_toList_iff_getElem?_eq_some]
  exact exists₂_congr fun node held => and_congr_right fun _ => eq_comm

end RelationalClock

end Rtfsn
