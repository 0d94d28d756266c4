/-
Network coordinates, by Vivaldi updates.

* `Coordinates`: the arithmetic of points.
* `CoordinateState.update`: the local point moves along the line to the peer.
* `GeometryEngine`: the local point, and the peers' as last seen.
-/
import Rtfsn.Types

namespace Rtfsn

variable {F : Type} [F64Coord F]

namespace Coordinates

def origin : Coordinates F := ⟨Vector.replicate 6 0⟩

def distance (a b : Coordinates F) : F :=
  F64.sqrt (F64.sum (Vector.zipWith (fun a b => F64.powi (a - b) 2) a.dims b.dims).toList)

def addScaled (a direction : Coordinates F) (scale : F) : Coordinates F :=
  ⟨Vector.zipWith (fun a d => a + d * scale) a.dims direction.dims⟩

def subtract (a b : Coordinates F) : Coordinates F :=
  ⟨Vector.zipWith (fun a b => a - b) a.dims b.dims⟩

def magnitude (a : Coordinates F) : F :=
  F64.sqrt (F64.sum (a.dims.map fun d => F64.powi d 2).toList)

def normalize (a : Coordinates F) : Coordinates F :=
  let mag := a.magnitude
  if F64.lt mag (F64.lit 1e-12) then origin else ⟨a.dims.map fun d => d / mag⟩

end Coordinates

namespace CoordinateState

/-- A point near the origin, from six random words. -/
def new (words : Vector UInt32 6) : CoordinateState F where
  position := ⟨words.map fun word =>
    (F64.ofNat word.toNat / F64.ofNat (2 ^ 32 - 1) - F64.lit 0.5) * F64.lit 0.001⟩
  error := 1

/-- Move by a measured round trip to `peer`; with it comes the relative error. -/
def update (self peer : CoordinateState F) (measuredRtt : F) : F × CoordinateState F :=
  let dist := self.position.distance peer.position
  let error := measuredRtt - dist
  let relativeError :=
    if F64.lt (F64.lit 1e-12) measuredRtt then F64.abs error / measuredRtt else F64.abs error
  let weight :=
    if F64.lt (F64.lit 1e-12) (self.error + peer.error) then
      self.error / (self.error + peer.error)
    else F64.lit 0.5
  let ce := F64.lit 0.25
  let newError := relativeError * ce * weight + self.error * (1 - ce * weight)
  let delta := F64.lit 0.25 * weight
  let away := self.position.subtract peer.position
  let position :=
    if F64.lt (F64.lit 1e-12) away.magnitude then
      self.position.addScaled away.normalize (error * delta)
    else if F64.lt (F64.lit 1e-12) (F64.abs error) then
      self.position.addScaled
        ⟨(Vector.replicate 6 0).set 0 (F64Coord.signum error * measuredRtt * delta)⟩ 1
    else self.position
  (relativeError, ⟨position, newError⟩)

end CoordinateState

/-- The local point and its view of the peers. -/
structure GeometryEngine (F : Type) where
  localState : CoordinateState F
  peers : Std.ExtTreeMap NodeId (CoordinateState F)

namespace GeometryEngine

def new (words : Vector UInt32 6) : GeometryEngine F := ⟨.new words, ∅⟩

def observePeer (engine : GeometryEngine F) (peerId : NodeId) (peerCoords : CoordinateState F)
    (measuredRtt : F) : F × GeometryEngine F :=
  let (error, localState) := engine.localState.update peerCoords measuredRtt
  (error, ⟨localState, engine.peers.insert peerId peerCoords⟩)

end GeometryEngine

end Rtfsn
