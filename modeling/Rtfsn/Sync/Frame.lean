/-
`solve_frame`: the network frame from a set of directed edge estimates.

Nodes are numbered by their place in the sorted list of ids, as in the source. `network` numbers the
two named nodes and the usable edges; from there on everything is about numbers, and the source's
steps are the definitions under `Network`, in its order: the component of the reference, the
relative frequencies, three passes over the offsets, the residuals, the merged pairs and the cycles.

A lookup that the source unwraps (`expect`, indexing a map) is an `Option` here, and a frame is
`none` when one fails.
-/
import Rtfsn.Sync.PeerTrack
import Rtfsn.Sync.Laplacian
import Rtfsn.Lib.Bfs
import Rtfsn.Lib.Tree

namespace Rtfsn

variable {F : Type} [F64 F] {n : ℕ}

/-- One directed edge of the measured graph: what `fromNode` knows of `toNode`. -/
structure EdgeEstimate (F : Type) where
  fromNode : NodeId
  toNode : NodeId
  /-- `toNode` relative to `fromNode`, on the latter's clock. -/
  relation : Relation F
  rttFloorNs : ℕ
  samples : ℕ

/-- One node in a solved frame, relative to the reference. -/
structure NodeFrame (F : Type) where
  id : NodeId
  offsetNs : F
  drift : F
  sigmaOffsetNs : F
  sigmaDrift : F

/-- How far one edge sits from the solved frame. -/
structure EdgeResidual (F : Type) where
  fromNode : NodeId
  toNode : NodeId
  offsetNs : F
  drift : F
  zOffset : F
  zDrift : F

/-- The holonomy of one fundamental cycle of the measured graph. -/
structure CycleDefect (F : Type) where
  /-- The cycle, as walked. -/
  nodes : List NodeId
  offsetNs : F
  drift : F
  sigmaOffsetNs : F
  sigmaDrift : F
  z : F

/-- A solved network frame. -/
structure NetworkFrame (F : Type) where
  reference : NodeId
  solver : NodeId
  atNs : ℕ
  instantMapped : Bool
  nodes : List (NodeFrame F)
  unreachable : List NodeId
  edges : List (EdgeResidual F)
  cycles : List (CycleDefect F)
  rmsOffsetNs : F
  rmsDrift : F
  falsetickers : List NodeId
  outliers : List NodeId
  selectionJitterNs : F

/-- The frame of one node. -/
def NetworkFrame.node (frame : NetworkFrame F) (id : NodeId) : Option (NodeFrame F) :=
  frame.nodes.find? fun n => n.id = id

def minSigmaNs : F := F64.lit 1

def minSigmaDrift : F := F64.lit 1e-13

/-- The edge joins two nodes, with a finite offset and a rate that runs forward. -/
def EdgeEstimate.usable (e : EdgeEstimate F) : Bool :=
  decide (e.fromNode ≠ e.toNode) && F64.isFinite e.relation.offsetNs &&
    F64.isFinite e.relation.drift && F64.lt (-1) e.relation.drift

/-! ### Numbering the nodes -/

/-- Every node that is named, in order. -/
def frameIds (solver reference : NodeId) (edges : List (EdgeEstimate F)) : List NodeId :=
  (edges.foldl (fun ids e => insert e.toNode (insert e.fromNode ids))
    ({solver, reference} : Finset NodeId)).sort

/-- `ids.binary_search(&id).expect("every endpoint is listed")`. -/
def index (ids : List NodeId) (id : NodeId) : Option (Fin ids.length) := ids.finIdxOf? id

/-- A usable edge with the numbers of its ends. -/
structure Placed (F : Type) (n : ℕ) where
  edge : EdgeEstimate F
  a : Fin n
  b : Fin n

def place (ids : List NodeId) (e : EdgeEstimate F) : Option (Placed F ids.length) := do
  let a ← index ids e.fromNode
  let b ← index ids e.toNode
  return ⟨e, a, b⟩

/-- What there is to solve, by numbers: the reference, the solver, its instant and the usable
edges. -/
structure Network (F : Type) (n : ℕ) where
  r : Fin n
  me : Fin n
  atNs : ℕ
  placed : List (Placed F n)

def network (ids : List NodeId) (solver reference : NodeId) (atNs : ℕ)
    (edges : List (EdgeEstimate F)) : Option (Network F ids.length) := do
  let placed ← (edges.filter EdgeEstimate.usable).mapM (place ids)
  let r ← index ids reference
  let me ← index ids solver
  return ⟨r, me, atNs, placed⟩

/-- The relative frequency of an edge in logs, so that composition is exact. -/
def Placed.driftOb (p : Placed F n) : Obs F n where
  a := p.a
  b := p.b
  m := F64.ln1p p.edge.relation.drift
  sigma := F64.max (p.edge.relation.sigmaDrift / (1 + p.edge.relation.drift)) minSigmaDrift

/-! ### The component of the reference -/

/-- The neighbours of each node. -/
def adjacency (placed : List (Placed F n)) : Fin n → Finset (Fin n) :=
  placed.foldl (fun adj p =>
    let adj := Function.update adj p.a (insert p.b (adj p.a))
    Function.update adj p.b (insert p.a (adj p.b))) fun _ => ∅

namespace Network

/-- The neighbours in the order `for &v in &adj[u]` visits them. -/
def neighbours (net : Network F n) (u : Fin n) : List (Fin n) := (adjacency net.placed u).sort

def component (net : Network F n) : Bfs (Fin n) := Bfs.search net.neighbours net.r

def members (net : Network F n) : Finset (Fin n) := net.component.members

/-- The solver is connected to the reference. -/
def instantMapped (net : Network F n) : Bool := decide (net.me ∈ net.members)

def inside (net : Network F n) : List (Placed F n) :=
  net.placed.filter fun p => p.a ∈ net.members

/-! ### Frequencies and offsets -/

def driftObs (net : Network F n) : List (Obs F n) := net.inside.map Placed.driftOb

def logRate (net : Network F n) : Fin n → F :=
  (laplacianSolve net.r net.members net.driftObs).1

def sigmaLogRate (net : Network F n) : Fin n → F :=
  (laplacianSolve net.r net.members net.driftObs).2

/-- The instant an edge is read at, on its measuring node's clock. -/
def readAt (net : Network F n) (offset : Fin n → F) (p : Placed F n) : F :=
  if net.instantMapped then F64.ofNat net.atNs + offset p.a - offset net.me
  else F64.ofNat p.edge.relation.atNs

/-- One pass's reading of an edge. -/
def offsetOb (net : Network F n) (offset : Fin n → F) (p : Placed F n) : Obs F n where
  a := p.a
  b := p.b
  m := p.edge.relation.offsetAt (net.readAt offset p)
  sigma := F64.max (p.edge.relation.sigmaAt (net.readAt offset p)) minSigmaNs

end Network

/-- The offsets after a pass, and the readings they were solved from. -/
structure Reading (F : Type) (n : ℕ) where
  offset : Fin n → F
  sigma : Fin n → F
  obs : List (Obs F n)

namespace Network

/-- One of the three passes. -/
def pass (net : Network F n) (s : Reading F n) : Reading F n :=
  let obs := net.inside.map (net.offsetOb s.offset)
  let (o, s) := laplacianSolve net.r net.members obs
  ⟨o, s, obs⟩

/-- Three passes settle the instants the edges are read at. -/
def reading (net : Network F n) : Reading F n :=
  net.pass (net.pass (net.pass ⟨fun _ => 0, fun _ => 0, []⟩))

/-! ### Residuals -/

def residual (net : Network F n) (p : Placed F n) (oo od : Obs F n) : EdgeResidual F :=
  let ro := oo.m - (net.reading.offset oo.b - net.reading.offset oo.a)
  let rd := od.m - (net.logRate od.b - net.logRate od.a)
  { fromNode := p.edge.fromNode
    toNode := p.edge.toNode
    offsetNs := ro
    drift := rd
    zOffset := ro / oo.sigma
    zDrift := rd / od.sigma }

/-- Every edge's residual, in the order of the edges. -/
def residuals (net : Network F n) : List (EdgeResidual F) :=
  (net.inside.zip (net.reading.obs.zip net.driftObs)).map fun (p, oo, od) => net.residual p oo od

end Network

/-- Root mean square; of nothing, zero. -/
def rms (xs : List F) : F :=
  F64.sqrt (xs.foldl (fun s x => s + F64.powi x 2) 0 / F64.ofNat (max xs.length 1))

/-- The larger of the two normalised residuals. -/
def EdgeResidual.worst (e : EdgeResidual F) : F := F64.max (F64.abs e.zOffset) (F64.abs e.zDrift)

/-- `sort_by` with the larger key first. -/
def sortDescending {A : Type} (key : A → F) (xs : List A) : List A :=
  xs.mergeSort fun a b => F64.totalLe (key b) (key a)

/-! ### Cycles -/

/-- A pair's readings while they are merged. -/
structure Pair (F : Type) where
  oSum : F
  oW : F
  dSum : F
  dW : F

/-- The two ends, low to high. -/
def pairKey (a b : Fin n) : Fin n ×ₗ Fin n := toLex (if a < b then (a, b) else (b, a))

/-- The sign of walking the pair as given. -/
def pairSign (a b : Fin n) : F := if a < b then 1 else -1

/-- Add the readings of one edge to its pair. -/
def mergePair (pairs : Std.ExtTreeMap (Fin n ×ₗ Fin n) (Pair F)) (obs : Obs F n × Obs F n) :
    Std.ExtTreeMap (Fin n ×ₗ Fin n) (Pair F) :=
  let (oo, od) := obs
  let key := pairKey oo.a oo.b
  let sign := pairSign oo.a oo.b
  let p := pairs[key]?.getD ⟨0, 0, 0, 0⟩
  let wo := 1 / F64.powi oo.sigma 2
  let wd := 1 / F64.powi od.sigma 2
  pairs.insert key
    { oSum := p.oSum + sign * oo.m * wo
      oW := p.oW + wo
      dSum := p.dSum + sign * od.m * wd
      dW := p.dW + wd }

/-- Offset, variance, log rate and variance of walking `a → b`. -/
structure Step (F : Type) where
  offset : F
  offsetVar : F
  drift : F
  driftVar : F

namespace Step

def zero : Step F := ⟨0, 0, 0, 0⟩

def add (s t : Step F) : Step F :=
  ⟨s.offset + t.offset, s.offsetVar + t.offsetVar, s.drift + t.drift, s.driftVar + t.driftVar⟩

end Step

namespace Network

/-- Each pair's measurements merged, inverse-variance weighted, one oriented low to high. -/
def pairs (net : Network F n) : Std.ExtTreeMap (Fin n ×ₗ Fin n) (Pair F) :=
  (net.reading.obs.zip net.driftObs).foldl mergePair ∅

def walk (net : Network F n) (a b : Fin n) : Option (Step F) := do
  let sign := pairSign a b
  let p ← net.pairs[pairKey a b]?
  return ⟨sign * p.oSum / p.oW, 1 / p.oW, sign * p.dSum / p.dW, 1 / p.dW⟩

def depth (net : Network F n) : Fin n → ℕ :=
  Tree.depths net.component.parent net.component.order

/-- The sums around a closed walk. -/
def walkSum (net : Network F n) (nodes : List (Fin n)) : Option (Step F) :=
  (Tree.closedPairs nodes).foldlM (fun s p => (net.walk p.1 p.2).map s.add) Step.zero

/-- The defect of a closed walk from its sums. -/
def defect (name : Fin n → NodeId) (nodes : List (Fin n)) (s : Step F) : CycleDefect F :=
  let so := F64.sqrt s.offsetVar
  let sd := F64.sqrt s.driftVar
  { nodes := nodes.map name
    offsetNs := s.offset
    drift := s.drift
    sigmaOffsetNs := so
    sigmaDrift := sd
    z := F64.max (F64.abs (s.offset / so)) (F64.abs (s.drift / sd)) }

/-- The nodes of the cycle that a pair closes: the tree paths to the lowest common ancestor. -/
def cycleNodes (net : Network F n) (u v : Fin n) : Option (List (Fin n)) := do
  let (upU, upV) ←
    Tree.climb net.component.parent net.depth (net.depth u + net.depth v) u v [u] [v]
  return Tree.stitch u v upU upV

/-- The fundamental cycle of a pair. -/
def cycle (net : Network F n) (name : Fin n → NodeId) (pair : Fin n ×ₗ Fin n) :
    Option (CycleDefect F) := do
  let nodes ← net.cycleNodes (ofLex pair).1 (ofLex pair).2
  let sums ← net.walkSum nodes
  return defect name nodes sums

/-- The pair is an edge of the search tree. -/
def isTreePair (net : Network F n) (pair : Fin n ×ₗ Fin n) : Bool :=
  decide (net.component.parent (ofLex pair).2 = some (ofLex pair).1 ∨
    net.component.parent (ofLex pair).1 = some (ofLex pair).2)

/-- The measured pairs that are no tree edges. -/
def chords (net : Network F n) : List (Fin n ×ₗ Fin n) :=
  net.pairs.keys.filter fun pair => !net.isTreePair pair

/-! ### The frame -/

def nodeFrame (net : Network F n) (name : Fin n → NodeId) (i : Fin n) : NodeFrame F where
  id := name i
  offsetNs := net.reading.offset i
  drift := F64.expM1 (net.logRate i)
  sigmaOffsetNs := net.reading.sigma i
  sigmaDrift := net.sigmaLogRate i * F64.exp (net.logRate i)

/-- The frame, from the cycles in the order of their pairs. -/
def assemble (net : Network F n) (name : Fin n → NodeId) (cycles : List (CycleDefect F)) :
    NetworkFrame F where
  reference := name net.r
  solver := name net.me
  atNs := net.atNs
  instantMapped := net.instantMapped
  nodes := net.component.order.map (net.nodeFrame name)
  unreachable := ((List.finRange n).filter fun i => i ∉ net.members).map name
  edges := sortDescending EdgeResidual.worst net.residuals
  cycles := sortDescending CycleDefect.z cycles
  rmsOffsetNs := rms (net.residuals.map EdgeResidual.offsetNs)
  rmsDrift := rms (net.residuals.map EdgeResidual.drift)
  falsetickers := []
  outliers := []
  selectionJitterNs := 0

def frame (net : Network F n) (name : Fin n → NodeId) : Option (NetworkFrame F) := do
  let cycles ← net.chords.mapM (net.cycle name)
  return net.assemble name cycles

end Network

/-- The network frame. `solver` is the node whose clock `atNs` is read on; `reference` is held at
zero. -/
def solveFrame (solver reference : NodeId) (atNs : ℕ) (edges : List (EdgeEstimate F)) :
    Option (NetworkFrame F) := do
  let ids := frameIds solver reference edges
  let net ← network ids solver reference atNs edges
  net.frame ids.get

end Rtfsn
