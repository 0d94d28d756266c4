/-
`solve_absolute`: every clock against UTC, from the consensus of the anchors.

* `solveWith`: the frame with an edge from UTC to every chosen anchor.
* `selectTurn`: one turn of the selection. The anchor that UTC's worst edge leads to is set aside.
* `clusterTurn`: one turn of the clustering. The anchor farthest from the others is set aside.
* `solveAbsolute`: both loops, on fuel. It fails where the source would not return: when a frame
  cannot be solved, or the fuel does not suffice.
-/
import Rtfsn.Sync.RelationalClock

namespace Rtfsn

variable {F : Type} [F64 F]

/-- Anchors kept however far apart: below this the cluster step stops. -/
def minSurvivors : ℕ := 3

/-- An anchor past this many robust spreads from the median of the ensemble is an outlier. -/
def clusterK : F := F64.lit 4

/-- The smallest spread the cluster step assumes. -/
def minSpreadNs : F := F64.lit 50000

/-- `max_by`: the last of the largest. -/
def maxBy {A : Type} (key : A → F) : List A → Option A
  | [] => none
  | first :: rest =>
    some (rest.foldl (fun best x => if F64.totalLe (key best) (key x) then x else best) first)

/-- `sort_by(f64::total_cmp)`. -/
def sortAscending (xs : List F) : List F := xs.mergeSort F64.totalLe

/-- The median of a sorted list. -/
def middle (v : List F) : Option F :=
  let n := v.length
  if n % 2 = 1 then v[n / 2]?
  else do
    let low ← v[n / 2 - 1]?
    let high ← v[n / 2]?
    return (low + high) / F64.lit 2

/-- The median and the robust spread, 1.4826 times the median absolute deviation. -/
def robustSpread (xs : List F) : Option (F × F) :=
  if xs.isEmpty then some (0, minSpreadNs)
  else do
    let v := sortAscending xs
    let m ← middle v
    let deviation ← middle (sortAscending (v.map fun x => F64.abs (x - m)))
    return (m, F64.max (F64.lit 1.4826 * deviation) minSpreadNs)

/-- The edge from UTC to an anchor, as wide as the anchor's distance from it. -/
def anchorEdge (atNs : ℕ) (a : Anchor F) : EdgeEstimate F where
  fromNode := utc
  toNode := a.node
  relation :=
    { atNs := atNs
      offsetNs := 0
      drift := 0
      sigmaOffsetNs := F64.max a.sigmaOffsetNs minSigmaNs
      sigmaDrift := F64.max a.sigmaDrift minSigmaDrift }
  rttFloorNs := 0
  samples := 0

/-- The anchors still chosen, and those set aside. -/
structure Selection (F : Type) where
  chosen : List (Anchor F)
  aside : List NodeId

/-- Set a node aside. -/
def Selection.remove (s : Selection F) (node : NodeId) : Selection F :=
  ⟨s.chosen.filter fun a => a.node ≠ node, s.aside ++ [node]⟩

namespace RelationalClock

/-- Every end of a known edge. -/
def measured (clock : RelationalClock F) : Finset NodeId :=
  (clock.known.flatMap fun e => [e.fromNode, e.toNode]).toFinset

/-- The anchors that some measurement ties to the network. -/
def measuredAnchors (clock : RelationalClock F) : List (Anchor F) :=
  clock.anchorList.filter fun a => a.node ∈ clock.measured

/-- The frame against UTC with the chosen anchors. -/
def solveWith (clock : RelationalClock F) (atNs : ℕ) (chosen : List (Anchor F)) :
    Option (NetworkFrame F) :=
  solveFrame clock.me utc atNs (clock.known ++ chosen.map (anchorEdge atNs))

/-- UTC's edge that sits farthest from the consensus, in its own spreads. -/
def worstEdge (frame : NetworkFrame F) : Option (EdgeResidual F) :=
  maxBy (fun e => F64.abs e.zOffset) (frame.edges.filter fun e => e.fromNode = utc)

/-- One turn of the selection: another with an anchor fewer, or the frame to go on with. -/
def selectTurn (clock : RelationalClock F) (atNs : ℕ) (s : Selection F) :
    Option (Selection F ⊕ (Selection F × NetworkFrame F)) := do
  let frame ← clock.solveWith atNs s.chosen
  match worstEdge frame with
  | some w =>
    if 3 ≤ s.chosen.length ∧ F64.lt (F64.lit 5) (F64.abs w.zOffset) then
      return .inl (s.remove w.toNode)
    else return .inr (s, frame)
  | none => return .inr (s, frame)

/-- The chosen anchors' offsets in a frame. -/
def anchorOffsets (chosen : List (Anchor F)) (frame : NetworkFrame F) : List (NodeId × F) :=
  chosen.filterMap fun a => (frame.node a.node).map fun n => (a.node, n.offsetNs)

/-- One turn of the clustering. -/
def clusterTurn (clock : RelationalClock F) (atNs : ℕ) :
    Selection F × NetworkFrame F →
      Option ((Selection F × NetworkFrame F) ⊕ (Selection F × NetworkFrame F))
  | (s, frame) => do
    let offsets := anchorOffsets s.chosen frame
    let (median, spread) ← robustSpread (offsets.map Prod.snd)
    let frame := { frame with selectionJitterNs := spread }
    if s.chosen.length ≤ minSurvivors then return .inr (s, frame)
    match maxBy (fun x => F64.abs (x.2 - median)) offsets with
    | none => return .inr (s, frame)
    | some (worst, off) =>
      if F64.le (F64.abs (off - median)) (clusterK * spread) then return .inr (s, frame)
      let s := s.remove worst
      let frame ← clock.solveWith atNs s.chosen
      return .inl (s, frame)

/-- The absolute frame; `none` without an anchor that is measured. -/
def solveAbsolute (clock : RelationalClock F) (atNs fuel : ℕ) :
    Except Loop.Halt (Option (NetworkFrame F)) :=
  if clock.measuredAnchors.isEmpty then return none
  else do
    let (s, frame) ←
      Loop.repeatUntil (clock.selectTurn atNs) fuel ⟨clock.measuredAnchors, []⟩
    let (t, frame) ←
      Loop.repeatUntil (clock.clusterTurn atNs) fuel (⟨s.chosen, []⟩, frame)
    return some { frame with falsetickers := s.aside, outliers := t.aside }

end RelationalClock

end Rtfsn
