/-
The raw measurement between two nodes, and the table of them.

* `TwistIndex.fromExchange`: the integer encoding of one exchange, with the casts as the source
  makes them.
* `TwistLUT`: every measurement by edge, each oriented along its edge key (smaller id to larger
  id). The source's hash map is read by key, except in `neighbors`, which lists its keys.
* `TwistLUT.loopHolonomy`: the sum of offsets around a path. Its `i64` sums are checked: the outer
  `none` is the panic of an overflow, the inner one what the source returns.
-/
import Rtfsn.Checked
import Rtfsn.Types

namespace Rtfsn

/-- The four timestamps of one exchange: `t1`, `t4` on the initiator's clock, `t2`, `t3` on the
responder's, each a `u64`. -/
structure Exchange where
  t1 : ℕ
  t2 : ℕ
  t3 : ℕ
  t4 : ℕ

/-- Integer-basis encoding of the measurement between two nodes. -/
structure TwistIndex where
  rttNanos : ℕ
  offsetNanos : ℤ
  asymmetryNanos : ℤ
  quality : ℕ
  epochMeasured : ℕ

namespace TwistIndex

def fromExchange (e : Exchange) : TwistIndex where
  rttNanos := wrapU64 ((e.t4 - e.t1 : ℤ) - (e.t3 - e.t2))
  offsetNanos := wrapI64 (Int.tdiv ((e.t2 - e.t1 : ℤ) + (e.t3 - e.t4)) 2)
  asymmetryNanos := wrapI64 ((e.t2 - e.t1 : ℤ) - (e.t4 - e.t3))
  quality := 100
  epochMeasured := 0

/-- `i64::saturating_neg`. -/
def saturatingNeg (z : ℤ) : ℤ := if z = -2 ^ 63 then maxI64 else -z

/-- The same measurement read from the other end. -/
def reversed (twist : TwistIndex) : TwistIndex :=
  { twist with
    offsetNanos := saturatingNeg twist.offsetNanos
    asymmetryNanos := saturatingNeg twist.asymmetryNanos }

end TwistIndex

/-- The lookup table of all pairwise measurements. -/
structure TwistLUT where
  entries : Std.ExtTreeMap (NodeId ×ₗ NodeId) (List TwistIndex)

namespace TwistLUT

def new : TwistLUT := ⟨∅⟩

def edgeKey (a b : NodeId) : NodeId × NodeId := if a < b then (a, b) else (b, a)

/-- Record a measurement `a` made of `b`. -/
def insert (lut : TwistLUT) (a b : NodeId) (twist : TwistIndex) : TwistLUT :=
  let key := edgeKey a b
  let twist := if key.1 ≠ a then twist.reversed else twist
  ⟨lut.entries.insert (toLex key) ((lut.entries[toLex key]?).getD [] ++ [twist])⟩

/-- Keep at most the `maxPerEdge` newest measurements on every edge. -/
def trim (lut : TwistLUT) (maxPerEdge : ℕ) : TwistLUT :=
  ⟨lut.entries.map fun _ v =>
    if maxPerEdge < v.length then v.drop (v.length - maxPerEdge) else v⟩

def get (lut : TwistLUT) (a b : NodeId) : Option (List TwistIndex) :=
  lut.entries[toLex (edgeKey a b)]?

def latest (lut : TwistLUT) (a b : NodeId) : Option TwistIndex :=
  (lut.get a b).bind List.getLast?

/-- The nodes at the other end of an edge at `node`. -/
def neighbors (lut : TwistLUT) (order : HashOrder (NodeId ×ₗ NodeId)) (node : NodeId) :
    List NodeId :=
  (order.arrange lut.entries.keys).filterMap fun key =>
    let (a, b) := ofLex key
    if a = node then some b else if b = node then some a else none

/-- One turn of the loop around a path. -/
def addStep (lut : TwistLUT) (total : ℤ) (a b : NodeId) : Option (Option ℤ) :=
  match lut.latest a b with
  | none => some none
  | some twist =>
    if (edgeKey a b).1 = a then (checkedI64 (total + twist.offsetNanos)).map some
    else (checkedI64 (total - twist.offsetNanos)).map some

/-- The loop around a path, with `total` so far. -/
def walk (lut : TwistLUT) (total : ℤ) : List (NodeId × NodeId) → Option (Option ℤ)
  | [] => some (some total)
  | (a, b) :: steps =>
    match lut.addStep total a b with
    | none => none
    | some none => some none
    | some (some total) => walk lut total steps

/-- Sum of the offsets around a loop: zero for a consistent geometry. -/
def loopHolonomy (lut : TwistLUT) (path : List NodeId) : Option (Option ℤ) :=
  if path.length < 3 then some none
  else lut.walk 0 ((List.finRange path.length).map fun i =>
    (path.get i, path.get ⟨(i + 1) % path.length, Nat.mod_lt _ i.pos⟩))

end TwistLUT

end Rtfsn
