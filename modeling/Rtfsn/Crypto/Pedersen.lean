/-
Pedersen commitments.

A value is a scalar; an `f64` is quantised to a billionth first, its sign kept. The second generator
is the crate's hash to the curve, a parameter here.
-/
import Rtfsn.Crypto.Blinding

namespace Rtfsn

structure PedersenCommitment (Point : Type) where
  point : Point
  compressed : Bytes32

structure SerializableCommitment where
  bytes : Bytes32

def SerializableCommitment.from {Point : Type} (c : PedersenCommitment Point) :
    SerializableCommitment := ⟨c.compressed⟩

namespace PedersenCommitment

variable {F Point Scalar : Type} [F64 F] [AddCommGroup Point] [CommRing Scalar]
  [Module Scalar Point] (curve : Ristretto Point Scalar) (hGenerator : Point)

def commit (value blinding : Scalar) : PedersenCommitment Point :=
  let point := value • curve.basepoint + blinding • hGenerator
  ⟨point, curve.compress point⟩

/-- The commitment to `value` in billionths; `none` where the negation overflows. -/
def commitF64 (value : F) (blinding : Scalar) : Option (PedersenCommitment Point) :=
  let quantized := F64.toI64 (value * F64.lit 1000000000)
  if 0 ≤ quantized then some (commit curve hGenerator (quantized.toNat : Scalar) blinding)
  else (checkedI64 (-quantized)).map fun n =>
    commit curve hGenerator (-(n.toNat : Scalar)) blinding

def add (c other : PedersenCommitment Point) : PedersenCommitment Point :=
  let point := c.point + other.point
  ⟨point, curve.compress point⟩

/-- The opening is that of the commitment. -/
def verify [DecidableEq Point] (c : PedersenCommitment Point) (value blinding : Scalar) : Bool :=
  decide (c.point = (commit curve hGenerator value blinding).point)

end PedersenCommitment

end Rtfsn
