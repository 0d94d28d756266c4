/-
**Network coordinates are points of Euclidean space**, `f64` read as exact reals.

* `Coordinates.toEuclidean`: the point.
* `distance_eq_dist`, `magnitude_eq_norm`: what the code measures is the distance and the norm
  there.
* `toEuclidean_subtract`, `toEuclidean_addScaled`, `toEuclidean_normalize`: what it computes is the
  arithmetic of vectors.
* `firstAxis`: the points with one coordinate, at the distance of these.
-/
import Rtfsn.Sync.Geometry

namespace Rtfsn.Coordinates

/-- The point in Euclidean space. -/
noncomputable def toEuclidean (a : Coordinates ℝ) : EuclideanSpace ℝ (Fin 6) :=
  WithLp.toLp 2 a.dims.get

@[simp] theorem toEuclidean_apply (a : Coordinates ℝ) (i : Fin 6) :
    a.toEuclidean i = a.dims.get i :=
  rfl

/-! ### What is measured -/

theorem distance_eq_dist (a b : Coordinates ℝ) :
    a.distance b = dist a.toEuclidean b.toEuclidean := by
  have listed : (Vector.zipWith (fun a b : ℝ => (a - b) ^ 2) a.dims b.dims).toList =
      List.ofFn fun i : Fin 6 => (a.dims.get i - b.dims.get i) ^ 2 := by
    refine List.ext_getElem (by simp) fun i _ _ => ?_
    rw [Vector.getElem_toList, Vector.getElem_zipWith, List.getElem_ofFn]
    rfl
  simp only [distance, F64.sqrt_real, F64.sum_real, F64.powi_real, EuclideanSpace.dist_eq, listed,
    List.sum_ofFn, toEuclidean, Real.dist_eq, sq_abs]

theorem distance_triangle (a b c : Coordinates ℝ) :
    a.distance c ≤ a.distance b + b.distance c := by
  rw [distance_eq_dist, distance_eq_dist, distance_eq_dist]
  exact dist_triangle ..

@[simp] theorem distance_self (a : Coordinates ℝ) : a.distance a = 0 := by
  rw [distance_eq_dist, dist_self]

theorem distance_comm (a b : Coordinates ℝ) : a.distance b = b.distance a := by
  rw [distance_eq_dist, distance_eq_dist, dist_comm]

theorem distance_nonneg (a b : Coordinates ℝ) : 0 ≤ a.distance b := by
  rw [distance_eq_dist]
  exact dist_nonneg

theorem magnitude_eq_norm (a : Coordinates ℝ) : a.magnitude = ‖a.toEuclidean‖ := by
  have listed : (a.dims.map fun d : ℝ => d ^ 2).toList =
      List.ofFn fun i : Fin 6 => a.dims.get i ^ 2 := by
    refine List.ext_getElem (by simp) fun i _ _ => ?_
    rw [Vector.getElem_toList, Vector.getElem_map, List.getElem_ofFn]
    rfl
  simp only [magnitude, F64.sqrt_real, F64.sum_real, F64.powi_real, EuclideanSpace.norm_eq, listed,
    List.sum_ofFn, toEuclidean, Real.norm_eq_abs, sq_abs]

/-! ### What is computed -/

theorem toEuclidean_subtract (a b : Coordinates ℝ) :
    (a.subtract b).toEuclidean = a.toEuclidean - b.toEuclidean := by
  ext i
  simp [subtract, Vector.get_eq_getElem]

theorem toEuclidean_addScaled (a direction : Coordinates ℝ) (scale : ℝ) :
    (a.addScaled direction scale).toEuclidean =
      a.toEuclidean + scale • direction.toEuclidean := by
  ext i
  simp [addScaled, Vector.get_eq_getElem, mul_comm]

/-- Normalizing a vector longer than the threshold makes it a unit vector. -/
theorem toEuclidean_normalize {a : Coordinates ℝ} (long : 1e-12 < a.magnitude) :
    a.normalize.toEuclidean = (1 / ‖a.toEuclidean‖) • a.toEuclidean := by
  have kept : ¬ a.magnitude < ((1e-12 : ℚ) : ℝ) := by
    push_cast
    exact not_lt.mpr long.le
  ext i
  simp only [normalize, F64.lt_real, F64.lit_real, decide_eq_true_eq, if_neg kept]
  simp [magnitude_eq_norm, div_eq_inv_mul]

/-! ### The first axis -/

/-- The point of one coordinate. -/
def firstAxis (x : ℝ) : Coordinates ℝ := ⟨#v[x, 0, 0, 0, 0, 0]⟩

theorem toEuclidean_firstAxis (x : ℝ) :
    (firstAxis x).toEuclidean = EuclideanSpace.single 0 x := by
  ext i
  fin_cases i <;> simp [firstAxis]

theorem norm_firstAxis (x : ℝ) : ‖(firstAxis x).toEuclidean‖ = |x| := by
  rw [toEuclidean_firstAxis, PiLp.norm_single, Real.norm_eq_abs]

theorem distance_firstAxis (x y : ℝ) : (firstAxis x).distance (firstAxis y) = |x - y| := by
  rw [distance_eq_dist, toEuclidean_firstAxis, toEuclidean_firstAxis, PiLp.dist_single_same,
    Real.dist_eq]

end Rtfsn.Coordinates
