/-
Commelec/Euclidean.lean

Vectors of reals in the interpreter are lists; those of one length form a Euclidean space.
`toVec n` reads a list as a vector with `n` coordinates, and takes `dot`, `norm`, `vecSub`
and the other operations to those of `EuclideanSpace ℝ (Fin n)`.  So distances of lists
satisfy the triangle inequality (`dist_triangle_list`).
-/
import Mathlib.Analysis.InnerProductSpace.PiL2
import Mathlib.Data.List.GetD
import Commelec.Projection

namespace Commelec

/-- The list as a vector with `n` coordinates. -/
noncomputable def toVec (n : ℕ) (x : List ℝ) : EuclideanSpace ℝ (Fin n) :=
  WithLp.toLp 2 fun i => x.getD i 0

@[simp] theorem toVec_apply (n : ℕ) (x : List ℝ) (i : Fin n) : toVec n x i = x.getD i 0 := rfl

section Vectors

variable {n : ℕ} {x y z : List ℝ}

theorem getD_zipWith {f : ℝ → ℝ → ℝ} (h : x.length = y.length) {i : ℕ} (hi : i < x.length) :
    (List.zipWith f x y).getD i 0 = f (x.getD i 0) (y.getD i 0) := by
  have hi' : i < (List.zipWith f x y).length := by
    rw [List.length_zipWith]
    omega
  rw [List.getD_eq_getElem _ _ hi', List.getD_eq_getElem _ _ hi,
    List.getD_eq_getElem _ _ (h ▸ hi), List.getElem_zipWith]

theorem sum_eq_sum_getD (hx : x.length = n) : x.sum = ∑ i : Fin n, x.getD i 0 := by
  subst hx
  rw [← List.sum_ofFn]
  congr 1
  apply List.ext_getElem
  · simp
  · intro i h₁ h₂
    simp

/-- **The dot product is the inner product.** -/
theorem dot_eq_inner (hx : x.length = n) (hy : y.length = n) :
    dot x y = inner ℝ (toVec n y) (toVec n x) := by
  have hlen : (List.zipWith (· * ·) x y).length = n := by
    rw [List.length_zipWith, hx, hy, Nat.min_self]
  rw [dot, sum_eq_sum_getD hlen, PiLp.inner_apply]
  refine Finset.sum_congr rfl fun i _ => ?_
  rw [getD_zipWith (hx.trans hy.symm) (by rw [hx]; exact i.isLt)]
  rfl

theorem norm_eq_norm (hx : x.length = n) : norm x = ‖toVec n x‖ := by
  rw [norm, squaredNorm, dot_eq_inner hx hx, real_inner_self_eq_norm_sq]
  exact Real.sqrt_sq (norm_nonneg _)

theorem squaredNorm_eq (hx : x.length = n) : squaredNorm x = ‖toVec n x‖ ^ 2 := by
  rw [squaredNorm, dot_eq_inner hx hx, real_inner_self_eq_norm_sq]

theorem length_vecSub (hx : x.length = n) (hy : y.length = n) : (vecSub x y).length = n := by
  rw [vecSub, List.length_zipWith, hx, hy, Nat.min_self]

theorem length_vecAdd (hx : x.length = n) (hy : y.length = n) : (vecAdd x y).length = n := by
  rw [vecAdd, List.length_zipWith, hx, hy, Nat.min_self]

theorem length_vecScale (c : ℝ) (hx : x.length = n) : (vecScale c x).length = n := by
  rw [vecScale, List.length_map, hx]

theorem toVec_vecSub (hx : x.length = n) (hy : y.length = n) :
    toVec n (vecSub x y) = toVec n x - toVec n y := by
  ext i
  exact getD_zipWith (hx.trans hy.symm) (by rw [hx]; exact i.isLt)

theorem toVec_vecAdd (hx : x.length = n) (hy : y.length = n) :
    toVec n (vecAdd x y) = toVec n x + toVec n y := by
  ext i
  exact getD_zipWith (hx.trans hy.symm) (by rw [hx]; exact i.isLt)

theorem toVec_map {f : ℝ → ℝ} (hx : x.length = n) (i : Fin n) :
    toVec n (x.map f) i = f (x.getD i 0) := by
  have hi : (i : ℕ) < x.length := by
    rw [hx]
    exact i.isLt
  rw [toVec_apply, List.getD_eq_getElem _ _ (by rwa [List.length_map]),
    List.getD_eq_getElem _ _ hi, List.getElem_map]

theorem toVec_vecScale (c : ℝ) (hx : x.length = n) :
    toVec n (vecScale c x) = c • toVec n x := by
  ext i
  exact toVec_map hx i

/-- The distance of two lists. -/
theorem dist_eq_norm_sub (hx : x.length = n) (hy : y.length = n) :
    dist x y = ‖toVec n x - toVec n y‖ := by
  rw [dist, norm_eq_norm (length_vecSub hx hy), toVec_vecSub hx hy]

theorem dist_comm_list (h : x.length = y.length) : dist x y = dist y x := by
  rw [dist_eq_norm_sub h rfl, dist_eq_norm_sub rfl h, norm_sub_rev]

theorem dist_self_list (x : List ℝ) : dist x x = 0 := by
  rw [dist_eq_norm_sub rfl rfl, sub_self, norm_zero]

theorem dist_triangle_list (hx : x.length = n) (hy : y.length = n) (hz : z.length = n) :
    dist x z ≤ dist x y + dist y z := by
  rw [dist_eq_norm_sub hx hz, dist_eq_norm_sub hx hy, dist_eq_norm_sub hy hz]
  exact norm_sub_le_norm_sub_add_norm_sub _ _ _

end Vectors

end Commelec
