/-
Commelec/SeidelExact.lean

The solver is exact in the plane where the tolerance makes no difference.

The planes are half-spaces of the plane with homogeneous coordinates: `n_vec * x / d_vec * x` is
to be smallest, where plane 0 is `d_vec = (0, 0, 1)`.  The condition on the planes is that the
determinants on which the code decides are zero, or clearly not zero (`Separated`).

`Best` says that a vector is feasible and no feasible vector has a smaller quotient.  If the best
vector for the planes so far offends the next plane, then the best one on that plane is the best
for all of them (`Best.onPlane`): the segment from a feasible vector to the old optimum crosses the
plane.  So the loop ends with the best vector for all planes, or there is none
(`seidel_two_exact`).
-/
import Commelec.SeidelFeasible
import Commelec.WedgeExact

namespace Commelec

open Double Effectful Outcome LinkedList

namespace Lp

/-! ### Determinants -/

section Det

variable (u v p : List ℝ) (a b : ℕ)

def minor : ℝ := u.getD a 0 * v.getD b 0 - u.getD b 0 * v.getD a 0

def det : ℝ :=
  p.getD 0 0 * minor u v 1 2 - p.getD 1 0 * minor u v 0 2 + p.getD 2 0 * minor u v 0 1

/-- The projection of a plane on plane `p`, without its coordinate `m`. -/
noncomputable def proj (p : List ℝ) (m : ℕ) (v : List ℝ) : ℝ × ℝ := firstTwo (projectPlane p m v)

variable {u v p} {m : ℕ} {low : ℝ × ℝ}

theorem planeDown_eq (p : List ℝ) (m : ℕ) (v : List ℝ) : planeDown p m v = projectPlane p m v := by
  simp only [planeDown, projectPlane, div_eq_mul_one_div (v.getD m 0)]

theorem eq_or_of_le_two (hm : m ≤ 2) : m = 0 ∨ m = 1 ∨ m = 2 := by omega

/-- The two coordinates of a projection are minors. -/
theorem mul_proj (hp : p.length = 3) (hv : v.length = 3) (hm : m ≤ 2) (hne : p.getD m 0 ≠ 0) :
    ∃ a b, a < 3 ∧ b < 3 ∧ p.getD m 0 * (proj p m v).1 = minor p v m a ∧
      p.getD m 0 * (proj p m v).2 = minor p v m b := by
  obtain ⟨p0, p1, p2, rfl⟩ := List.length_eq_three.mp hp
  obtain ⟨v0, v1, v2, rfl⟩ := List.length_eq_three.mp hv
  rcases eq_or_of_le_two hm with rfl | rfl | rfl
  · refine ⟨1, 2, by omega, by omega, ?_, ?_⟩
    · simp [proj, projectPlane, firstTwo, minor] at hne ⊢
      field_simp
    · simp [proj, projectPlane, firstTwo, minor] at hne ⊢
      field_simp
  · refine ⟨0, 2, by omega, by omega, ?_, ?_⟩
    · simp [proj, projectPlane, firstTwo, minor] at hne ⊢
      field_simp
    · simp [proj, projectPlane, firstTwo, minor] at hne ⊢
      field_simp
  · refine ⟨0, 1, by omega, by omega, ?_, ?_⟩
    · simp [proj, projectPlane, firstTwo, minor] at hne ⊢
      field_simp
    · simp [proj, projectPlane, firstTwo, minor] at hne ⊢
      field_simp

/-- Only multiples of plane `p` are projected to zero. -/
theorem minor_of_proj (hp : p.length = 3) (hv : v.length = 3) (hm : m ≤ 2) (hne : p.getD m 0 ≠ 0)
    (hzero : proj p m v = 0) {a b : ℕ} (ha : a < 3) (hb : b < 3) : minor p v a b = 0 := by
  have hmul : ∀ a < 3, v.getD a 0 = p.getD a 0 * (v.getD m 0 / p.getD m 0) := by
    obtain ⟨p0, p1, p2, rfl⟩ := List.length_eq_three.mp hp
    obtain ⟨v0, v1, v2, rfl⟩ := List.length_eq_three.mp hv
    intro a ha
    rcases eq_or_of_le_two hm with rfl | rfl | rfl
    · simp [proj, projectPlane, firstTwo, Prod.ext_iff] at hne hzero
      rcases eq_or_of_le_two (Nat.le_of_lt_succ ha) with rfl | rfl | rfl
      · simp [mul_div_cancel₀, hne]
      · simp
        linear_combination hzero.1
      · simp
        linear_combination hzero.2
    · simp [proj, projectPlane, firstTwo, Prod.ext_iff] at hne hzero
      rcases eq_or_of_le_two (Nat.le_of_lt_succ ha) with rfl | rfl | rfl
      · simp
        linear_combination hzero.1
      · simp [mul_div_cancel₀, hne]
      · simp
        linear_combination hzero.2
    · simp [proj, projectPlane, firstTwo, Prod.ext_iff] at hne hzero
      rcases eq_or_of_le_two (Nat.le_of_lt_succ ha) with rfl | rfl | rfl
      · simp
        linear_combination hzero.1
      · simp
        linear_combination hzero.2
      · simp [mul_div_cancel₀, hne]
  rw [minor, hmul a ha, hmul b hb]
  ring

/-- **The determinant** of three planes, in the projection on one of them. -/
theorem abs_mul_cross_proj (hp : p.length = 3) (hu : u.length = 3) (hv : v.length = 3)
    (hm : m ≤ 2) (hne : p.getD m 0 ≠ 0) :
    |p.getD m 0 * Planar.cross (proj p m u) (proj p m v)| = |det p u v| := by
  obtain ⟨p0, p1, p2, rfl⟩ := List.length_eq_three.mp hp
  obtain ⟨u0, u1, u2, rfl⟩ := List.length_eq_three.mp hu
  obtain ⟨v0, v1, v2, rfl⟩ := List.length_eq_three.mp hv
  rcases eq_or_of_le_two hm with rfl | rfl | rfl
  · congr 1
    simp [proj, projectPlane, firstTwo, minor, det, Planar.cross] at hne ⊢
    field_simp
    ring
  · rw [← abs_neg]
    congr 1
    simp [proj, projectPlane, firstTwo, minor, det, Planar.cross] at hne ⊢
    field_simp
    ring
  · congr 1
    simp [proj, projectPlane, firstTwo, minor, det, Planar.cross] at hne ⊢
    field_simp
    ring

theorem sq_sub_mul_le {x z r : ℝ} (hr : |r| ≤ 1) : (x - z * r) ^ 2 ≤ 3 * x ^ 2 + 3 / 2 * z ^ 2 := by
  have hr2 : r ^ 2 ≤ 1 := (sq_le_one_iff_abs_le_one r).mpr hr
  have hz : z ^ 2 * r ^ 2 ≤ z ^ 2 * 1 := mul_le_mul_of_nonneg_left hr2 (sq_nonneg z)
  have hsquare := sq_nonneg (2 * x + z * r)
  nlinarith

/-- A projection along the largest coordinate is not much longer than the plane. -/
theorem len_proj (hp : p.length = 3) (hv : v.length = 3) (hm : m ≤ 2)
    (hmax : ∀ a ≤ 2, |p.getD a 0| ≤ |p.getD m 0|) : len (proj p m v) ^ 2 ≤ 3 * dot v v := by
  have hratio (a : ℕ) (ha : a ≤ 2) : |p.getD a 0 / p.getD m 0| ≤ 1 := by
    rw [abs_div]
    exact div_le_one_of_le₀ (hmax a ha) (abs_nonneg _)
  have hbound (x y z r s : ℝ) (hr : |r| ≤ 1) (hs : |s| ≤ 1) :
      (x - z * r) ^ 2 + (y - z * s) ^ 2 ≤ 3 * (x ^ 2 + y ^ 2 + z ^ 2) := by
    have hx := sq_sub_mul_le (x := x) (z := z) hr
    have hy := sq_sub_mul_le (x := y) (z := z) hs
    linarith
  rw [← dot_self_eq_len]
  have h0 := hratio 0 (by omega)
  have h1 := hratio 1 (by omega)
  have h2 := hratio 2 le_rfl
  obtain ⟨p0, p1, p2, rfl⟩ := List.length_eq_three.mp hp
  obtain ⟨v0, v1, v2, rfl⟩ := List.length_eq_three.mp hv
  rcases eq_or_of_le_two hm with rfl | rfl | rfl
  · have h := hbound v1 v2 v0 (p1 / p0) (p2 / p0) h1 h2
    simp [proj, projectPlane, firstTwo, Planar.dot, dot]
    calc _ = (v1 - v0 * (p1 / p0)) ^ 2 + (v2 - v0 * (p2 / p0)) ^ 2 := by ring
      _ ≤ _ := by linarith
  · have h := hbound v0 v2 v1 (p0 / p1) (p2 / p1) h0 h2
    simp [proj, projectPlane, firstTwo, Planar.dot, dot]
    calc _ = (v0 - v1 * (p0 / p1)) ^ 2 + (v2 - v1 * (p2 / p1)) ^ 2 := by ring
      _ ≤ _ := by linarith
  · have h := hbound v0 v1 v2 (p0 / p2) (p1 / p2) h0 h1
    simp [proj, projectPlane, firstTwo, Planar.dot, dot]
    calc _ = (v0 - v2 * (p0 / p2)) ^ 2 + (v1 - v2 * (p1 / p2)) ^ 2 := by ring
      _ ≤ _ := by linarith

/-- The back substitution of a pair. -/
noncomputable def lift (p : List ℝ) (m : ℕ) (low : ℝ × ℝ) : List ℝ := vectorUp p m [low.1, low.2]

/-- A back substitution into the largest coordinate is not much longer than the pair. -/
theorem dot_lift_le (low : ℝ × ℝ) (hp : p.length = 3) (hm : m ≤ 2)
    (hmax : ∀ a ≤ 2, |p.getD a 0| ≤ |p.getD m 0|) :
    dot (lift p m low) (lift p m low) ≤ 3 * Planar.dot low low := by
  have hratio (a : ℕ) (ha : a ≤ 2) : (p.getD a 0 / p.getD m 0) ^ 2 ≤ 1 := by
    rw [sq_le_one_iff_abs_le_one, abs_div]
    exact div_le_one_of_le₀ (hmax a ha) (abs_nonneg _)
  -- Cauchy-Schwarz, with coefficients of at most one
  have hcauchy (a b : ℝ) (ha : a ^ 2 ≤ 1) (hb : b ^ 2 ≤ 1) :
      (low.1 * a + low.2 * b) ^ 2 ≤ 2 * Planar.dot low low := by
    have hsquare := sq_nonneg (low.1 * b - low.2 * a)
    have h1 := mul_le_mul_of_nonneg_left ha (sq_nonneg low.1)
    have h2 := mul_le_mul_of_nonneg_left ha (sq_nonneg low.2)
    have h3 := mul_le_mul_of_nonneg_left hb (sq_nonneg low.1)
    have h4 := mul_le_mul_of_nonneg_left hb (sq_nonneg low.2)
    rw [Planar.dot]
    nlinarith
  have h0 := hratio 0 (by omega)
  have h1 := hratio 1 (by omega)
  have h2 := hratio 2 le_rfl
  rw [lift, squaredNorm_vectorUp (by exact hm), dot_pair low rfl]
  -- the coordinate that is put back is the combination with the two other ratios
  have hsum : ∃ a b : ℝ, a ^ 2 ≤ 1 ∧ b ^ 2 ≤ 1 ∧
      dot [low.1, low.2] (p.eraseIdx m) / p.getD m 0 = low.1 * a + low.2 * b := by
    obtain ⟨p0, p1, p2, rfl⟩ := List.length_eq_three.mp hp
    rcases eq_or_of_le_two hm with rfl | rfl | rfl
    · refine ⟨p1 / p0, p2 / p0, h1, h2, ?_⟩
      simp [dot]
      ring
    · refine ⟨p0 / p1, p2 / p1, h0, h2, ?_⟩
      simp [dot]
      ring
    · refine ⟨p0 / p2, p1 / p2, h0, h1, ?_⟩
      simp [dot]
      ring
  obtain ⟨a, b, ha, hb, heq⟩ := hsum
  have := hcauchy a b ha hb
  have hfirst : Planar.dot low (firstTwo [low.1, low.2]) = Planar.dot low low := rfl
  rw [heq, hfirst]
  linarith

end Det

/-! ### Planes that are clearly different -/

/-- A number is zero, or clearly not. -/
def Clear (a : ℝ) : Prop := a = 0 ∨ 10 * EPS ≤ |a|

/-- The numbers on which the code decides are clear; the planes and the objective are normalised,
and plane 0 is the denominator of the objective. -/
structure Separated (plane : ℕ → List ℝ) (order : List ℕ) (n_vec d_vec : List ℝ) : Prop where
  zero : plane 0 = d_vec
  length {j : ℕ} : j ∈ order → (plane j).length = 3
  unit {j : ℕ} : j ∈ order → dot (plane j) (plane j) = 1
  numerator : n_vec.length = 3 ∧ dot n_vec n_vec = 1
  orthogonal : dot n_vec d_vec = 0
  row {j : ℕ} : j ∈ order → j ≠ 0 → ∃ a b, a < 3 ∧ b < 3 ∧ minor (plane j) d_vec a b ≠ 0
  normal {j : ℕ} : j ∈ order → Clear (dot n_vec (plane j))
  minor {i j a b : ℕ} : i ∈ order → j ∈ order → a < 3 → b < 3 →
    Clear (minor (plane i) (plane j) a b)
  vertex {i j k : ℕ} : i ∈ order → j ∈ order → k ∈ order →
    Clear (det (plane i) (plane j) (plane k))
  objective {j : ℕ} : j ∈ order → Clear (det (plane j) n_vec d_vec)
  pole {i j : ℕ} : i ∈ order → j ∈ order →
    Clear (det (plane i) n_vec d_vec * det (plane i) (plane j) d_vec)

/-- The coordinate that a projection on plane `p` eliminates. -/
structure Pivot (p : List ℝ) (m : ℕ) : Prop where
  length : p.length = 3
  le_two : m ≤ 2
  ne : p.getD m 0 ≠ 0
  max {a : ℕ} : a ≤ 2 → |p.getD a 0| ≤ |p.getD m 0|
  le_one : |p.getD m 0| ≤ 1

section Pivot

variable {p u v z : List ℝ} {m : ℕ} {low : ℝ × ℝ} {a : ℝ}

theorem pivot_findimax (hlen : p.length = 3) (hunit : dot p p = 1) : Pivot p (findimax p 2) where
  length := hlen
  le_two := findimax_le p 2
  ne := findimax_ne hlen (by rw [hunit]; exact one_ne_zero)
  max ha := le_findimax p ha
  le_one := by
    have hm := findimax_le p 2
    generalize findimax p 2 = m at hm
    rw [← sq_le_one_iff_abs_le_one, ← hunit]
    obtain ⟨p0, p1, p2, rfl⟩ := List.length_eq_three.mp hlen
    have h0 := sq_nonneg p0
    have h1 := sq_nonneg p1
    have h2 := sq_nonneg p2
    rcases eq_or_of_le_two hm with rfl | rfl | rfl
    · simp [dot]
      linarith
    · simp [dot]
      linarith
    · simp [dot]
      linarith

theorem Clear.of_mul (h : Clear (p.getD m 0 * a)) (hp : Pivot p m) : Clear a := by
  rcases h with h | h
  · exact .inl ((mul_eq_zero.mp h).resolve_left hp.ne)
  · rw [abs_mul] at h
    exact .inr (h.trans (mul_le_of_le_one_left (abs_nonneg a) hp.le_one))

theorem Pivot.dot_lift (hp : Pivot p m) (hv : v.length = 3) (low : ℝ × ℝ) :
    dot (lift p m low) v = Planar.dot low (proj p m v) := by
  have hlen : (projectPlane p m v).length = 2 :=
    length_down (d := 1) hp.le_two hp.length hv
  have hm : m ≤ [low.1, low.2].length := hp.le_two
  rw [lift, ← dot_projectPlane hm hp.length hv hp.ne, dot_pair low hlen]
  rfl

theorem Pivot.dot_lift_self (hp : Pivot p m) (low : ℝ × ℝ) : dot (lift p m low) p = 0 := by
  have hm : m ≤ [low.1, low.2].length := hp.le_two
  exact dot_vectorUp_self hm hp.length hp.ne

theorem Pivot.length_lift (hp : Pivot p m) (low : ℝ × ℝ) : (lift p m low).length = 3 := by
  have hm : m ≤ [low.1, low.2].length := hp.le_two
  exact length_vectorUp p hm

/-- Each vector of the plane is a back substitution. -/
theorem Pivot.exists_lift (hp : Pivot p m) (hz : z.length = 3) (hzp : dot z p = 0) :
    ∃ low, lift p m low = z := by
  obtain ⟨hlen, hm, hne, -, -⟩ := hp
  obtain ⟨p0, p1, p2, rfl⟩ := List.length_eq_three.mp hlen
  obtain ⟨z0, z1, z2, rfl⟩ := List.length_eq_three.mp hz
  simp only [dot, List.zipWith_cons_cons, List.zipWith_nil_left, List.sum_cons, List.sum_nil] at hzp
  rcases eq_or_of_le_two hm with rfl | rfl | rfl
  · refine ⟨(z1, z2), ?_⟩
    simp [lift, vectorUp_eq, dot] at hne ⊢
    field_simp
    linarith
  · refine ⟨(z0, z2), ?_⟩
    simp [lift, vectorUp_eq, dot] at hne ⊢
    field_simp
    linarith
  · refine ⟨(z0, z1), ?_⟩
    simp [lift, vectorUp_eq, dot] at hne ⊢
    field_simp
    linarith

end Pivot

section Separated

variable {plane : ℕ → List ℝ} {order front : List ℕ} {n_vec d_vec : List ℝ} {i j k m : ℕ}

/-- The half-planes of the projections on plane `i`. -/
noncomputable def halves (plane : ℕ → List ℝ) (i m j : ℕ) : ℝ × ℝ := proj (plane i) m (plane j)

variable (hsep : Separated plane order n_vec d_vec) (hp : Pivot (plane i) m) (hi : i ∈ order)

include hsep hp in
theorem Separated.len_le (hj : j ∈ order) : len (halves plane i m j) ^ 2 ≤ 3 := by
  have hle := len_proj hp.length (hsep.length hj) hp.le_two fun a => hp.max
  rwa [hsep.unit hj, mul_one] at hle

include hsep hp in
theorem Separated.len_mul_len_le (hj : j ∈ order) (hk : k ∈ order) :
    len (halves plane i m j) * len (halves plane i m k) ≤ 3 := by
  have h1 := hsep.len_le hp hj
  have h2 := hsep.len_le hp hk
  have hsquare := sq_nonneg (len (halves plane i m j) - len (halves plane i m k))
  linarith

include hsep hp hi in
theorem Separated.clear_cross (hj : j ∈ order) (hk : k ∈ order) :
    Clear (Planar.cross (halves plane i m j) (halves plane i m k)) := by
  have habs := abs_mul_cross_proj hp.length (hsep.length hj) (hsep.length hk) hp.le_two hp.ne
  refine Clear.of_mul ?_ hp
  rcases hsep.vertex hi hj hk with hzero | hlarge
  · rw [hzero, abs_zero, abs_eq_zero] at habs
    exact .inl habs
  · rw [← habs] at hlarge
    exact .inr hlarge

include hsep hp hi in
theorem Separated.short (hj : j ∈ order) :
    halves plane i m j = 0 ∨ 2 * EPS ≤ len (halves plane i m j) := by
  have hE := EPS_pos
  obtain ⟨a, b, ha, hb, hfst, hsnd⟩ := mul_proj hp.length (hsep.length hj) hp.le_two hp.ne
  have hclear1 : Clear (halves plane i m j).1 := by
    refine Clear.of_mul (p := plane i) ?_ hp
    rw [halves, hfst]
    exact hsep.minor hi hj (by have := hp.le_two; omega) ha
  have hclear2 : Clear (halves plane i m j).2 := by
    refine Clear.of_mul (p := plane i) ?_ hp
    rw [halves, hsnd]
    exact hsep.minor hi hj (by have := hp.le_two; omega) hb
  have hle (c : ℝ) (hc : c ^ 2 ≤ Planar.dot (halves plane i m j) (halves plane i m j))
      (hlarge : 10 * EPS ≤ |c|) : 2 * EPS ≤ len (halves plane i m j) := by
    have := Real.abs_le_sqrt hc
    rw [len]
    linarith
  rcases hclear1 with h1 | h1
  · rcases hclear2 with h2 | h2
    · exact .inl (Prod.ext h1 h2)
    · refine .inr (hle _ ?_ h2)
      rw [Planar.dot, sq]
      exact le_add_of_nonneg_left (mul_self_nonneg _)
  · refine .inr (hle _ ?_ h1)
    rw [Planar.dot, sq]
    exact le_add_of_nonneg_right (mul_self_nonneg _)

include hsep hp hi in
/-- **The smaller problem** is one where the tolerance makes no difference. -/
theorem Separated.distinct (hfront : front ⊆ order) : Distinct (halves plane i m) front where
  short hj := hsep.short hp hi (hfront hj)
  edge {j k} hj hk := by
    have hE := EPS_pos
    refine (hsep.clear_cross hp hi (hfront hj) (hfront hk)).imp_right fun hlarge => ?_
    have hlen := hsep.len_le hp (hfront hj)
    have hlen2 : len (halves plane i m j) ≤ 2 := by nlinarith
    nlinarith

include hsep hp in
/-- A vector along the edge of a plane, back substituted, is clearly on one side of each plane. -/
theorem Separated.sharp_lift (hi : i ∈ order) (hfront : front ⊆ order) {low : ℝ × ℝ}
    (hedge : OnEdge (halves plane i m) front low) (hj : j ∈ order) :
    dot (lift (plane i) m low) (plane j) = 0 ∨
      10 / 3 * EPS * norm (lift (plane i) m low) ≤ |dot (lift (plane i) m low) (plane j)| := by
  have hE := EPS_pos
  obtain ⟨hunit, k, hk, s, hs, hlen, hturn⟩ := hedge
  have hmul := OnEdge.mul_dot hturn (halves plane i m j)
  rw [hp.dot_lift (hsep.length hj), ← halves]
  rcases hsep.clear_cross hp hi (hfront hk) hj with hzero | hlarge
  · rw [hzero, neg_zero] at hmul
    exact .inl ((mul_eq_zero.mp hmul).resolve_left hs)
  · rw [← abs_neg, ← hmul, abs_mul, hlen] at hlarge
    have hup := dot_lift_le low hp.length hp.le_two fun a => hp.max
    rw [hunit, mul_one] at hup
    have hnorm : norm (lift (plane i) m low) ^ 2 ≤ 3 := by
      rwa [norm, squaredNorm, sqrt_real, Real.sq_sqrt (squaredNorm_nonneg' _)]
    have hlen3 := hsep.len_le hp (hfront hk)
    have hprod : len (halves plane i m k) * norm (lift (plane i) m low) ≤ 3 := by
      have hsquare := sq_nonneg (len (halves plane i m k) - norm (lift (plane i) m low))
      linarith
    refine .inr (le_of_mul_le_mul_left ?_ (show 0 < len (halves plane i m k) by
      rw [← hlen]; exact abs_pos.mpr hs))
    calc len (halves plane i m k) * (10 / 3 * EPS * norm (lift (plane i) m low))
        = 10 / 3 * EPS * (len (halves plane i m k) * norm (lift (plane i) m low)) := by ring
      _ ≤ 10 / 3 * EPS * 3 := mul_le_mul_of_nonneg_left hprod (by positivity)
      _ ≤ _ := by linarith

include hsep hp hi in
/-- **The objective of the smaller problem.** -/
theorem Separated.poles (h0 : 0 ∈ front) (hfront : front ⊆ order) (hne : i ≠ 0) :
    Poles (halves plane i m) front (proj (plane i) m n_vec) (proj (plane i) m d_vec) := by
  have hE := EPS_pos
  have hE' := EPS_lt
  have hd : d_vec.length = 3 := hsep.zero ▸ hsep.length (hfront h0)
  have hhalf : halves plane i m 0 = proj (plane i) m d_vec := by rw [halves, hsep.zero]
  have hobjective := abs_mul_cross_proj hp.length hsep.numerator.1 hd hp.le_two hp.ne
  have hclear : Clear (Planar.cross (proj (plane i) m n_vec) (proj (plane i) m d_vec)) := by
    refine Clear.of_mul ?_ hp
    rcases hsep.objective hi with hzero | hlarge
    · rw [hzero, abs_zero, abs_eq_zero] at hobjective
      exact .inl hobjective
    · rw [← hobjective] at hlarge
      exact .inr hlarge
  refine ⟨⟨0, h0, hhalf⟩, ?_, ?_, fun {l} hl => ?_⟩
  · -- the plane is not parallel to plane 0
    intro hzero
    obtain ⟨a, b, ha, hb, hminor⟩ := hsep.row hi hne
    exact hminor (minor_of_proj hp.length hd hp.le_two hp.ne hzero ha hb)
  · refine hclear.imp_right fun hlarge => ?_
    nlinarith
  · have hedge := abs_mul_cross_proj hp.length (hsep.length (hfront hl)) hd hp.le_two hp.ne
    rcases hsep.pole hi (hfront hl) with hzero | hlarge
    · rcases mul_eq_zero.mp hzero with hzero | hzero
      · rw [hzero, abs_zero, abs_eq_zero] at hobjective
        exact .inl ((mul_eq_zero.mp hobjective).resolve_left hp.ne)
      · rw [hzero, abs_zero, abs_eq_zero] at hedge
        exact .inr (.inl ((mul_eq_zero.mp hedge).resolve_left hp.ne))
    · refine .inr (.inr ?_)
      rw [abs_mul, ← hobjective, ← hedge, abs_mul, abs_mul] at hlarge
      have hlen := hsep.len_mul_len_le hp (hfront h0) (hfront hl)
      rw [hhalf] at hlen
      set X := |Planar.cross (proj (plane i) m n_vec) (proj (plane i) m d_vec)| *
        |Planar.cross (halves plane i m l) (proj (plane i) m d_vec)| with hX
      have hX0 : 0 ≤ X := by positivity
      have hpivot : |(plane i).getD m 0| * |(plane i).getD m 0| ≤ 1 :=
        mul_le_one₀ hp.le_one (abs_nonneg _) hp.le_one
      have hXle : 10 * EPS ≤ X := by
        refine hlarge.trans (le_trans (le_of_eq ?_) (mul_le_of_le_one_left hX0 hpivot))
        rw [hX, halves]
        ring
      nlinarith

end Separated

/-! ### The best vector -/

/-- The vectors on the right side of the planes of `order`. -/
def Inside (plane : ℕ → List ℝ) (order : List ℕ) (x : List ℝ) : Prop :=
  x.length = 3 ∧ ∀ j ∈ order, 0 ≤ dot x (plane j)

/-- `x` is inside, and there is no vector inside with a smaller quotient. -/
structure Best (plane : ℕ → List ℝ) (order : List ℕ) (n_vec d_vec x : List ℝ) : Prop where
  inside : Inside plane order x
  pos : 0 < dot x x
  least {y : List ℝ} : Inside plane order y → 0 < dot y d_vec →
    dot x n_vec * dot y d_vec ≤ dot y n_vec * dot x d_vec

section Best

variable {plane : ℕ → List ℝ} {order front rest : List ℕ} {n_vec d_vec x y : List ℝ} {i j m : ℕ}
variable {low : ℝ × ℝ}

theorem Inside.of_subset (h : Inside plane order x) (hsub : front ⊆ order) :
    Inside plane front x :=
  ⟨h.1, fun j hj => h.2 j (hsub hj)⟩

theorem Best.of_perm (h : Best plane order n_vec d_vec x) (hperm : front.Perm order) :
    Best plane front n_vec d_vec x :=
  ⟨h.inside.of_subset hperm.subset, h.pos, fun hy => h.least (hy.of_subset hperm.symm.subset)⟩

/-- A positive multiple is as good. -/
theorem Best.unitized (h : Best plane order n_vec d_vec x) :
    Best plane order n_vec d_vec (Lp.unitized x) := by
  obtain ⟨s, hs, -, hdot⟩ := unitized_spec h.pos
  refine ⟨⟨?_, fun j hj => ?_⟩, ?_, fun {y} hy hpos => ?_⟩
  · rw [Lp.unitized, List.length_map, h.inside.1]
  · rw [hdot]
    exact mul_nonneg hs.le (h.inside.2 j hj)
  · rw [dot_unitized h.pos]
    exact one_pos
  · have hle := mul_le_mul_of_nonneg_left (h.least hy hpos) hs.le
    rw [hdot, hdot]
    linarith

/-- A plane that the best vector does not offend changes nothing. -/
theorem Best.concat (h : Best plane front n_vec d_vec x) (hi : 0 ≤ dot x (plane i)) :
    Best plane (front ++ [i]) n_vec d_vec x := by
  refine ⟨⟨h.inside.1, fun j hj => ?_⟩, h.pos, fun hy =>
    h.least (hy.of_subset (List.subset_append_left _ _))⟩
  rcases List.mem_append.mp hj with hj | hj
  · exact h.inside.2 j hj
  · rwa [List.mem_singleton.mp hj]

/-! #### On the next plane -/

/-- A combination of two vectors. -/
noncomputable def combine (a b : ℝ) (y x : List ℝ) : List ℝ :=
  List.zipWith (fun s t => s * a + t * b) y x

theorem length_combine (a b : ℝ) (hy : y.length = 3) (hx : x.length = 3) :
    (combine a b y x).length = 3 := by
  rw [combine, List.length_zipWith, hy, hx, Nat.min_self]

theorem dot_combine (a b : ℝ) (hy : y.length = 3) (hx : x.length = 3) {v : List ℝ}
    (hv : v.length = 3) : dot (combine a b y x) v = a * dot y v + b * dot x v := by
  obtain ⟨x0, x1, x2, rfl⟩ := List.length_eq_three.mp hx
  obtain ⟨y0, y1, y2, rfl⟩ := List.length_eq_three.mp hy
  obtain ⟨v0, v1, v2, rfl⟩ := List.length_eq_three.mp hv
  simp [combine, dot]
  ring

variable (hsep : Separated plane order n_vec d_vec) (hp : Pivot (plane i) m)
variable (hfront : front ⊆ order) (h0 : 0 ∈ front)

include hsep hfront h0 in
theorem Separated.length_denominator : d_vec.length = 3 := hsep.zero ▸ hsep.length (hfront h0)

include hsep hfront in
/-- **The crossing point**: between a vector inside and one that offends plane `i`, there is a
vector on plane `i`. -/
theorem exists_crossing (hi : i ∈ order) (hx : Inside plane front x)
    (hy : Inside plane (front ++ [i]) y) (hoffends : dot x (plane i) < 0) :
    Inside plane front (combine (-dot x (plane i)) (dot y (plane i)) y x) ∧
      dot (combine (-dot x (plane i)) (dot y (plane i)) y x) (plane i) = 0 := by
  have hyi : 0 ≤ dot y (plane i) := hy.2 i (by simp)
  refine ⟨⟨length_combine _ _ hy.1 hx.1, fun j hj => ?_⟩, ?_⟩
  · rw [dot_combine _ _ hy.1 hx.1 (hsep.length (hfront hj))]
    exact add_nonneg (mul_nonneg (neg_nonneg.mpr hoffends.le) (hy.2 j (List.mem_append_left _ hj)))
      (mul_nonneg hyi (hx.2 j hj))
  · rw [dot_combine _ _ hy.1 hx.1 (hsep.length hi)]
    ring

include hsep hp hfront in
/-- On plane `i`, the vectors inside are the back substitutions of those in the half-planes. -/
theorem inside_lift (hlow : low ∈ Meet (halves plane i m) front) :
    Inside plane (front ++ [i]) (lift (plane i) m low) := by
  refine ⟨hp.length_lift low, fun j hj => ?_⟩
  rcases List.mem_append.mp hj with hj | hj
  · rw [hp.dot_lift (hsep.length (hfront hj))]
    exact hlow j hj
  · rw [List.mem_singleton.mp hj, hp.dot_lift_self]

include hsep hp hfront in
theorem mem_meet_of_lift (h : Inside plane front (lift (plane i) m low)) :
    low ∈ Meet (halves plane i m) front := by
  intro j hj
  have hside := h.2 j hj
  rwa [hp.dot_lift (hsep.length (hfront hj))] at hside

include hsep hp hfront h0 in
/-- **The best vector is on the plane that the old one offends.** -/
theorem Best.onPlane (hi : i ∈ order) (hbest : Best plane front n_vec d_vec x)
    (hoffends : dot x (plane i) < 0) (hlow : low ∈ Meet (halves plane i m) front) (hne : low ≠ 0)
    (hleast : Least (proj (plane i) m n_vec) (proj (plane i) m d_vec)
      (Meet (halves plane i m) front) low) :
    Best plane (front ++ [i]) n_vec d_vec (lift (plane i) m low) := by
  have hd := hsep.length_denominator hfront h0
  have hin := inside_lift hsep hp hfront hlow
  refine ⟨hin, ?_, fun {y} hy hpos => ?_⟩
  · refine lt_of_lt_of_le (Planar.dot_self_pos.mpr hne) ?_
    have hm : m ≤ [low.1, low.2].length := hp.le_two
    have hle := squaredNorm_le_vectorUp (plane i) hm
    rwa [dot_pair low rfl] at hle
  · obtain ⟨hz, hzi⟩ := exists_crossing hsep hfront hi hbest.inside hy hoffends
    obtain ⟨low', hlow'⟩ := hp.exists_lift hz.1 hzi
    have hmeet : low' ∈ Meet (halves plane i m) front :=
      mem_meet_of_lift hsep hp hfront (by rwa [hlow'])
    have hyi : 0 ≤ dot y (plane i) := hy.2 i (by simp)
    have hxd : 0 ≤ dot x d_vec := by
      have := hbest.inside.2 0 h0
      rwa [hsep.zero] at this
    have hxd' : 0 ≤ dot (lift (plane i) m low) d_vec := by
      have := hin.2 0 (List.mem_append_left _ h0)
      rwa [hsep.zero] at this
    have hzd : dot (lift (plane i) m low') d_vec
        = -dot x (plane i) * dot y d_vec + dot y (plane i) * dot x d_vec := by
      rw [hlow', dot_combine _ _ hy.1 hbest.inside.1 hd]
    have hzn : dot (lift (plane i) m low') n_vec
        = -dot x (plane i) * dot y n_vec + dot y (plane i) * dot x n_vec := by
      rw [hlow', dot_combine _ _ hy.1 hbest.inside.1 hsep.numerator.1]
    have hzpos : 0 < dot (lift (plane i) m low') d_vec := by
      rw [hzd]
      exact add_pos_of_pos_of_nonneg (mul_pos (neg_pos.mpr hoffends) hpos) (mul_nonneg hyi hxd)
    -- the new vector is at least as good as the crossing point
    have hcross : dot (lift (plane i) m low) n_vec * dot (lift (plane i) m low') d_vec
        ≤ dot (lift (plane i) m low') n_vec * dot (lift (plane i) m low) d_vec := by
      have hle := hleast low' hmeet (by rwa [Planar.dot_comm, ← hp.dot_lift hd])
      simp only [Planar.dot_comm (proj (plane i) m n_vec), Planar.dot_comm (proj (plane i) m d_vec),
        ← hp.dot_lift hd, ← hp.dot_lift hsep.numerator.1] at hle
      exact hle
    rcases hxd'.eq_or_lt with hinf | hfin
    · -- at infinity
      rw [← hinf, mul_zero] at hcross ⊢
      have hneg := nonpos_of_mul_nonpos_left hcross hzpos
      exact mul_nonpos_of_nonpos_of_nonneg hneg hpos.le
    · -- the old one is no worse than the new one
      have hold := hbest.least (hin.of_subset (List.subset_append_left _ _)) hfin
      have hstep : dot y (plane i) * (dot x n_vec * dot (lift (plane i) m low) d_vec)
          ≤ dot y (plane i) * (dot (lift (plane i) m low) n_vec * dot x d_vec) :=
        mul_le_mul_of_nonneg_left hold hyi
      rw [hzd, hzn] at hcross
      refine le_of_mul_le_mul_left ?_ (neg_pos.mpr hoffends)
      linarith

end Best

/-! ### The loop -/

/-- A result for the planes of `order`: there is no vector inside, but at infinity; or it is the
best one. -/
def Solved (plane : ℕ → List ℝ) (order : List ℕ) (n_vec d_vec : List ℝ) (found : LpResult ℝ) :
    Prop :=
  found.1 = .infeasible ∧ (∀ y, Inside plane order y → dot y d_vec ≤ 0) ∨
    (found.1 = .minimum ∨ found.1 = .ambiguous) ∧ Best plane order n_vec d_vec found.2

theorem Solved.of_perm {plane : ℕ → List ℝ} {order order' : List ℕ} {n_vec d_vec : List ℝ}
    {found : LpResult ℝ} (h : Solved plane order n_vec d_vec found) (hperm : order'.Perm order) :
    Solved plane order' n_vec d_vec found := by
  rcases h with ⟨hstatus, hnone⟩ | ⟨hstatus, hbest⟩
  · exact .inl ⟨hstatus, fun y hy => hnone y (hy.of_subset hperm.symm.subset)⟩
  · exact .inr ⟨hstatus, hbest.of_perm hperm⟩

theorem offends_real {x p : List ℝ} : offends 2 x p = true ↔ dot x p < -(3 * EPS) := by
  rw [offends, lt_real, innerSum_real, lit_real]
  norm_num

/-- The vector is clearly on one side of each plane. -/
def Decided (plane : ℕ → List ℝ) (order : List ℕ) (x : List ℝ) : Prop :=
  ∀ j ∈ order, 0 ≤ dot x (plane j) ∨ offends 2 x (plane j) = true

section Loop

variable {plane : ℕ → List ℝ} {order front front' rest : List ℕ} {n_vec d_vec x : List ℝ} {i : ℕ}

/-- The code of the smaller problem. -/
theorem onPlane_two (hd : dot d_vec d_vec = 1) (hfront : front ≠ []) :
    (onPlane 2 (seidel 1) plane n_vec d_vec front i).1
      = baseOptimum (wedgeList (halves plane i (findimax (plane i) 2)) front).1
          (projectPlane (plane i) (findimax (plane i) 2) n_vec)
          (projectPlane (plane i) (findimax (plane i) 2) d_vec) := by
  have hnot : ¬ lt (innerSum d_vec d_vec) (lit ((2 : ℕ) + 1) * EPS * EPS) = true := by
    have hE := EPS_pos
    have hE' := EPS_lt
    rw [lt_real, innerSum_real, hd, lit_succ, not_lt]
    push_cast
    nlinarith
  rw [onPlane, seidel, if_neg hfront, projectObjective, if_neg hnot, planeDown_eq, planeDown_eq]
  rfl

variable (hsep : Separated plane order n_vec d_vec)

include hsep in
/-- **The smaller problem** solves the problem for one plane more. -/
theorem onPlane_solved (hfront : front ⊆ order) (h0 : 0 ∈ front) (hi : i ∈ order) (hne : i ≠ 0)
    (hbest : Best plane front n_vec d_vec x) (hoffends : dot x (plane i) < 0) :
    ∃ status new_opt, (onPlane 2 (seidel 1) plane n_vec d_vec front i).1 = (status, new_opt) ∧
      (status = .infeasible ∧ (∀ y, Inside plane (front ++ [i]) y → dot y d_vec ≤ 0) ∨
        (status = .minimum ∨ status = .ambiguous) ∧
          Best plane (front ++ [i]) n_vec d_vec
            (unitized (vectorUp (plane i) (findimax (plane i) 2) new_opt)) ∧
          Decided plane order (unitized (vectorUp (plane i) (findimax (plane i) 2) new_opt))) := by
  have hp := pivot_findimax (hsep.length hi) (hsep.unit hi)
  have hdistinct := hsep.distinct hp hi hfront
  have hpoles := hsep.poles hp hi h0 hfront hne
  have hd := hsep.length_denominator hfront h0
  have hunit : dot d_vec d_vec = 1 := by
    have := hsep.unit (hfront h0)
    rwa [hsep.zero] at this
  have hhalf : halves plane i (findimax (plane i) 2) 0
      = proj (plane i) (findimax (plane i) 2) d_vec := by
    rw [halves, hsep.zero]
  rw [onPlane_two hunit (List.ne_nil_of_mem h0)]
  rcases wedgeList_exactly hdistinct h0 (by rw [hhalf]; exact hpoles.ne) with
    ⟨hnone, hzero⟩ | ⟨w, hsome, hw, hends, hcone⟩
  · -- a vector inside would cross the plane in one that is not zero
    refine ⟨.infeasible, [], by rw [hnone]; rfl, .inl ⟨rfl, fun y hy => not_lt.mp fun hpos => ?_⟩⟩
    obtain ⟨hz, hzi⟩ := exists_crossing hsep hfront hi hbest.inside hy hoffends
    obtain ⟨low, hlow⟩ := hp.exists_lift hz.1 hzi
    have hlow0 : low = 0 := hzero low (mem_meet_of_lift hsep hp hfront (by rwa [hlow]))
    have hzd : dot (lift (plane i) (findimax (plane i) 2) low) d_vec
        = -dot x (plane i) * dot y d_vec + dot y (plane i) * dot x d_vec := by
      rw [hlow, dot_combine _ _ hy.1 hbest.inside.1 hd]
    have hxd : 0 ≤ dot x d_vec := by
      have := hbest.inside.2 0 h0
      rwa [hsep.zero] at this
    have hmul := mul_pos (neg_pos.mpr hoffends) hpos
    have hmul' := mul_nonneg (hy.2 i (by simp)) hxd
    rw [hp.dot_lift hd, hlow0] at hzd
    simp [Planar.dot] at hzd
    linarith
  · obtain ⟨hbound, hleast⟩ := optimum_least hpoles hdistinct hw hends hcone
    obtain ⟨hmem, hne'⟩ := optimum_has (n := proj (plane i) (findimax (plane i) 2) n_vec)
      (d := proj (plane i) (findimax (plane i) 2) d_vec) hw
    have hstatus := optimum_status w (proj (plane i) (findimax (plane i) 2) n_vec)
      (proj (plane i) (findimax (plane i) 2) d_vec)
    rcases hopt : w.optimum (proj (plane i) (findimax (plane i) 2) n_vec)
      (proj (plane i) (findimax (plane i) 2) d_vec) with ⟨status, low⟩
    rw [hopt] at hbound hleast hmem hne' hstatus
    have hedge : OnEdge (halves plane i (findimax (plane i) 2)) front low := by
      rcases hbound with hlow | hlow
      · rw [show low = w.cw from hlow]
        exact hends.cw
      · rw [show low = w.ccw from hlow]
        exact hends.ccw
    have hmeet : low ∈ Meet (halves plane i (findimax (plane i) 2)) front := by
      rw [← hcone]
      exact w.region_subset_cone hmem
    rw [hcone] at hleast
    have hnew := hbest.onPlane hsep hp hfront h0 hi hoffends hmeet hne' hleast
    refine ⟨status, [low.1, low.2], ?_, .inr ⟨hstatus, hnew.unitized, fun j hj => ?_⟩⟩
    · rw [hsome, baseOptimum]
      dsimp only
      rw [← proj, ← proj, hopt]
    · have hE := EPS_pos
      obtain ⟨s, hs, hscale, hdot⟩ := unitized_spec hnew.pos
      have hsharp := hsep.sharp_lift hp hi hfront hedge hj
      show 0 ≤ dot (unitized (lift (plane i) (findimax (plane i) 2) low)) (plane j) ∨
        offends 2 (unitized (lift (plane i) (findimax (plane i) 2) low)) (plane j) = true
      rw [offends_real, hdot]
      rcases hsharp with hzero | hlarge
      · rw [hzero, mul_zero]
        exact .inl le_rfl
      · rcases le_or_gt 0 (dot (lift (plane i) (findimax (plane i) 2) low) (plane j)) with h | h
        · exact .inl (mul_nonneg hs.le h)
        · rw [abs_of_neg h] at hlarge
          have hmul := mul_le_mul_of_nonneg_left hlarge hs.le
          have hunit' : s * (10 / 3 * EPS * norm (lift (plane i) (findimax (plane i) 2) low))
              = 10 / 3 * EPS := by
            linear_combination 10 / 3 * EPS * hscale
          right
          linarith

include hsep in
/-- **The loop** solves the problem for all planes. -/
theorem seidelLoop_solved (hsub : front ++ rest ⊆ order) (h0 : 0 ∈ front) (hrest : 0 ∉ rest)
    {status : LpStatus} (hstatus : status = .minimum ∨ status = .ambiguous)
    (hbest : Best plane front n_vec d_vec x) (hdecided : Decided plane order x) :
    Solved plane (front ++ rest) n_vec d_vec
      (seidelLoop 2 (seidel 1) plane n_vec d_vec front rest (status, x)).1 := by
  induction rest generalizing front status x with
  | nil =>
    rw [List.append_nil]
    exact .inr ⟨hstatus, hbest⟩
  | cons i rest ih =>
    rw [List.mem_cons, not_or] at hrest
    have hi : i ∈ order := hsub (by simp)
    have hfront : front ⊆ order := fun j hj => hsub (List.mem_append_left _ hj)
    rcases hoffends : offends 2 x (plane i) with - | -
    · -- within the tolerance, so on the right side, since no product is small
      have hpass : 0 ≤ dot x (plane i) := by
        refine (hdecided i hi).resolve_right fun hlt => ?_
        rw [hlt] at hoffends
        cases hoffends
      rw [seidelLoop_pass hoffends, List.append_cons]
      exact ih (by rwa [← List.append_cons]) (List.mem_append_left _ h0) hrest.2 hstatus
        (hbest.concat hpass) hdecided
    · have hneg : dot x (plane i) < 0 := by
        have hE := EPS_pos
        have := offends_real.mp hoffends
        linarith
      -- the best point is on the plane that has been violated
      obtain ⟨status', new_opt, hresult, hsolved⟩ := onPlane_solved hsep hfront h0 hi
        (Ne.symm hrest.1) hbest hneg
      rcases honPlane : onPlane 2 (seidel 1) plane n_vec d_vec front i with ⟨found, front'⟩
      rw [honPlane] at hresult
      obtain rfl : found = (status', new_opt) := hresult
      have hperm : (toFront front' i).Perm (front ++ [i]) := by
        have hfront' : (onPlane 2 (seidel 1) plane n_vec d_vec front i).2.Perm front :=
          seidel_reorders 1 _ _ _ _
        rw [honPlane] at hfront'
        exact (toFront_perm front' i).trans (hfront'.append_right _)
      rcases hsolved with ⟨rfl, hnone⟩ | ⟨hstatus', hbest', hdecided'⟩
      · -- the part that has been looked at has no point, so the whole has none
        rw [seidelLoop_infeasible hoffends honPlane]
        refine .inl ⟨rfl, fun y hy => hnone y (hy.of_subset ?_)⟩
        rw [List.append_cons front i rest]
        exact List.subset_append_left _ _
      · have hne : status' ≠ .infeasible := by
          rintro rfl
          rcases hstatus' with h | h
          · cases h
          · cases h
        rw [seidelLoop_project hoffends honPlane hne, List.append_cons]
        have hall := (hperm.append_right rest)
        have hsolved := ih (fun j hj => hsub ?_) (hperm.symm.subset (List.mem_append_left _ h0))
          hrest.2 hstatus' (hbest'.of_perm hperm) hdecided'
        · exact hsolved.of_perm hall.symm
        · rw [List.append_cons]
          exact hall.subset hj

include hsep in
/-- Without constraints, the best direction is against the objective. -/
theorem lpNoConstraints_two (hd : d_vec.length = 3) (hunit : dot d_vec d_vec = 1) :
    ∃ x, lpNoConstraints 2 n_vec d_vec = (.minimum, x) ∧ x.length = 3 ∧
      ∀ v, v.length = 3 → dot x v = -dot n_vec v := by
  have hE := EPS_pos
  have hE' := EPS_lt
  obtain ⟨hlen, hone⟩ := hsep.numerator
  -- the objective is orthogonal to the denominator, so its opposite is the optimum
  have hopt : ∀ v : List ℝ, v.length = 3 →
      dot (List.zipWith (fun n e => -n + e * 0 / 1) n_vec d_vec) v = -dot n_vec v := by
    intro v hv
    obtain ⟨n0, n1, n2, rfl⟩ := List.length_eq_three.mp hlen
    obtain ⟨d0, d1, d2, rfl⟩ := List.length_eq_three.mp hd
    obtain ⟨v0, v1, v2, rfl⟩ := List.length_eq_three.mp hv
    simp [dot]
    ring
  have hoptlen : (List.zipWith (fun n e => -n + e * 0 / 1) n_vec d_vec).length = 3 := by
    rw [List.length_zipWith, hlen, hd, Nat.min_self]
  have hself : dot (List.zipWith (fun n e => -n + e * 0 / 1) n_vec d_vec)
      (List.zipWith (fun n e => -n + e * 0 / 1) n_vec d_vec) = 1 := by
    rw [hopt _ hoptlen, dot_comm_list, hopt _ hlen, hone, neg_neg]
  have hden : ¬ lt (innerSum d_vec d_vec) (EPS * EPS) = true := by
    rw [lt_real, innerSum_real, hunit, not_lt]
    nlinarith
  have hlong : ¬ lt (innerSum (List.zipWith (fun n e => -n + e * 0 / 1) n_vec d_vec)
      (List.zipWith (fun n e => -n + e * 0 / 1) n_vec d_vec)) (lit ((2 : ℕ) + 1) * EPS * EPS)
      = true := by
    rw [lt_real, innerSum_real, hself, lit_succ, not_lt]
    push_cast
    nlinarith
  refine ⟨(List.zipWith (fun n e => -n + e * 0 / 1) n_vec d_vec).map (· * (1 / 1)), ?_, ?_,
    fun v hv => ?_⟩
  · rw [lpNoConstraints]
    dsimp only
    rw [if_neg hden, innerSum_real, innerSum_real, hsep.orthogonal, hunit]
    dsimp only
    rw [lpDUnit, if_neg hlong, innerSum_real, hself, sqrt_real, Real.sqrt_one]
  · rw [List.length_map, hoptlen]
  · rw [dot_map_mul, hopt v hv, div_one, one_mul]

include hsep in
/-- **The solver is exact in the plane.** -/
theorem seidel_two_exact (hsub : 0 :: rest ⊆ order) (hrest : 0 ∉ rest) :
    Solved plane (0 :: rest) n_vec d_vec (seidel 2 plane (0 :: rest) n_vec d_vec).1 := by
  have h0 : 0 ∈ order := hsub List.mem_cons_self
  have hd : d_vec.length = 3 := hsep.zero ▸ hsep.length h0
  have hunit : dot d_vec d_vec = 1 := by
    have := hsep.unit h0
    rwa [hsep.zero] at this
  obtain ⟨x, hx, hlen, hdot⟩ := lpNoConstraints_two hsep hd hunit
  have hxd : dot x d_vec = 0 := by rw [hdot _ hd, hsep.orthogonal, neg_zero]
  have hxn : dot x n_vec = -1 := by rw [hdot _ hsep.numerator.1, hsep.numerator.2]
  have hbest : Best plane [0] n_vec d_vec x := by
    refine ⟨⟨hlen, fun j hj => ?_⟩, ?_, fun {y} _ hpos => ?_⟩
    · rw [List.mem_singleton.mp hj, hsep.zero, hxd]
    · rw [hdot _ hlen, dot_comm_list, hxn, neg_neg]
      exact one_pos
    · rw [hxn, hxd, mul_zero, neg_one_mul]
      exact neg_nonpos.mpr hpos.le
  have hdecided : Decided plane order x := by
    have hE := EPS_pos
    intro j hj
    rw [offends_real, hdot _ (hsep.length hj)]
    rcases hsep.normal hj with hzero | hlarge
    · exact .inl (by rw [hzero, neg_zero])
    · rcases le_abs.mp hlarge with h | h
      · exact .inr (by linarith)
      · exact .inl (by linarith)
  have hpass : offends 2 x (plane 0) = false := by
    refine Bool.eq_false_of_not_eq_true fun hlt => ?_
    have hE := EPS_pos
    have := offends_real.mp hlt
    rw [hsep.zero, hxd] at this
    linarith
  rw [seidel, hx, seidelLoop_pass hpass]
  have hsub' : [0] ++ rest ⊆ order := hsub
  exact seidelLoop_solved hsep hsub' List.mem_cons_self hrest (.inl rfl) hbest hdecided

end Loop

end Lp

end Commelec
