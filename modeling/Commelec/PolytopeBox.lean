/-
Commelec/PolytopeBox.lean

The bounding box of a polytope in the plane (`computeAABBConvexPolytope`).

The code solves four linear programs.  The solver minimises over the points `u` with
`h0 * u0 + h1 * u1 + h2 >= 0` for each of its halves, while a row of the polytope says
`a0 * x0 + a1 * x1 <= b`; so a row is handed over as it is, normalised, and the solution is
`-x`.

* `halvesRegion_eq` — the region of the halves is the reflection of the polytope;
* `solve_coordinate` — a solver that finds a minimum where there is one finds, reflected, the
  maximum of the objective over the polytope;
* `polytope_box_exact` — so the box is exact, for each polytope that is bounded and not empty.
-/
import Mathlib.Topology.Algebra.Group.Pointwise
import Commelec.IntersectionHull

namespace Commelec

open Effectful Outcome Pointwise

/-! ### The linear programs -/

/-- The points that satisfy every three numbers of the list. -/
def halvesRegion : List ℝ → Set (ℝ × ℝ)
  | h0 :: h1 :: h2 :: halves => {u | 0 ≤ h0 * u.1 + h1 * u.2 + h2} ∩ halvesRegion halves
  | _ => Set.univ

def objective (c0 c1 : ℝ) (u : ℝ × ℝ) : ℝ := c0 * u.1 + c1 * u.2

/-- For these halves, the solver finds a minimum of every objective that has one. -/
def LpSolver.Minimises (solveLp2 : LpSolver ℝ) (halves : List ℝ) : Prop :=
  ∀ c0 c1, (∃ u ∈ halvesRegion halves, IsMinOn (objective c0 c1) (halvesRegion halves) u) →
    ∃ u ∈ halvesRegion halves, IsMinOn (objective c0 c1) (halvesRegion halves) u ∧
      solveLp2 halves [c0, c1] = ok [u.1, u.2]

theorem isClosed_halvesRegion (halves : List ℝ) : IsClosed (halvesRegion halves) := by
  fun_induction halvesRegion halves with
  | case1 h0 h1 h2 halves ih =>
    refine IsClosed.inter ?_ ih
    apply isClosed_le continuous_const
    fun_prop
  | case2 => exact isClosed_univ

/-! ### The polytope -/

/-- The points `x` with `A x <= b`. -/
def polytope (A : List (List ℝ)) (b : List ℝ) : Set (ℝ × ℝ) := {x | Satisfies A b [x.1, x.2]}

/-- The matrix `(A|b)` with normalised rows, row by row. -/
noncomputable def normalizedHalves (A : List (List ℝ)) (b : List ℝ) : List ℝ :=
  (List.zipWith (fun row bi => normalized (row ++ [bi])) A b).flatten

/-- Normalising multiplies by a positive number. -/
theorem exists_normalized (x : List ℝ) : ∃ k > 0, normalized x = x.map (k * ·) := by
  rw [normalized]
  split
  · next h =>
    refine ⟨(norm x)⁻¹, ?_, List.map_congr_left fun v _ => div_eq_inv_mul v _⟩
    exact inv_pos.mpr (Real.sqrt_pos.mpr (by simpa using h))
  · exact ⟨1, one_pos, by simp⟩

/-- **The region of the halves is the reflection of the polytope.** -/
theorem halvesRegion_eq {A : List (List ℝ)} {b : List ℝ} (hA : ∀ row ∈ A, row.length = 2)
    (hb : A.length = b.length) : halvesRegion (normalizedHalves A b) = -polytope A b := by
  induction A generalizing b with
  | nil =>
    obtain rfl : b = [] := List.length_eq_zero_iff.mp hb.symm
    ext u
    exact iff_of_true trivial .nil
  | cons row A ih =>
    obtain ⟨bi, b, rfl⟩ := List.exists_cons_of_length_eq_add_one hb.symm
    obtain ⟨hrow, hA'⟩ := List.forall_mem_cons.mp hA
    obtain ⟨a0, a1, rfl⟩ := List.length_eq_two.mp hrow
    obtain ⟨k, hk, hnormalized⟩ := exists_normalized [a0, a1, bi]
    have hhalves : normalizedHalves ([a0, a1] :: A) (bi :: b)
        = k * a0 :: k * a1 :: k * bi :: normalizedHalves A b := by
      show normalized [a0, a1, bi] ++ normalizedHalves A b = _
      rw [hnormalized]
      rfl
    ext u
    rw [hhalves, halvesRegion, ih hA' (by simpa using hb), Set.mem_neg]
    have hrow : 0 ≤ k * a0 * u.1 + k * a1 * u.2 + k * bi ↔ dot [a0, a1] [-u.1, -u.2] ≤ bi := by
      have hfactor : k * a0 * u.1 + k * a1 * u.2 + k * bi = k * (a0 * u.1 + a1 * u.2 + bi) := by
        ring
      have hdot : dot [a0, a1] [-u.1, -u.2] = -(a0 * u.1 + a1 * u.2) := by
        simp only [dot, List.zipWith_cons_cons, List.zipWith_nil_left, List.sum_cons, List.sum_nil]
        ring
      rw [hfactor, mul_nonneg_iff_of_pos_left hk, hdot]
      constructor <;> intro h <;> linarith
    have hcons : -u ∈ polytope ([a0, a1] :: A) (bi :: b)
        ↔ dot [a0, a1] [-u.1, -u.2] ≤ bi ∧ -u ∈ polytope A b := List.forall₂_cons
    rw [hcons, ← hrow]
    rfl

/-- **The solution of a linear program**, reflected, is a point of the polytope where the
objective is largest. -/
theorem solve_coordinate {lp : LpSolver ℝ} {A : List (List ℝ)} {b : List ℝ}
    (hA : ∀ row ∈ A, row.length = 2) (hb : A.length = b.length)
    (hne : (polytope A b).Nonempty) (hbounded : Bornology.IsBounded (polytope A b))
    (hlp : lp.Minimises (normalizedHalves A b)) (c0 c1 : ℝ) :
    ∃ x ∈ polytope A b, lp (normalizedHalves A b) [c0, c1] = ok [-x.1, -x.2] ∧
      ∀ y ∈ polytope A b, objective c0 c1 y ≤ objective c0 c1 x := by
  have hregion := halvesRegion_eq hA hb
  have hclosed := isClosed_halvesRegion (normalizedHalves A b)
  have hcompact : IsCompact (halvesRegion (normalizedHalves A b)) := by
    rw [hregion] at hclosed ⊢
    exact Metric.isCompact_of_isClosed_isBounded hclosed hbounded.neg
  have hcontinuous : Continuous (objective c0 c1) := by
    unfold objective
    fun_prop
  have hnonempty : (halvesRegion (normalizedHalves A b)).Nonempty := by
    rw [hregion]
    exact hne.neg
  obtain ⟨u, hu, hmin, hsolve⟩ :=
    hlp c0 c1 (hcompact.exists_isMinOn hnonempty hcontinuous.continuousOn)
  rw [hregion] at hu hmin
  refine ⟨-u, hu, by simpa using hsolve, fun y hy => ?_⟩
  have hle : objective c0 c1 u ≤ objective c0 c1 (-y) := hmin (by simpa using hy)
  simp only [objective, Prod.fst_neg, Prod.snd_neg] at hle ⊢
  linarith

/-- **The bounding box of a polytope is exact**: its corners are the least and the greatest
values of each coordinate, for every solver that finds the minima of its linear programs. -/
theorem polytope_box_exact {lp : LpSolver ℝ} {A : Matrix ℝ} {b : List ℝ} (hcols : A.cols = 2)
    (hA : ∀ row ∈ A.rows, row.length = 2) (hb : A.rows.length = b.length)
    (hne : (polytope A.rows b).Nonempty) (hbounded : Bornology.IsBounded (polytope A.rows b))
    (hlp : lp.Minimises (normalizedHalves A.rows b)) :
    ∃ xmin ymin xmax ymax : ℝ,
      computeAABBConvexPolytope lp A b = ok ⟨[xmin, ymin], [xmax, ymax]⟩ ∧
      IsLeast (Prod.fst '' polytope A.rows b) xmin ∧
      IsLeast (Prod.snd '' polytope A.rows b) ymin ∧
      IsGreatest (Prod.fst '' polytope A.rows b) xmax ∧
      IsGreatest (Prod.snd '' polytope A.rows b) ymax := by
  have hsolve := solve_coordinate hA hb hne hbounded hlp
  obtain ⟨x1, hx1, hlp1, hmax1⟩ := hsolve 1 0
  obtain ⟨x2, hx2, hlp2, hmax2⟩ := hsolve (-1) 0
  obtain ⟨x3, hx3, hlp3, hmax3⟩ := hsolve 0 1
  obtain ⟨x4, hx4, hlp4, hmax4⟩ := hsolve 0 (-1)
  simp only [objective] at hmax1 hmax2 hmax3 hmax4
  refine ⟨x2.1, x4.2, x1.1, x3.2, ?_, ⟨⟨x2, hx2, rfl⟩, ?_⟩, ⟨⟨x4, hx4, rfl⟩, ?_⟩,
    ⟨⟨x1, hx1, rfl⟩, ?_⟩, ⟨⟨x3, hx3, rfl⟩, ?_⟩⟩
  · have hhalves : (List.zipWith (fun row bi => normalized (row ++ [bi])) A.rows b).flatten
        = normalizedHalves A.rows b := rfl
    simp only [computeAABBConvexPolytope, hcols, hb, assert, decide_true, if_true, pure_eq,
      ok_bind, lift_self, hhalves, hlp1, hlp2, hlp3, hlp4, List.getD_cons_zero,
      List.getD_cons_succ, neg_neg]
  · rintro _ ⟨y, hy, rfl⟩
    linarith [hmax2 y hy]
  · rintro _ ⟨y, hy, rfl⟩
    linarith [hmax4 y hy]
  · rintro _ ⟨y, hy, rfl⟩
    linarith [hmax1 y hy]
  · rintro _ ⟨y, hy, rfl⟩
    linarith [hmax3 y hy]

/-! ### The unit square -/

/-- A minimum over the reflected unit square. -/
noncomputable def cornerLp : LpSolver ℝ := fun _ c => ok (c.map fun x => if 0 < x then -1 else 0)

def unitSquare : Matrix ℝ := ⟨2, [[1, 0], [-1, 0], [0, 1], [0, -1]]⟩

theorem mem_unitSquare (x : ℝ × ℝ) :
    x ∈ polytope unitSquare.rows [1, 0, 1, 0] ↔ x ∈ Set.Icc ((0, 0) : ℝ × ℝ) (1, 1) := by
  show Satisfies [[1, 0], [-1, 0], [0, 1], [0, -1]] [1, 0, 1, 0] [x.1, x.2] ↔ _
  simp only [Satisfies, List.forall₂_cons, List.forall₂_nil_left_iff, dot,
    List.zipWith_cons_cons, List.zipWith_nil_left, List.sum_cons, List.sum_nil, Set.mem_Icc,
    Prod.le_def, and_true]
  constructor
  · rintro ⟨h1, h2, h3, h4⟩
    exact ⟨⟨by linarith, by linarith⟩, by linarith, by linarith⟩
  · rintro ⟨⟨h1, h2⟩, h3, h4⟩
    exact ⟨by linarith, by linarith, by linarith, by linarith⟩

/-- The sign of a coefficient decides at which end a coordinate is best. -/
theorem mul_corner_le (c : ℝ) {t : ℝ} (h0 : 0 ≤ t) (h1 : t ≤ 1) :
    c * (if 0 < c then -1 else 0) ≤ c * -t := by
  split
  · next hc => nlinarith
  · next hc => nlinarith

theorem cornerLp_minimises :
    cornerLp.Minimises (normalizedHalves unitSquare.rows [1, 0, 1, 0]) := by
  have hregion : halvesRegion (normalizedHalves unitSquare.rows [1, 0, 1, 0])
      = -polytope unitSquare.rows [1, 0, 1, 0] := halvesRegion_eq (by simp [unitSquare]) rfl
  intro c0 c1 _
  have hcorner (c : ℝ) : (0 : ℝ) ≤ -(if 0 < c then -1 else 0) ∧
      -(if 0 < c then -1 else 0) ≤ (1 : ℝ) := by
    split <;> norm_num
  refine ⟨(if 0 < c0 then -1 else 0, if 0 < c1 then -1 else 0), ?_, fun v hv => ?_, rfl⟩
  · rw [hregion, Set.mem_neg, mem_unitSquare]
    exact ⟨⟨(hcorner c0).1, (hcorner c1).1⟩, (hcorner c0).2, (hcorner c1).2⟩
  · rw [hregion, Set.mem_neg, mem_unitSquare] at hv
    obtain ⟨⟨hx0, hy0⟩, hx1, hy1⟩ := hv
    have hx := mul_corner_le c0 hx0 hx1
    have hy := mul_corner_le c1 hy0 hy1
    simp only [Prod.fst_neg, Prod.snd_neg, neg_neg] at hx hy
    exact add_le_add hx hy

theorem polytope_box_exact_sample :
    ∃ xmin ymin xmax ymax : ℝ,
      computeAABBConvexPolytope cornerLp unitSquare [1, 0, 1, 0]
        = ok ⟨[xmin, ymin], [xmax, ymax]⟩ ∧
      IsLeast (Prod.fst '' polytope unitSquare.rows [1, 0, 1, 0]) xmin ∧
      IsLeast (Prod.snd '' polytope unitSquare.rows [1, 0, 1, 0]) ymin ∧
      IsGreatest (Prod.fst '' polytope unitSquare.rows [1, 0, 1, 0]) xmax ∧
      IsGreatest (Prod.snd '' polytope unitSquare.rows [1, 0, 1, 0]) ymax := by
  have hbox : polytope unitSquare.rows [1, 0, 1, 0] = Set.Icc ((0, 0) : ℝ × ℝ) (1, 1) :=
    Set.ext mem_unitSquare
  refine polytope_box_exact rfl (by simp [unitSquare]) rfl ?_ ?_ cornerLp_minimises
  · rw [hbox]
    exact ⟨(0, 0), le_rfl, zero_le_one, zero_le_one⟩
  · rw [hbox]
    exact Metric.isBounded_Icc _ _

end Commelec
