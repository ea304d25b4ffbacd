/-
Commelec/Dykstra.lean

Dykstra's algorithm, seen from the sets it projects onto.

`Projects n proj C` says that `proj` returns, from every point of dimension `n`, the nearest
point of the set `C` in `EuclideanSpace ℝ (Fin n)`.  The projections onto a half-space, a ball
and a rectangle have it (`projects_halfSpace`, `projects_ball`, `projects_rectangle`), and a
sweep over such sets is a `Nearest.Sweep` (`sweep_of_projects`).
-/
import Commelec.Lib.NearestPoint
import Commelec.Euclidean
import Commelec.Semantics

namespace Commelec

open Effectful Outcome Nearest

/-- `proj` returns the nearest point of `C`. -/
def Projects (n : ℕ) (proj : List ℝ → Outcome Err (List ℝ))
    (C : Set (EuclideanSpace ℝ (Fin n))) : Prop :=
  ∀ z, z.length = n →
    ∃ x, proj z = ok x ∧ x.length = n ∧ IsNearest C (toVec n z) (toVec n x)

/-! ### Basic sets -/

section Basic

variable {n : ℕ}

theorem toVec_div {x : List ℝ} (c : ℝ) (hx : x.length = n) :
    toVec n (x.map (· / c)) = c⁻¹ • toVec n x := by
  ext i
  rw [toVec_map hx]
  exact div_eq_inv_mul _ _

theorem toVec_ne_zero {x : List ℝ} (hx : x.length = n) (hne : squaredNorm x ≠ 0) :
    toVec n x ≠ 0 := by
  intro h
  apply hne
  rw [squaredNorm_eq hx, h, norm_zero]
  norm_num

theorem dot_self_ne_zero {row : List ℝ} (h : ∃ v ∈ row, v ≠ 0) : squaredNorm row ≠ 0 := by
  intro hzero
  obtain ⟨v, hv, hne⟩ := h
  obtain ⟨i, hi, rfl⟩ := List.mem_iff_getElem.mp hv
  rw [squaredNorm_eq rfl, sq_eq_zero_iff, norm_eq_zero] at hzero
  have hcoord : row.getD i 0 = 0 := congrFun (congrArg WithLp.ofLp hzero) ⟨i, hi⟩
  apply hne
  rwa [List.getD_eq_getElem _ _ hi] at hcoord

theorem dot_eq_inner' {x y : List ℝ} (hx : x.length = n) (hy : y.length = n) :
    dot x y = inner ℝ (toVec n x) (toVec n y) := by
  rw [dot_eq_inner hx hy, real_inner_comm]

theorem projects_halfSpace {hs : HalfSpace ℝ} (ha : hs.a.length = n)
    (hne : squaredNorm hs.a ≠ 0) :
    Projects n (projHalfSpace hs) (halfSpace (toVec n hs.a) hs.b) := by
  intro z hz
  have hmem : (membershipHalfSpace hs z : Outcome Err Bool)
      = ok (Double.le (dot hs.a z) hs.b) := by
    rw [membershipHalfSpace, ha, hz]
    simp [assert]
  rw [projHalfSpace, hmem, ok_bind]
  by_cases hle : dot hs.a z ≤ hs.b
  · have hle' : Double.le (dot hs.a z) hs.b = true := by simpa using hle
    rw [if_pos hle']
    rw [dot_eq_inner' ha hz] at hle
    exact ⟨z, rfl, hz, .self hle⟩
  · have hle' : ¬ Double.le (dot hs.a z) hs.b = true := by simpa using hle
    rw [if_neg hle']
    have hunit : (hs.a.map (· / squaredNorm hs.a)).length = n := by rw [List.length_map, ha]
    have hscale := length_vecScale (dot hs.a z - hs.b) hunit
    refine ⟨_, rfl, length_vecSub hz hscale, ?_⟩
    have hpoint : toVec n (vecSub z (vecScale (dot hs.a z - hs.b)
          (hs.a.map (· / squaredNorm hs.a))))
        = toVec n z - ((inner ℝ (toVec n hs.a) (toVec n z) - hs.b) * (‖toVec n hs.a‖ ^ 2)⁻¹) •
          toVec n hs.a := by
      rw [toVec_vecSub hz hscale, toVec_vecScale _ hunit, toVec_div _ ha, smul_smul,
        dot_eq_inner' ha hz, squaredNorm_eq ha]
    rw [hpoint]
    apply isNearest_halfSpace (toVec_ne_zero ha hne)
    rw [← dot_eq_inner' ha hz]
    exact (not_le.mp hle).le

theorem projects_ball {center : List (Outcome Err ℝ)} {radius : Outcome Err ℝ}
    {c : List ℝ} {r : ℝ} (hc : evalToVector center = ok c) (hr : radius = ok r)
    (hn : c.length = n) (hr0 : 0 ≤ r) :
    Projects n (projBall center radius) (Metric.closedBall (toVec n c) r) := by
  intro z hz
  have hlen : center.length = n := (collect_length hc).symm.trans hn
  have hmem : membershipBall center radius z
      = ok (Double.le (squaredNorm (vecSub c z)) (r * r)) := by
    rw [membershipBall, hlen, hz, hc, hr]
    simp [assert]
  have hsq : squaredNorm (vecSub c z) = ‖toVec n z - toVec n c‖ ^ 2 := by
    rw [squaredNorm_eq (length_vecSub hn hz), toVec_vecSub hn hz, norm_sub_rev]
  have hin : squaredNorm (vecSub c z) ≤ r * r ↔ ‖toVec n z - toVec n c‖ ≤ r := by
    rw [hsq, ← sq, sq_le_sq₀ (norm_nonneg _) hr0]
  rw [projBall, hmem, ok_bind]
  by_cases hle : squaredNorm (vecSub c z) ≤ r * r
  · have hle' : Double.le (squaredNorm (vecSub c z)) (r * r) = true := by simpa using hle
    rw [if_pos hle']
    exact ⟨z, rfl, hz, .self (mem_closedBall_iff_norm.mpr (hin.mp hle))⟩
  · have hle' : ¬ Double.le (squaredNorm (vecSub c z)) (r * r) = true := by simpa using hle
    rw [if_neg hle', hc, hr]
    have hout : r < ‖toVec n z - toVec n c‖ := not_le.mp fun h => hle (hin.mpr h)
    have hsub := length_vecSub hz hn
    have hpos : 0 < squaredNorm (vecSub z c) := by
      rw [squaredNorm_eq hsub, toVec_vecSub hz hn]
      have hgap := lt_of_le_of_lt hr0 hout
      positivity
    have hnormalized : normalized (vecSub z c) = (vecSub z c).map (· / norm (vecSub z c)) := by
      rw [normalized, if_pos (by simpa using hpos)]
    have hlen' : ((vecSub z c).map (· / norm (vecSub z c))).length = n := by
      rw [List.length_map, hsub]
    refine ⟨vecAdd c (vecScale r (normalized (vecSub z c))), rfl, ?_, ?_⟩
    · rw [hnormalized]
      exact length_vecAdd hn (length_vecScale r hlen')
    · have hpoint : toVec n (vecAdd c (vecScale r (normalized (vecSub z c))))
          = toVec n c + (r * ‖toVec n z - toVec n c‖⁻¹) • (toVec n z - toVec n c) := by
        rw [hnormalized, toVec_vecAdd hn (length_vecScale r hlen'), toVec_vecScale r hlen',
          toVec_div _ hsub, norm_eq_norm hsub, toVec_vecSub hz hn, smul_smul]
      rw [hpoint]
      exact isNearest_ball hr0 hout

/-- The bounds of a rectangle, evaluated. -/
abbrev Bounds (rect : List (Outcome Err ℝ × Outcome Err ℝ)) (bounds : List (ℝ × ℝ)) : Prop :=
  List.Forall₂ (fun b v => b.1 = ok v.1 ∧ b.2 = ok v.2) rect bounds

/-- The points of a rectangle are between its bounds. -/
theorem insideBounds_iff {rect : List (Outcome Err ℝ × Outcome Err ℝ)} {bounds : List (ℝ × ℝ)}
    (h : Bounds rect bounds) {q : List ℝ} (hq : q.length = bounds.length) :
    insideBounds rect q = ok true
      ↔ List.Forall₂ (fun v x => min v.1 v.2 ≤ x ∧ x ≤ max v.1 v.2) bounds q := by
  induction h generalizing q with
  | nil =>
    obtain rfl : q = [] := List.length_eq_zero_iff.mp hq
    exact iff_of_true rfl .nil
  | @cons b v rect bounds hb _ ih =>
    obtain ⟨x, q, rfl⟩ := List.exists_cons_of_length_eq_add_one hq
    rw [insideBounds, hb.1, ok_bind, hb.2, ok_bind, List.forall₂_cons]
    by_cases hin : min v.1 v.2 ≤ x ∧ x ≤ max v.1 v.2
    · rw [if_neg fun h => outOfBounds_real.mp h hin, and_iff_right hin]
      exact ih (by simpa using hq)
    · rw [if_pos (outOfBounds_real.mpr hin)]
      exact iff_of_false (by simp) fun h => hin h.1

theorem clampBounds_ok {rect : List (Outcome Err ℝ × Outcome Err ℝ)} {bounds : List (ℝ × ℝ)}
    (h : Bounds rect bounds) {z : List ℝ} (hz : z.length = bounds.length) :
    clampBounds rect z = ok (List.zipWith
      (fun b x => projIntval x (stdMin b.1 b.2) (stdMax b.1 b.2)) bounds z) := by
  induction h generalizing z with
  | nil =>
    obtain rfl : z = [] := List.length_eq_zero_iff.mp hz
    rfl
  | cons hb _ ih =>
    obtain - | ⟨x, z⟩ := z
    · simp at hz
    obtain ⟨hb₁, hb₂⟩ := hb
    rw [clampBounds, hb₁, hb₂, ok_bind, ok_bind, ih (by simpa using hz)]
    rfl

theorem projIntval_real {x lo hi : ℝ} (h : lo ≤ hi) :
    projIntval x lo hi = max lo (min x hi) := by
  simp only [projIntval, le_real]
  split
  · next hlo => rw [min_eq_left (hlo.trans h), max_eq_left hlo]
  · next hlo =>
    have hlo' := (not_le.mp hlo).le
    split
    · next hhi => rw [min_eq_right hhi, max_eq_right h]
    · next hhi => rw [min_eq_left (not_le.mp hhi).le, max_eq_right hlo']

/-- The points between the bounds of a rectangle. -/
def boundsBox (n : ℕ) (bounds : List (ℝ × ℝ)) : Set (EuclideanSpace ℝ (Fin n)) :=
  box (fun i => min (bounds.getD i 0).1 (bounds.getD i 0).2)
    fun i => max (bounds.getD i 0).1 (bounds.getD i 0).2

theorem projects_rectangle {rect : List (Outcome Err ℝ × Outcome Err ℝ)}
    {bounds : List (ℝ × ℝ)} (h : Bounds rect bounds) (hn : bounds.length = n) :
    Projects n (projRectangle rect) (boundsBox n bounds) := by
  intro z hz
  refine ⟨_, clampBounds_ok h (hz.trans hn.symm), ?_, ?_⟩
  · rw [List.length_zipWith, hn, hz, Nat.min_self]
  · apply isNearest_box
    · intro i
      exact min_le_max
    · intro i
      have hi : (i : ℕ) < bounds.length := hn ▸ i.isLt
      have hi' : (i : ℕ) < z.length := hz ▸ i.isLt
      rw [toVec_apply, toVec_apply, List.getD_eq_getElem _ _ (by simp [hi, hi']),
        List.getElem_zipWith, List.getD_eq_getElem _ _ hi, List.getD_eq_getElem _ _ hi',
        stdMin_real, stdMax_real, projIntval_real min_le_max]

end Basic

/-! ### Sweeps -/

section Sweep

variable {n : ℕ} {projs : List (List ℝ → Outcome Err (List ℝ))}
  {Cs : List (Set (EuclideanSpace ℝ (Fin n)))}

/-- Vectors of dimension `n`. -/
abbrev AllDim (n : ℕ) (xs : List (List ℝ)) : Prop := ∀ x ∈ xs, x.length = n

/-- **A sweep of the algorithm** returns, and is a sweep over the sets. -/
theorem sweep_of_projects (h : List.Forall₂ (Projects n) projs Cs) {ys : List (List ℝ)}
    {x : List ℝ} (hx : x.length = n) (hys : AllDim n ys) (hlen : ys.length = Cs.length) :
    ∃ xs ys', dykstraSweep projs ys x = ok (xs, ys') ∧ AllDim n xs ∧ AllDim n ys' ∧
      Sweep Cs (ys.map (toVec n)) (toVec n x) (xs.map (toVec n)) (ys'.map (toVec n)) := by
  induction h generalizing ys x with
  | nil =>
    obtain rfl : ys = [] := List.length_eq_zero_iff.mp hlen
    exact ⟨[], [], rfl, List.forall_mem_nil _, List.forall_mem_nil _, .nil⟩
  | @cons proj C projs Cs hproj _ ih =>
    obtain - | ⟨y, ys⟩ := ys
    · simp at hlen
    obtain ⟨hy, hys⟩ := List.forall_mem_cons.mp hys
    have hz := length_vecAdd hx hy
    obtain ⟨x', hx'ok, hx', hnear⟩ := hproj _ hz
    obtain ⟨xs, ys', hrest, hxs, hys', hsweep⟩ := ih hx' hys (by simpa using hlen)
    refine ⟨x' :: xs, vecSub (vecAdd x y) x' :: ys', ?_, ?_, ?_, ?_⟩
    · rw [dykstraSweep]
      simp only [hx, hy, hx'ok, hz, hx', hrest, assert, decide_true, if_true, pure_eq, ok_bind]
    · exact List.forall_mem_cons.mpr ⟨hx', hxs⟩
    · exact List.forall_mem_cons.mpr ⟨length_vecSub hz hx', hys'⟩
    · rw [toVec_vecAdd hx hy] at hnear
      simp only [List.map_cons, toVec_vecSub hz hx', toVec_vecAdd hx hy]
      exact .cons hnear hsweep

end Sweep

end Commelec
