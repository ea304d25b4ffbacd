/-
Commelec/BasicProjections.lean

Projections onto rectangles, half-spaces and balls, compared with membership in them.

The two are written separately: `membership` squares the radius and compares bounds, `proj`
normalises vectors and clamps coordinates.  For each kind of set

* the accepted points are those of a set `C` in `EuclideanSpace ℝ (Fin n)`
  (`accepts_rectangle_iff`, `accepts_halfSpace_iff`, `accepts_ball_iff`);
* `proj` returns the nearest point of the same `C` (`Projects`);

so `proj` returns the accepted point that is nearest (`Projects.nearestAccepted`).
-/
import Commelec.AdvertisedSets

namespace Commelec

open Effectful Outcome Nearest

/-- From `p`, `proj` returns a point that is accepted, no accepted point is nearer, and an
accepted `p` is returned as it is. -/
def NearestAccepted (accepts : List ℝ → Outcome Err Bool)
    (proj : List ℝ → Outcome Err (List ℝ)) (p : List ℝ) : Prop :=
  ∃ x, proj p = ok x ∧ accepts x = ok true ∧
    (∀ q, accepts q = ok true → dist x p ≤ dist q p) ∧ (accepts p = ok true → x = p)

section Nearest

variable {n : ℕ} {C : Set (EuclideanSpace ℝ (Fin n))}

/-- A list is determined by its vector. -/
theorem toVec_injective {x y : List ℝ} (hx : x.length = n) (hy : y.length = n)
    (h : toVec n x = toVec n y) : x = y := by
  apply List.ext_getElem (hx.trans hy.symm)
  intro i hi hi'
  have hcoord : x.getD i 0 = y.getD i 0 := congrFun (congrArg WithLp.ofLp h) ⟨i, hx ▸ hi⟩
  rwa [List.getD_eq_getElem _ _ hi, List.getD_eq_getElem _ _ hi'] at hcoord

/-- No list of the set is nearer. -/
theorem Projects.dist_le {proj : List ℝ → Outcome Err (List ℝ)} (hproj : Projects n proj C)
    {p : List ℝ} (hp : p.length = n) :
    ∃ x, proj p = ok x ∧ x.length = n ∧ IsNearest C (toVec n p) (toVec n x) ∧
      ∀ q : List ℝ, q.length = n → toVec n q ∈ C → dist x p ≤ dist q p := by
  obtain ⟨x, hx, hlen, hnear⟩ := hproj p hp
  refine ⟨x, hx, hlen, hnear, fun q hqlen hqmem => ?_⟩
  rw [dist_comm_list (hlen.trans hp.symm), dist_comm_list (hqlen.trans hp.symm),
    dist_eq_norm_sub hp hlen, dist_eq_norm_sub hp hqlen]
  exact hnear.norm_le hqmem

/-- The nearest point of the set of accepted points is the nearest accepted point. -/
theorem Projects.nearestAccepted {accepts : List ℝ → Outcome Err Bool}
    {proj : List ℝ → Outcome Err (List ℝ)} (hproj : Projects n proj C)
    (haccepts : ∀ q, accepts q = ok true ↔ q.length = n ∧ toVec n q ∈ C)
    {p : List ℝ} (hp : p.length = n) : NearestAccepted accepts proj p := by
  obtain ⟨x, hx, hlen, hnear, hle⟩ := hproj.dist_le hp
  refine ⟨x, hx, (haccepts x).mpr ⟨hlen, hnear.mem⟩, fun q hq => ?_, fun hin => ?_⟩
  · obtain ⟨hqlen, hqmem⟩ := (haccepts q).mp hq
    exact hle q hqlen hqmem
  · have hmem := ((haccepts p).mp hin).2
    apply toVec_injective hlen hp
    symm
    apply hnear.unique hmem
    rw [sub_self, norm_zero]
    exact norm_nonneg _

end Nearest

/-! ### Membership -/

section Membership

variable {n : ℕ} {q : List ℝ}

/-- A test that begins with a check of the dimension. -/
theorem assert_bind_iff {P : Prop} [Decidable P] {x : Outcome Err Bool} :
    ((assert (decide P) : Outcome Err Unit) >>= fun _ => x) = ok true ↔ P ∧ x = ok true := by
  by_cases h : P
  · rw [decide_eq_true h]
    exact (and_iff_right h).symm
  · rw [decide_eq_false h]
    exact iff_of_false (by simp [assert]) fun hP => h hP.1

theorem ok_le_iff {x y : ℝ} : (ok (Double.le x y) : Outcome Err Bool) = ok true ↔ x ≤ y := by
  rw [Outcome.ok.injEq, le_real]

theorem mem_boundsBox_iff {bounds : List (ℝ × ℝ)} (hn : bounds.length = n) (hq : q.length = n) :
    toVec n q ∈ boundsBox n bounds ↔ Between bounds q := by
  rw [Between, List.forall₂_iff_get]
  constructor
  · intro h
    refine ⟨hn.trans hq.symm, fun i hi hi' => ?_⟩
    have hcoord : min (bounds.getD i 0).1 (bounds.getD i 0).2 ≤ q.getD i 0 ∧
      q.getD i 0 ≤ max (bounds.getD i 0).1 (bounds.getD i 0).2 := h ⟨i, hn ▸ hi⟩
    rwa [List.getD_eq_getElem _ _ hi, List.getD_eq_getElem _ _ hi'] at hcoord
  · rintro ⟨-, h⟩ i
    have hi : (i : ℕ) < bounds.length := hn ▸ i.isLt
    have hi' : (i : ℕ) < q.length := hq ▸ i.isLt
    show min (bounds.getD i 0).1 (bounds.getD i 0).2 ≤ q.getD i 0 ∧
      q.getD i 0 ≤ max (bounds.getD i 0).1 (bounds.getD i 0).2
    rw [List.getD_eq_getElem _ _ hi, List.getD_eq_getElem _ _ hi']
    exact h i hi hi'

theorem accepts_rectangle_iff {rect : List (Outcome Err ℝ × Outcome Err ℝ)}
    {bounds : List (ℝ × ℝ)} (h : Bounds rect bounds) (hn : rect.length = n) (q : List ℝ) :
    membershipRectangle rect q = ok true ↔ q.length = n ∧ toVec n q ∈ boundsBox n bounds := by
  have hlen : bounds.length = n := h.length_eq.symm.trans hn
  rw [membershipRectangle, assert_bind_iff, hn]
  refine and_congr_right fun hq => ?_
  rw [mem_boundsBox_iff hlen hq]
  exact insideBounds_iff h (hq.trans hlen.symm)

theorem accepts_halfSpace_iff {hs : HalfSpace ℝ} (ha : hs.a.length = n) (q : List ℝ) :
    membershipHalfSpace hs q = ok true
      ↔ q.length = n ∧ toVec n q ∈ halfSpace (toVec n hs.a) hs.b := by
  rw [membershipHalfSpace, assert_bind_iff, ha, eq_comm]
  refine and_congr_right fun hq => ?_
  rw [pure_eq, ok_le_iff, dot_eq_inner' ha hq]
  rfl

/-- The comparison of squares, for a radius that is not negative. -/
theorem squaredNorm_le_iff {c : List ℝ} {r : ℝ} (hc : c.length = n) (hq : q.length = n)
    (hr : 0 ≤ r) :
    squaredNorm (vecSub c q) ≤ r * r ↔ toVec n q ∈ Metric.closedBall (toVec n c) r := by
  rw [squaredNorm_eq (length_vecSub hc hq), toVec_vecSub hc hq, norm_sub_rev, ← sq,
    sq_le_sq₀ (norm_nonneg _) hr, mem_closedBall_iff_norm]

theorem accepts_ball_iff {center : List (Outcome Err ℝ)} {radius : Outcome Err ℝ} {c : List ℝ}
    {r : ℝ} (hc : evalToVector center = ok c) (hr : radius = ok r) (hn : center.length = n)
    (hr0 : 0 ≤ r) (q : List ℝ) :
    membershipBall center radius q = ok true
      ↔ q.length = n ∧ toVec n q ∈ Metric.closedBall (toVec n c) r := by
  have hlen : c.length = n := (collect_length hc).trans hn
  rw [membershipBall, assert_bind_iff, hn, hc, ok_bind, hr, ok_bind]
  refine and_congr_right fun hq => ?_
  rw [pure_eq, ok_le_iff, squaredNorm_le_iff hlen hq hr0]

end Membership

/-- **The projection onto a basic set is the nearest point that the set accepts**, in every
dimension: for rectangles with bounds in either order, half-spaces whose normal is not zero and
balls whose radius is not negative. -/
theorem projection_nearest_accepted (p : List ℝ) :
    (∀ (rect : List (Outcome Err ℝ × Outcome Err ℝ)) (bounds : List (ℝ × ℝ)),
      Bounds rect bounds → rect.length = p.length →
      NearestAccepted (membershipRectangle rect) (projRectangle rect) p) ∧
    (∀ hs : HalfSpace ℝ, hs.a.length = p.length → (∃ v ∈ hs.a, v ≠ 0) →
      NearestAccepted (membershipHalfSpace hs) (projHalfSpace hs) p) ∧
    ∀ (center : List (Outcome Err ℝ)) (radius : Outcome Err ℝ) (c : List ℝ) (r : ℝ),
      evalToVector center = ok c → radius = ok r → center.length = p.length → 0 ≤ r →
      NearestAccepted (membershipBall center radius) (projBall center radius) p := by
  refine ⟨?_, ?_, ?_⟩
  · intro rect bounds h hn
    have hproj := projects_rectangle h (h.length_eq.symm.trans hn)
    exact hproj.nearestAccepted (accepts_rectangle_iff h hn) rfl
  · intro hs ha hne
    have hproj := projects_halfSpace ha (dot_self_ne_zero hne)
    exact hproj.nearestAccepted (accepts_halfSpace_iff ha) rfl
  · intro center radius c r hc hr hn hr0
    have hproj := projects_ball hc hr ((collect_length hc).trans hn) hr0
    exact hproj.nearestAccepted (accepts_ball_iff hc hr hn hr0) rfl

/-- From `(3, 4)` onto the square with corners `(0, 2)` and `(2, 0)`, the points left of the
second axis, and the unit disk. -/
theorem projection_nearest_accepted_sample :
    NearestAccepted (membershipRectangle [(ok 0, ok 2), (ok 2, ok 0)])
        (projRectangle [(ok 0, ok 2), (ok 2, ok 0)]) [3, 4] ∧
      NearestAccepted (membershipHalfSpace ⟨[1, 0], 0⟩) (projHalfSpace ⟨[1, 0], 0⟩) [3, 4] ∧
      NearestAccepted (membershipBall [ok 0, ok 0] (ok 1)) (projBall [ok 0, ok 0] (ok 1))
        [3, 4] := by
  obtain ⟨hrectangle, hhalfSpace, hball⟩ := projection_nearest_accepted [3, 4]
  refine ⟨hrectangle _ [(0, 2), (2, 0)] ?_ rfl, hhalfSpace _ rfl ⟨1, by simp, one_ne_zero⟩,
    hball _ _ [0, 0] 1 rfl rfl rfl zero_le_one⟩
  exact .cons ⟨rfl, rfl⟩ (.cons ⟨rfl, rfl⟩ .nil)

end Commelec
