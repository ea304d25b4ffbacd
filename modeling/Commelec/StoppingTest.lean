/-
Commelec/StoppingTest.lean

Where does the projection onto a polytope end?

Dykstra's algorithm stops when a sweep moves the point by less than the threshold, and
returns the point from which that sweep started.  The sweep visits the half-spaces in
turn, each of its points lies in the half-space of its row, and the last one is near the
returned point (`StopsAfter`).  So the returned point is near the half-space of the last row
(`project_near_rows`); how far it is from the others depends on how far apart the points
of the sweep are, and a short sweep may still lie far from the polytope
(`project_far_from_row`).
-/
import Commelec.Dykstra
import Commelec.IntersectionHull
import Commelec.Metered

namespace Commelec

open Effectful Outcome Nearest

/-! ### The last sweep -/

section Loop

variable {n : ℕ} {projs : List (List ℝ → Outcome Err (List ℝ))}
  {Cs : List (Set (EuclideanSpace ℝ (Fin n)))}

/-- From the corrections and the point on, the loop makes `k` sweeps that move the point by the
threshold or more, and then one from `r` through `xs` that does not. -/
inductive StopsAfter (projs : List (List ℝ → Outcome Err (List ℝ))) (r : List ℝ)
    (xs : List (List ℝ)) : ℕ → List (List ℝ) → List ℝ → Prop
  | last {ys ys' : List (List ℝ)} : dykstraSweep projs ys r = ok (xs, ys') →
      dist (xs.getLast?.getD r) r < 1 / 1000 → StopsAfter projs r xs 0 ys r
  | sweep {k : ℕ} {ys xs' ys' : List (List ℝ)} {x : List ℝ} :
      dykstraSweep projs ys x = ok (xs', ys') → 1 / 1000 ≤ dist (xs'.getLast?.getD x) x →
      StopsAfter projs r xs k ys' (xs'.getLast?.getD x) → StopsAfter projs r xs (k + 1) ys x

/-- **Where the loop stops**: a sweep from the returned point moves it by less than the
threshold, and none before it did. -/
theorem dykstraLoop_stops (h : List.Forall₂ (Projects n) projs Cs) {iter : ℕ}
    {ys : List (List ℝ)} {x r : List ℝ} (hx : x.length = n) (hys : AllDim n ys)
    (hlen : ys.length = Cs.length) (hloop : dykstraLoop projs iter ys x = ok (some r)) :
    ∃ k xs, k < iter ∧ StopsAfter projs r xs k ys x ∧ r.length = n ∧ AllDim n xs ∧
      dist (xs.getLast?.getD r) r < 1 / 1000 ∧
      ∃ ys ys' : List (List ℝ), Sweep Cs (ys.map (toVec n)) (toVec n r) (xs.map (toVec n))
        (ys'.map (toVec n)) := by
  induction iter generalizing ys x with
  | zero => exact absurd hloop (by simp [dykstraLoop])
  | succ iter ih =>
    obtain ⟨xs, ys', hok, hxs, hys', hsweep⟩ := sweep_of_projects h hx hys hlen
    have hlast : (xs.getLast?.getD x).length = n := by
      rcases hx' : xs.getLast? with - | x'
      · exact hx
      · exact hxs x' (List.mem_of_getLast? hx')
    rw [dykstraLoop, hok, ok_bind] at hloop
    simp only [convergenceThreshold, lit_real, lt_real] at hloop
    split at hloop
    · next hlt =>
      obtain rfl : x = r := by simpa using hloop
      have hshort : dist (xs.getLast?.getD x) x < 1 / 1000 := by simpa using hlt
      exact ⟨0, xs, Nat.succ_pos iter, .last hok hshort, hx, hxs, hshort, ys, ys', hsweep⟩
    · next hlt =>
      have hlen' : ys'.length = Cs.length := by simpa using hsweep.length.2
      have hmoved : 1 / 1000 ≤ dist (xs.getLast?.getD x) x := by simpa using hlt
      obtain ⟨k, xs', hk, hstops, hrest⟩ := ih hlast hys' hlen' hloop
      exact ⟨k + 1, xs', Nat.succ_lt_succ hk, .sweep hok hmoved hstops, hrest⟩

end Loop

/-! ### The half-spaces of a polytope -/

/-- A row `a` and a bound `b`, as a half-space `a . x <= b`. -/
abbrev halfSpacesOf (A : List (List ℝ)) (bs : List ℝ) : List (HalfSpace ℝ) :=
  List.zipWith HalfSpace.mk A bs

theorem halfSpaces_ok {a : List (List (Outcome Err ℝ))} {b : List (Outcome Err ℝ)}
    {A : List (List ℝ)} {bs : List ℝ} (hA : collect (a.map collect) = ok A)
    (hb : collect b = ok bs) (hlen : A.length = bs.length) :
    halfSpaces a b = ok (halfSpacesOf A bs) := by
  rw [collect_eq_ok, List.forall₂_map_left_iff] at hA
  rw [collect_eq_ok] at hb
  induction hA generalizing b bs with
  | nil => rfl
  | cons hrow _ ih =>
    obtain - | ⟨hbi, hb⟩ := hb
    · simp at hlen
    · rw [halfSpaces, evalToVector, hrow, ok_bind, hbi, ok_bind, ih hb (by simpa using hlen)]
      rfl

/-- `x` is within the distance `d` of the half-space. -/
def HalfSpace.Within (hs : HalfSpace ℝ) (d : ℝ) (x : List ℝ) : Prop :=
  ∃ q, q.length = x.length ∧ dot hs.a q ≤ hs.b ∧ dist x q ≤ d

/-- Points `xs` in the half-spaces, whose last one is near `x`. -/
structure LandsNear (hss : List (HalfSpace ℝ)) (xs : List (List ℝ)) (x : List ℝ) : Prop where
  inside : List.Forall₂ (fun hs q => q.length = x.length ∧ dot hs.a q ≤ hs.b) hss xs
  near : ∃ q, xs.getLast? = some q ∧ dist x q < 1 / 1000

/-- Lists that correspond have corresponding last elements. -/
theorem rel_getLast {α β : Type} {r : α → β → Prop} {as : List α} {bs : List β}
    (h : List.Forall₂ r as bs) {a : α} {b : β} (ha : as.getLast? = some a)
    (hb : bs.getLast? = some b) : r a b := by
  rw [List.getLast?_eq_getElem?] at ha hb
  obtain ⟨hi, rfl⟩ := List.getElem?_eq_some_iff.mp ha
  obtain ⟨hj, rfl⟩ := List.getElem?_eq_some_iff.mp hb
  have hij : as.length - 1 = bs.length - 1 := by rw [h.length_eq]
  have hget := h.get (i := as.length - 1) hi (by rw [hij]; exact hj)
  simpa only [List.get_eq_getElem, hij] using hget

/-- The half-space of the last row is near, the others are as near as the points of the
sweep are to its last point. -/
theorem LandsNear.within {hss : List (HalfSpace ℝ)} {xs : List (List ℝ)} {x : List ℝ}
    (h : LandsNear hss xs x) : ∃ q, xs.getLast? = some q ∧
      (∀ hs, hss.getLast? = some hs → hs.Within (1 / 1000) x) ∧
      List.Forall₂ (fun hs p => hs.Within (1 / 1000 + dist q p) x) hss xs := by
  obtain ⟨q, hq, hdist⟩ := h.near
  have hqlen : q.length = x.length := by
    obtain ⟨i, hi, hqi⟩ := List.mem_iff_getElem.mp (List.mem_of_getLast? hq)
    have hi' : i < hss.length := h.inside.length_eq ▸ hi
    rw [← hqi]
    exact (h.inside.get hi' hi).1
  refine ⟨q, hq, ?_, h.inside.imp ?_⟩
  · intro hs hlast
    exact ⟨q, hqlen, (rel_getLast h.inside hlast hq).2, hdist.le⟩
  · intro hs p ⟨hp, hin⟩
    have htriangle := dist_triangle_list rfl hqlen hp
    exact ⟨p, hp, hin, by linarith⟩

/-- A sweep over half-spaces lands near the point it starts from, if it ends there. -/
theorem landsNear_of_sweep {n : ℕ} {hss : List (HalfSpace ℝ)}
    (hhs : ∀ hs ∈ hss, hs.a.length = n) (hne : hss ≠ []) {ys xs ys' : List (List ℝ)}
    {x : List ℝ} (hx : x.length = n) (hxs : AllDim n xs)
    (h : Sweep (hss.map fun hs => halfSpace (toVec n hs.a) hs.b) (ys.map (toVec n))
      (toVec n x) (xs.map (toVec n)) (ys'.map (toVec n)))
    (hdist : dist (xs.getLast?.getD x) x < 1 / 1000) : LandsNear hss xs x := by
  have hlen : xs.length = hss.length := by simpa using h.length.1
  have hxsne : xs ≠ [] := fun hnil => hne (List.length_eq_zero_iff.mp (by rw [← hlen, hnil]; rfl))
  obtain ⟨q, hq⟩ : ∃ q, xs.getLast? = some q :=
    ⟨xs.getLast hxsne, List.getLast?_eq_some_getLast hxsne⟩
  have hqlen : q.length = n := hxs q (List.mem_of_getLast? hq)
  refine ⟨List.forall₂_iff_get.mpr ⟨hlen.symm, fun i hi hi' => ?_⟩, q, hq, ?_⟩
  · have hp : xs[i].length = n := hxs _ (List.getElem_mem _)
    have ha : hss[i].a.length = n := hhs _ (List.getElem_mem _)
    have hmem := h.mem.get (i := i) (by simpa using hi) (by simpa using hi')
    rw [List.get_eq_getElem, List.get_eq_getElem, List.getElem_map, List.getElem_map] at hmem
    refine ⟨hp.trans hx.symm, ?_⟩
    rw [List.get_eq_getElem, List.get_eq_getElem, dot_eq_inner' ha hp]
    exact hmem
  · rw [dist_comm_list (hx.trans hqlen.symm)]
    simpa [hq] using hdist

/-! ### Projecting onto a polytope -/

/-- What membership in a polytope comes to. -/
theorem membershipConvexPolytope_ok {a : List (List (Outcome Err ℝ))}
    {b : List (Outcome Err ℝ)} {A : List (List ℝ)} {bs point : List ℝ} {res : Bool}
    (hA : evalToMatrix a = ok A) (hb : evalToVector b = ok bs)
    (h : membershipConvexPolytope a b point = ok res) :
    (∀ row ∈ A, row.length = point.length) ∧ A.length = bs.length ∧
      res = allLe (A.map (dot · point)) bs := by
  rw [membershipConvexPolytope, hA, hb, ok_bind, ok_bind] at h
  simp only [assert] at h
  split at h
  · next hrows =>
    split at h
    · next hlen =>
      refine ⟨by simpa using hrows, by simpa using hlen, ?_⟩
      exact (by simpa using h : _ = res).symm
    · exact absurd h (by simp)
  · exact absurd h (by simp)

theorem allLe_iff {x y : List ℝ} (h : x.length = y.length) :
    allLe x y = true ↔ List.Forall₂ (· ≤ ·) x y := by
  induction x generalizing y with
  | nil =>
    obtain rfl : y = [] := List.length_eq_zero_iff.mp h.symm
    simp [allLe]
  | cons v x ih =>
    obtain - | ⟨w, y⟩ := y
    · simp at h
    have htail := ih (y := y) (by simpa using h)
    simp only [allLe, List.zipWith_cons_cons, List.all_cons, Bool.and_eq_true, id, le_real,
      List.forall₂_cons]
    exact and_congr Iff.rfl htail

/-! ### The half-spaces of the rows -/

section Rows

variable {A : List (List ℝ)} {bs : List ℝ}

/-- A half-space of the polytope is that of a row. -/
theorem exists_row {hs : HalfSpace ℝ} (h : hs ∈ halfSpacesOf A bs) :
    ∃ (i : ℕ) (hA : i < A.length) (hb : i < bs.length), hs = ⟨A[i], bs[i]⟩ := by
  obtain ⟨i, hi, rfl⟩ := List.mem_iff_getElem.mp h
  have hi' : i < A.length ∧ i < bs.length := by simpa using hi
  exact ⟨i, hi'.1, hi'.2, List.getElem_zipWith⟩

theorem halfSpacesOf_ne_nil (hA : A ≠ []) (hlen : A.length = bs.length) :
    halfSpacesOf A bs ≠ [] := by
  intro hnil
  have hzero := congrArg List.length hnil
  rw [List.length_zipWith, ← hlen, Nat.min_self, List.length_nil] at hzero
  exact hA (List.length_eq_zero_iff.mp hzero)

/-- A point that satisfies all rows is in all half-spaces. -/
theorem dot_le_of_allLe {point : List ℝ} (hlen : A.length = bs.length)
    (h : allLe (A.map (dot · point)) bs = true) :
    ∀ hs ∈ halfSpacesOf A bs, dot hs.a point ≤ hs.b := by
  intro hs hmem
  obtain ⟨i, hi, hi', rfl⟩ := exists_row hmem
  have hle := (allLe_iff (by rw [List.length_map, hlen])).mp h
  rw [List.forall₂_map_left_iff] at hle
  exact hle.get hi hi'

end Rows

section Project

variable {env : Env ℝ} {nm : Option String} {a : List (List (RealExpr ℝ))}
  {b : List (RealExpr ℝ)} {A : List (List ℝ)} {bs point x : List ℝ}

/-- **Where the projection onto a polytope ends.** -/
theorem projSem_convexPolytope
    (hA : evalToMatrix (a.map (List.map env.evalSem)) = ok A)
    (hb : evalToVector (b.map env.evalSem) = ok bs)
    (hrows : ∀ row ∈ A, ∃ v ∈ row, v ≠ 0)
    (h : env.projSem (.convexPolytope nm a b) point = ok x) :
    (x = point ∧ ∀ hs ∈ halfSpacesOf A bs, dot hs.a x ≤ hs.b) ∨
      ∃ k xs, k < maxIterations ∧ StopsAfter ((halfSpacesOf A bs).map projHalfSpace) x xs k
          (List.replicate (halfSpacesOf A bs).length (List.replicate point.length 0)) point ∧
        LandsNear (halfSpacesOf A bs) xs x := by
  rw [env.projSem_eq] at h
  have h' : projConvexPolytope (a.map (List.map env.evalSem)) (b.map env.evalSem) point = ok x :=
    h
  obtain ⟨inside, hmem, hrest⟩ := bind_eq_ok.mp h'
  obtain ⟨hdim, hlen, hinside⟩ := membershipConvexPolytope_ok hA hb hmem
  have hproper : ∀ hs ∈ halfSpacesOf A bs, hs.a.length = point.length ∧
      squaredNorm hs.a ≠ 0 := by
    intro hs hmem
    obtain ⟨i, hi, -, rfl⟩ := exists_row hmem
    have hrow := List.getElem_mem hi
    exact ⟨hdim _ hrow, dot_self_ne_zero (hrows _ hrow)⟩
  have hrowsNe := halfSpacesOf_ne_nil (ne_nil_of_evalToMatrix hA) hlen
  have hprojects : List.Forall₂ (Projects point.length) ((halfSpacesOf A bs).map projHalfSpace)
      ((halfSpacesOf A bs).map fun hs => halfSpace (toVec point.length hs.a) hs.b) := by
    rw [List.forall₂_map_left_iff, List.forall₂_map_right_iff, List.forall₂_same]
    intro hs hmem
    exact projects_halfSpace (hproper hs hmem).1 (hproper hs hmem).2
  split at hrest
  · next hin =>
    -- the point is in the polytope
    obtain rfl : point = x := by simpa using hrest
    exact Or.inl ⟨rfl, dot_le_of_allLe hlen (hinside.symm.trans hin)⟩
  · -- the point is outside, and the loop has stopped
    rw [halfSpaces_ok (collect_of_evalToMatrix hA) hb hlen, ok_bind] at hrest
    obtain ⟨r, hloop, hconv⟩ := bind_eq_ok.mp hrest
    obtain - | r := r
    · exact absurd hconv (by simp [convergedOr])
    obtain rfl : r = x := by simpa [convergedOr] using hconv
    rw [dykstraProjectionAlgorithm, List.length_map] at hloop
    obtain ⟨k, xs, hk, hstops, hr, hxs, hdist, ys, ys', hsweep⟩ :=
      dykstraLoop_stops hprojects rfl
        (fun y hy => by rw [List.eq_of_mem_replicate hy, List.length_replicate])
        (by simp) hloop
    exact Or.inr ⟨k, xs, hk, hstops,
      landsNear_of_sweep (fun hs hmem => (hproper hs hmem).1) hrowsNe hr hxs hsweep hdist⟩

/-- **A returned point is near the half-space of the last row**, and as near to the others
as the points of the run's last sweep are to its last one; or it is the point itself. -/
theorem project_near_rows {af : AdvFunc ℝ} (hv : af.advValid = true) {bv : ValueMap ℝ}
    (hA : evalToMatrix (a.map (List.map (af.env bv).evalSem)) = ok A)
    (hb : evalToVector (b.map (af.env bv).evalSem) = ok bs)
    (hrows : ∀ row ∈ A, ∃ v ∈ row, v ≠ 0) {fuel : ℕ}
    (h : (AdvFunc.project fuel (.convexPolytope nm a b) point bv af).1 = ok x) :
    (x = point ∧ ∀ hs ∈ halfSpacesOf A bs, dot hs.a x ≤ hs.b) ∨
      ∃ k xs q, k < maxIterations ∧ StopsAfter ((halfSpacesOf A bs).map projHalfSpace) x xs k
          (List.replicate (halfSpacesOf A bs).length (List.replicate point.length 0)) point ∧
        List.Forall₂ (fun hs p => dot hs.a p ≤ hs.b) (halfSpacesOf A bs) xs ∧
        xs.getLast? = some q ∧
        (∀ hs, (halfSpacesOf A bs).getLast? = some hs → hs.Within (1 / 1000) x) ∧
        List.Forall₂ (fun hs p => hs.Within (1 / 1000 + dist q p) x) (halfSpacesOf A bs) xs := by
  have hpoint := sem_of_returned hv (refines_projPoint (af.env bv) _ point) h
  obtain ⟨res, hproj, hrest⟩ := bind_eq_ok.mp hpoint
  obtain ⟨-, -, hres⟩ := bind_eq_ok.mp hrest
  obtain rfl : res = x := by simpa using hres
  rcases projSem_convexPolytope hA hb hrows hproj with hin | ⟨k, xs, hk, hstops, hlands⟩
  · exact Or.inl hin
  · obtain ⟨q, hq, hlast, hall⟩ := hlands.within
    exact Or.inr ⟨k, xs, q, hk, hstops, hlands.inside.imp fun _ _ hin => hin.2, hq, hlast, hall⟩

end Project

/-! ### A wedge -/

/-- The points with `P ≤ 0` and `-20 P + Q ≤ -1/5`. -/
noncomputable def wedge : SetExpr ℝ :=
  .convexPolytope none [[.real none 1, .real none 0], [.real none (-20), .real none 1]]
    [.real none 0, .real none (-1 / 5)]

noncomputable def wedgeRows : List (HalfSpace ℝ) := [⟨[1, 0], 0⟩, ⟨[-20, 1], -1 / 5⟩]

theorem evalToMatrix_eq {m : Type → Type} [Effects Err m] {mx : List (List (m ℝ))}
    (h : (checkCapnpMatrix mx).1 = false) : evalToMatrix mx = collect (mx.map collect) := by
  rw [evalToMatrix, h]
  rfl

section Wedge

variable {boundVars : ValueMap ℝ} {realExprRefs : RealExprRefMap ℝ} {fuel : ℕ}

theorem spends_reals (xs : List ℝ) :
    Spends xs.length xs (collect ((xs.map (RealExpr.real none)).map
      (calls (methods boundVars realExprRefs) (fuel + 1)).eval)) := by
  have h := Spends.collect (n := fun _ => 1) (a := id) (l := xs) fun x _ =>
    show Spends 1 x ((calls (methods boundVars realExprRefs) (fuel + 1)).eval (.real none x)) from
      .of_metered (metered_real x)
  rw [List.map_map]
  simpa [Function.comp_def] using h

theorem spends_matrix (A : List (List ℝ)) :
    Spends (A.map List.length).sum A (collect ((A.map (List.map (RealExpr.real none))).map
      fun row => collect (row.map
        (calls (methods boundVars realExprRefs) (fuel + 1)).eval))) := by
  have hrow : ∀ row ∈ A, Spends row.length (id row) (collect ((row.map (RealExpr.real none)).map
      (calls (methods boundVars realExprRefs) (fuel + 1)).eval)) := fun row _ => spends_reals row
  have h := Spends.collect hrow
  rw [List.map_map]
  simpa [Function.comp_def] using h

end Wedge

/-- Projecting a point of the plane onto a half-plane. -/
theorem projHalfSpace_pair {a₁ a₂ b p q : ℝ} (h : b < a₁ * p + a₂ * q) :
    (projHalfSpace ⟨[a₁, a₂], b⟩ [p, q] : Outcome Err (List ℝ))
      = ok [p - (a₁ * p + a₂ * q - b) * (a₁ / (a₁ * a₁ + a₂ * a₂)),
        q - (a₁ * p + a₂ * q - b) * (a₂ / (a₁ * a₁ + a₂ * a₂))] := by
  have hout : ¬ a₁ * p + a₂ * q ≤ b := not_le.mpr h
  simp [projHalfSpace, membershipHalfSpace, assert, dot, squaredNorm, vecSub, vecScale, hout]

/-- The first sweep from `(1/100, 0)` is short. -/
theorem dykstra_wedge :
    (dykstraProjectionAlgorithm (wedgeRows.map projHalfSpace) [1 / 100, 0] : Outcome Err _)
      = ok (some [1 / 100, 0]) := by
  have hfirst : (projHalfSpace ⟨[1, 0], 0⟩ [1 / 100 + 0, 0 + 0] : Outcome Err (List ℝ))
      = ok [0, 0] := by
    rw [projHalfSpace_pair (by norm_num)]
    norm_num
  have hsecond : (projHalfSpace ⟨[-20, 1], -1 / 5⟩ [0 + 0, 0 + 0] : Outcome Err (List ℝ))
      = ok [4 / 401, -1 / 2005] := by
    rw [projHalfSpace_pair (by norm_num)]
    norm_num
  have hsweep : (dykstraSweep (wedgeRows.map projHalfSpace) [[0, 0], [0, 0]] [1 / 100, 0]
      : Outcome Err _) = ok ([[0, 0], [4 / 401, -1 / 2005]],
        [[1 / 100 + 0 - 0, 0 + 0 - 0], [0 + 0 - 4 / 401, 0 + 0 - -1 / 2005]]) := by
    simp only [wedgeRows, List.map_cons, List.map_nil, dykstraSweep, assert, vecAdd, vecSub,
      List.zipWith_cons_cons, List.zipWith_nil_left, List.length_cons, List.length_nil,
      decide_true, if_true, pure_eq, ok_bind, hfirst, hsecond]
  have hshort : dist [4 / 401, -1 / 2005] [1 / 100, 0] < (1 / 1000 : ℝ) := by
    simp only [dist, norm, squaredNorm, dot, vecSub, List.zipWith_cons_cons,
      List.zipWith_nil_left, List.sum_cons, List.sum_nil, sqrt_real]
    rw [Real.sqrt_lt' (by norm_num)]
    norm_num
  show dykstraLoop (wedgeRows.map projHalfSpace) (999 + 1) [[0, 0], [0, 0]] [1 / 100, 0] = _
  rw [dykstraLoop, hsweep, ok_bind]
  simp only [List.getLast?_cons_cons, List.getLast?_singleton, Option.getD_some,
    convergenceThreshold, lit_real, lt_real]
  rw [if_pos (by simpa using hshort)]
  rfl

section Wedge

variable {boundVars : ValueMap ℝ} {realExprRefs : RealExprRefMap ℝ}

/-- The point `(1/100, 0)` breaks the first row. -/
theorem allLe_wedge :
    allLe ([[1, 0], [-20, 1]].map (dot · [1 / 100, 0])) ([0, -1 / 5] : List ℝ) = false := by
  rw [Bool.eq_false_iff]
  intro h
  have hrow := (List.forall₂_cons.mp ((allLe_iff (by rfl)).mp h)).1
  norm_num [dot] at hrow

theorem spends_membership_wedge :
    Spends 6 false (membershipConvexPolytope
      (([[1, 0], [-20, 1]].map (List.map (RealExpr.real none))).map
        (List.map (calls (methods boundVars realExprRefs) 2).eval))
      (([0, -1 / 5].map (RealExpr.real none)).map
        (calls (methods boundVars realExprRefs) 2).eval) [1 / 100, 0]) := by
  refine Spends.bind (n := 4) (k := 2) (a := [[1, 0], [-20, 1]]) ?_ ?_
  · rw [evalToMatrix_eq rfl, List.map_map]
    exact spends_matrix [[1, 0], [-20, 1]]
  · refine Spends.bind (n := 2) (k := 0) (spends_reals [0, -1 / 5]) (.of_stateless fun s => ?_)
    rw [allLe_wedge]
    rfl

theorem spends_halfSpaces_wedge :
    Spends 6 wedgeRows (halfSpaces
      (([[1, 0], [-20, 1]].map (List.map (RealExpr.real none))).map
        (List.map (calls (methods boundVars realExprRefs) 2).eval))
      (([0, -1 / 5].map (RealExpr.real none)).map
        (calls (methods boundVars realExprRefs) 2).eval)) := by
  refine Spends.bind (n := 2) (k := 4) (spends_reals [1, 0]) ?_
  refine Spends.bind (n := 1) (k := 3) (.of_metered (metered_real _)) ?_
  refine Spends.map (n := 3) (a := [HalfSpace.mk [-20, 1] (-1 / 5)]) ?_ _
  refine Spends.bind (n := 2) (k := 1) (spends_reals [-20, 1]) ?_
  exact Spends.map (n := 1) (.of_metered (metered_real _)) _

theorem stateless_dykstra_wedge :
    stateless.rel (ok [1 / 100, 0])
      (dykstraProjectionAlgorithm (wedgeRows.map projHalfSpace) [1 / 100, 0] >>= convergedOr
        : Method ℝ (List ℝ)) := by
  have hprojs : RelProjs stateless (wedgeRows.map (projHalfSpace (m := Outcome Err)))
      (wedgeRows.map (projHalfSpace (m := Method ℝ))) := by
    rw [RelProjs, List.forall₂_map_left_iff, List.forall₂_map_right_iff, List.forall₂_same]
    exact fun hs _ => rel_projHalfSpace stateless hs
  have hrel := rel_dykstra stateless hprojs [1 / 100, 0]
  rwa [dykstra_wedge] at hrel

theorem spends_project_wedge :
    Spends 13 [1 / 100, 0]
      (projPoint (methods boundVars realExprRefs) 3 wedge [1 / 100, 0]) := by
  refine Spends.bind (n := 13) (k := 0) (a := [1 / 100, 0]) ?_ (.pure _)
  refine Spends.bind (n := 1) (k := 12) .visitSet ?_
  refine Spends.bind (n := 6) (k := 6) (a := false) spends_membership_wedge ?_
  exact Spends.bind (n := 6) (k := 0) spends_halfSpaces_wedge
    (.of_stateless stateless_dykstra_wedge)

end Wedge

/-- The first row of the wedge is further than `1/100` away from `(1/100, 0)`. -/
theorem wedge_far : ¬ (⟨[1, 0], 0⟩ : HalfSpace ℝ).Within (1 / 1000) [1 / 100, 0] := by
  rintro ⟨q, hlen, hin, hdist⟩
  obtain ⟨p, q, rfl⟩ := List.length_eq_two.mp hlen
  have hp : p ≤ 0 := by simpa [dot] using hin
  have hsq : (1 / 100 - p) ^ 2 + q ^ 2 ≤ (1 / 1000) ^ 2 := by
    rw [← Real.sqrt_le_left (by norm_num)]
    refine le_trans (le_of_eq ?_) hdist
    simp only [dist, norm, squaredNorm, dot, vecSub, List.zipWith_cons_cons,
      List.zipWith_nil_left, List.sum_cons, List.sum_nil, sqrt_real]
    congr 1
    ring
  nlinarith [sq_nonneg q]

/-- The wedge has a point, and `(1/100, 0)` is projected onto itself although its distance
to the first row is `1/100`. -/
theorem project_far_from_row :
    (AdvFunc.project 3 wedge [1 / 100, 0] (bindPQ 0 0) emptyAdv).1 = ok [1 / 100, 0] ∧
      (∀ hs ∈ wedgeRows, dot hs.a [0, -1] ≤ hs.b) ∧
      ∃ hs ∈ wedgeRows, ¬ hs.Within (1 / 1000) [1 / 100, 0] := by
  refine ⟨spends_project_wedge.query (n := 13) rfl (by decide), ?_, ?_⟩
  · intro hs hmem
    rcases List.mem_pair.mp hmem with rfl | rfl
    · norm_num [dot]
    · norm_num [dot]
  · exact ⟨_, List.mem_cons_self, wedge_far⟩

theorem project_near_rows_sample :
    ∃ hs ∈ wedgeRows, hs.Within (1 / 1000) [1 / 100, 0] := by
  have hreals : ∀ xs : List ℝ, (collect ((xs.map (RealExpr.real none)).map
      (emptyAdv.env (bindPQ 0 0)).evalSem) : Outcome Err _) = ok xs := by
    intro xs
    rw [List.map_map]
    have hok : (collect (xs.map fun x => (ok (id x) : Outcome Err ℝ))) = ok (xs.map id) :=
      collect_map_ok id xs
    simpa [Function.comp_def, Env.evalSem_real] using hok
  have hproject : (AdvFunc.project 3 (.convexPolytope none
      ([[1, 0], [-20, 1]].map (List.map (RealExpr.real none)))
      ([0, -1 / 5].map (RealExpr.real none))) [1 / 100, 0] (bindPQ 0 0) emptyAdv).1
        = ok [1 / 100, 0] := spends_project_wedge.query (n := 13) rfl (by decide)
  have h := project_near_rows rfl (A := [[1, 0], [-20, 1]]) ?_ (hreals _) ?_ hproject
  · rcases h with ⟨-, hin⟩ | ⟨-, -, -, -, -, -, -, hlast, -⟩
    · exact ⟨⟨[-20, 1], -1 / 5⟩, by simp [wedgeRows], _, rfl, hin _ (by simp),
        by rw [dist_self_list]; norm_num⟩
    · exact ⟨⟨[-20, 1], -1 / 5⟩, by simp [wedgeRows], hlast _ rfl⟩
  · rw [evalToMatrix_eq rfl, List.map_map, List.map_map]
    exact collect_eq_ok.mpr (.cons (hreals [1, 0]) (.cons (hreals [-20, 1]) .nil))
  · intro row hrow
    rcases List.mem_pair.mp hrow with rfl | rfl
    · exact ⟨1, by simp, by norm_num⟩
    · exact ⟨1, by simp, by norm_num⟩

end Commelec
