/-
Commelec/DykstraInvariants.lean

The invariants of Dykstra's algorithm.

The sets are half-spaces, balls and rectangles.  Whatever the number of sets and of completed
sweeps, the starting point is the sum of `xv[m]` and all corrections `yv[i]`; and after a sweep
every `xv[i]` lies in its set, with `yv[i]` normal to the set there.  So when a sweep leaves all
points where the previous one ended, that point carries normal vectors of all sets: the
algorithm stops there, and it is the nearest point of the intersection
(`dykstra_invariants`).

A sweep is a `Nearest.Sweep` of the library; the projections may throw "max nesting depth
reached" and nothing else.
-/
import Mathlib.Order.Filter.AtTopBot.Basic
import Commelec.Dykstra
import Commelec.InPlace

namespace Commelec

open Effectful Outcome Nearest

/-! ### Sets -/

/-- What the container `sets` holds: half-spaces of a polytope, or members of an
intersection. -/
inductive Operand (R : Type) where
  | halfSpace (hs : HalfSpace R)
  | set (set : SetExpr R)

/-- `proj` of a set. -/
def Operand.proj {R : Type} [Double R] {m : Type → Type} [Effects Err m] (self : Self R m)
    (fuel : ℕ) : Operand R → List R → m (List R)
  | halfSpace hs => projHalfSpace hs
  | set s => Commelec.proj self fuel s

/-- The operand is a half-space, a ball or a rectangle, and this is the set of its points. -/
inductive Denotes (env : Env ℝ) (n : ℕ) : Operand ℝ → Set (EuclideanSpace ℝ (Fin n)) → Prop
  | halfSpace {hs : HalfSpace ℝ} : hs.a.length = n → (∃ x ∈ hs.a, x ≠ 0) →
      Denotes env n (.halfSpace hs) (halfSpace (toVec n hs.a) hs.b)
  | ball {nm : Option String} {center : List (RealExpr ℝ)} {radius : RealExpr ℝ} {c : List ℝ}
      {r : ℝ} : List.Forall₂ (fun e x => env.evalSem e = ok x) center c →
      env.evalSem radius = ok r → c.length = n → 0 ≤ r →
      Denotes env n (.set (.ball nm center radius)) (Metric.closedBall (toVec n c) r)
  | rectangle {nm : Option String} {rect : List (RealExpr ℝ × RealExpr ℝ)}
      {bounds : List (ℝ × ℝ)} : List.Forall₂ (fun b v =>
        env.evalSem b.1 = ok v.1 ∧ env.evalSem b.2 = ok v.2) rect bounds →
      bounds.length = n → Denotes env n (.set (.rectangle nm rect)) (boundsBox n bounds)

section Denotes

variable {env : Env ℝ} {n : ℕ}

open Filter

theorem eventually_eval {e : RealExpr ℝ} {x : ℝ} (h : env.evalSem e = ok x) :
    ∀ᶠ fuel in atTop, (env.callsAt fuel).eval e = ok x :=
  eventually_atTop.mpr (Chain.exists_forall_eq (env.eval_mono e) h)

/-- Finitely many properties that hold with enough fuel hold together. -/
theorem eventually_forall₂ {α β : Type} {P : ℕ → α → β → Prop} {as : List α} {bs : List β}
    (h : List.Forall₂ (fun a b => ∀ᶠ fuel in atTop, P fuel a b) as bs) :
    ∀ᶠ fuel in atTop, List.Forall₂ (P fuel) as bs := by
  induction h with
  | nil => exact .of_forall fun _ => .nil
  | cons hab _ ih => exact (hab.and ih).mono fun _ h => .cons h.1 h.2

/-- The projection of a set is that of the recursive calls one level down. -/
theorem eventually_proj {s : SetExpr ℝ} {C : Set (EuclideanSpace ℝ (Fin n))}
    (h : ∀ᶠ fuel in atTop, Projects n
      (projSetExpr env.self (env.callsAt fuel) (proj env.self fuel) s) C) :
    ∀ᶠ fuel in atTop, Projects n ((Operand.set s).proj env.self fuel) C := by
  obtain ⟨k, hk⟩ := eventually_atTop.mp h
  -- the recursion itself needs one more unit of fuel
  refine eventually_atTop.mpr ⟨k + 1, fun fuel hfuel => ?_⟩
  obtain ⟨i, rfl⟩ : ∃ i, fuel = i + 1 := ⟨fuel - 1, by omega⟩
  exact hk i (by omega)

/-- **With enough fuel, `proj` returns the nearest point.** -/
theorem Denotes.eventually_projects {op : Operand ℝ} {C : Set (EuclideanSpace ℝ (Fin n))}
    (h : Denotes env n op C) :
    ∀ᶠ fuel in atTop, Projects n (op.proj env.self fuel) C := by
  cases h with
  | halfSpace ha hne => exact .of_forall fun _ => projects_halfSpace ha (dot_self_ne_zero hne)
  | @ball nm center radius c r hc hr hn hr0 =>
    apply eventually_proj
    have hcenter := eventually_forall₂ (hc.imp fun _ _ => eventually_eval)
    refine (hcenter.and (eventually_eval hr)).mono fun fuel h => ?_
    refine projects_ball ?_ h.2 hn hr0
    rw [evalToVector, collect_eq_ok, List.forall₂_map_left_iff]
    exact h.1
  | @rectangle nm rect bounds hb hn =>
    apply eventually_proj
    have hbounds := eventually_forall₂ (hb.imp fun _ _ h =>
      (eventually_eval h.1).and (eventually_eval h.2))
    refine hbounds.mono fun fuel h => ?_
    refine projects_rectangle ?_ hn
    rw [Bounds, List.forall₂_map_left_iff]
    exact h

end Denotes

/-! ### What a sweep leaves -/

namespace Vectors

variable {n : ℕ}

/-- The starting point is `xv[m] + yv[1] + ... + yv[m]`. -/
def SumsTo (n m : ℕ) (point : List ℝ) (v : Vectors ℝ) : Prop :=
  toVec n point = toVec n (v.xv m) + ∑ i ∈ Finset.Icc 1 m, toVec n (v.yv i)

/-- Every `xv[i]` lies in its set, and `yv[i]` is normal to the set there. -/
def Normals (Cs : List (Set (EuclideanSpace ℝ (Fin n)))) (v : Vectors ℝ) : Prop :=
  ∀ i (hi : i < Cs.length), Normal Cs[i] (toVec n (v.xv (i + 1))) (toVec n (v.yv (i + 1)))

/-- The vectors that a sweep reads have dimension `n`. -/
structure Sized (n m : ℕ) (v : Vectors ℝ) : Prop where
  last : (v.xv m).length = n
  corrections : AllDim n (v.corrections 1 m)

/-- The arrays `v'` are left by a sweep over the sets from `v`. -/
structure Swept (Cs : List (Set (EuclideanSpace ℝ (Fin n)))) (v v' : Vectors ℝ) : Prop where
  result : v'.result = v.result
  points : AllDim n (v'.points 1 Cs.length)
  corrections : AllDim n (v'.corrections 1 Cs.length)
  sweep : Sweep Cs ((v.corrections 1 Cs.length).map (toVec n)) (toVec n (v.xv Cs.length))
    ((v'.points 1 Cs.length).map (toVec n)) ((v'.corrections 1 Cs.length).map (toVec n))

theorem sum_corrections (m : ℕ) (v : Vectors ℝ) :
    ((v.corrections 1 m).map (toVec n)).sum = ∑ i ∈ Finset.Icc 1 m, toVec n (v.yv i) := by
  have hicc : Finset.Icc 1 m = (List.range' 1 m).toFinset := by
    ext i
    rw [Finset.mem_Icc, List.mem_toFinset, List.mem_range'_1]
    omega
  rw [hicc, List.sum_toFinset _ List.nodup_range', corrections, List.map_map]
  rfl

theorem getLast_points {m : ℕ} (hm : m ≠ 0) (v : Vectors ℝ) :
    (v.points 1 m).getLast? = some (v.xv m) := by
  rw [points, List.getLast?_map, List.getLast?_range', if_neg hm, Option.map_some]
  congr 2
  omega

namespace Swept

variable {Cs : List (Set (EuclideanSpace ℝ (Fin n)))} {v v' : Vectors ℝ} {point : List ℝ}
  (h : Swept Cs v v')

include h

theorem sized (hm : Cs.length ≠ 0) : v'.Sized n Cs.length where
  last := h.points _ (List.mem_of_getLast? (getLast_points hm v'))
  corrections := h.corrections

/-- **The sum is kept.** -/
theorem sumsTo (hm : Cs.length ≠ 0) (hv : v.SumsTo n Cs.length point) :
    v'.SumsTo n Cs.length point := by
  have hsum := h.sweep.sum
  rw [List.getLast?_map, getLast_points hm, Option.map_some, Option.getD_some, sum_corrections,
    sum_corrections] at hsum
  rw [SumsTo, hsum]
  exact hv

/-- **The corrections are normal.** -/
theorem normals : v'.Normals Cs := by
  intro i hi
  have hget := (List.forall₂_iff_get.mp h.sweep.normal).2 i hi (by
    simp [Vectors.points, Vectors.corrections, hi])
  simpa [Vectors.points, Vectors.corrections, Nat.add_comm 1 i] using hget

end Swept

end Vectors

/-! ### Runs -/

namespace InPlace

section Running

variable {R : Type} [Double R] {σ : Type} {sets : List (List R → Run σ Err (List R))}
  {point : List R} {s : σ}

/-- The algorithm has completed `k` sweeps without stopping; then its arrays are `v`, and the
object is in the last state. -/
inductive Running (sets : List (List R → Run σ Err (List R))) (point : List R) (s : σ) :
    ℕ → Vectors R → σ → Prop
  | start : Running sets point s 0 (start sets.length point) s
  | sweep {k : ℕ} {v v' : Vectors R} {s₁ s₂ : σ} : Running sets point s k v s₁ →
      k < maxIterations → innerLoop sets.length sets 1 v s₁ = (ok v', s₂) →
      Double.lt (dist (v'.xv sets.length) v'.result) convergenceThreshold = false →
      Running sets point s (k + 1) { v' with result := v'.xv sets.length } s₂

variable {k : ℕ} {v v' : Vectors R} {s₁ s₂ : σ}

/-- What is left to do after `k` sweeps. -/
theorem Running.rest (h : Running sets point s k v s₁) : k ≤ maxIterations ∧
    dykstraProjectionAlgorithm sets point s = outerLoop sets (maxIterations - k) v s₁ := by
  induction h with
  | start => exact ⟨Nat.zero_le _, rfl⟩
  | @sweep k v v' s₁ s₂ _ hk hsweep hlong ih =>
    obtain ⟨iter, hiter⟩ : ∃ iter, maxIterations - k = iter + 1 := ⟨maxIterations - k - 1, by omega⟩
    have hnext : maxIterations - (k + 1) = iter := by omega
    refine ⟨hk, ?_⟩
    rw [ih.2, hiter, outerLoop, Run.bind_ok hsweep, if_neg (by simp [hlong]), hnext]

/-- A sweep that moves `xv[m]` by less than the threshold is the last one. -/
theorem Running.converges (h : Running sets point s k v s₁) (hk : k < maxIterations)
    (hsweep : innerLoop sets.length sets 1 v s₁ = (ok v', s₂))
    (hshort : Double.lt (dist (v'.xv sets.length) v'.result) convergenceThreshold = true) :
    dykstraProjectionAlgorithm sets point s = (ok (true, v'.result), s₂) := by
  obtain ⟨iter, hiter⟩ : ∃ iter, maxIterations - k = iter + 1 := ⟨maxIterations - k - 1, by omega⟩
  rw [h.rest.2, hiter, outerLoop, Run.bind_ok hsweep, if_pos hshort]
  rfl

end Running

/-! ### The invariants of a run -/

section Invariants

variable {n : ℕ} {Cs : List (Set (EuclideanSpace ℝ (Fin n)))} {point : List ℝ}
  {refs : SetExprRefMap ℝ} {projs : List (List ℝ → Method ℝ (List ℝ))}
  {qs : List (List ℝ → Outcome Err (List ℝ))} {v : Vectors ℝ} {s s₁ : AdvState ℝ}

/-- **One sweep.**  It ends, unless the visit counter runs over, and leaves the arrays of a
sweep over the sets. -/
theorem innerLoop_swept (hrel : RelProjs (guarded refs) projs qs)
    (hprojs : List.Forall₂ (Projects n) qs Cs) (hv : v.Sized n Cs.length)
    (hs : SameSets s.setExprRefs refs) :
    ((innerLoop projs.length projs 1 v s).1 = .throw maxNesting ∨
      ∃ v' s', innerLoop projs.length projs 1 v s = (ok v', s') ∧ Vectors.Swept Cs v v') ∧
    SameSets (innerLoop projs.length projs 1 v s).2.setExprRefs refs := by
  have hlen : projs.length = Cs.length := hrel.length_eq.trans hprojs.length_eq
  have hprev : v.prev projs.length 1 = v.xv projs.length := Function.update_self _ _ _
  have hys : (v.corrections 1 Cs.length).length = Cs.length := by simp [Vectors.corrections]
  obtain ⟨xs, ys', hok, hxs, hys', hsweep⟩ :=
    sweep_of_projects hprojs hv.last hv.corrections hys
  rw [innerLoop_eq one_ne_zero, hprev, hlen]
  -- the projections of the object do what those of the environment do, or the counter stops them
  obtain ⟨hout, hsame⟩ := rel_dykstraSweep (guarded refs) hrel (v.corrections 1 Cs.length)
    (v.xv Cs.length) s hs
  rcases hrun : dykstraSweep projs (v.corrections 1 Cs.length) (v.xv Cs.length) s with ⟨o, s'⟩
  rw [hrun, hok] at hout
  rw [hrun] at hsame
  obtain rfl | rfl := hout
  · rw [Run.bind_throw hrun]
    exact ⟨Or.inl rfl, hsame⟩
  · rw [Run.bind_ok hrun]
    refine ⟨Or.inr ⟨_, s', rfl, ?_⟩, hsame⟩
    obtain ⟨hxlen, hylen⟩ : xs.length = Cs.length ∧ ys'.length = Cs.length := by
      simpa using hsweep.length
    have hpoints := Vectors.write_points (m := Cs.length) (v := v) one_ne_zero
      (hxlen.trans hylen.symm)
    have hcorrections := Vectors.write_corrections (m := Cs.length) (v := v) (i := 1)
      (hxlen.trans hylen.symm)
    rw [hxlen] at hpoints
    rw [hylen] at hcorrections
    refine ⟨Vectors.write_result, ?_, ?_, ?_⟩
    · rw [hpoints]
      exact hxs
    · rw [hcorrections]
      exact hys'
    · rw [hpoints, hcorrections]
      exact hsweep

theorem sized_start (m : ℕ) : (start m point).Sized point.length m where
  last := by simp [start]
  corrections := by
    intro y hy
    obtain ⟨_, -, rfl⟩ := List.mem_map.mp hy
    exact List.length_replicate

theorem toVec_zero (n k : ℕ) : toVec n (List.replicate k 0) = 0 := by
  ext i
  rw [toVec_apply, List.getD_eq_getElem?_getD, List.getElem?_replicate]
  split
  · rfl
  · rfl

theorem sumsTo_start (m : ℕ) : (start m point).SumsTo n m point := by
  have hzero : ∑ i ∈ Finset.Icc 1 m, toVec n ((start m point).yv i) = 0 :=
    Finset.sum_eq_zero fun _ _ => toVec_zero n point.length
  have hlast : (start m point).xv m = point := by simp [start]
  rw [Vectors.SumsTo, hzero, hlast, add_zero]

/-- What holds between sweeps. -/
structure Invariant (Cs : List (Set (EuclideanSpace ℝ (Fin n)))) (refs : SetExprRefMap ℝ)
    (point : List ℝ) (k : ℕ) (v : Vectors ℝ) (s : AdvState ℝ) : Prop where
  sized : v.Sized n Cs.length
  result : v.result = v.xv Cs.length
  sumsTo : v.SumsTo n Cs.length point
  normals : 0 < k → v.Normals Cs
  sameSets : SameSets s.setExprRefs refs

/-- **The invariant holds in every run.** -/
theorem Running.invariant (hrel : RelProjs (guarded refs) projs qs)
    (hprojs : List.Forall₂ (Projects n) qs Cs) (hne : Cs.length ≠ 0) (hpoint : point.length = n)
    (hs : SameSets s.setExprRefs refs) {k : ℕ} (h : Running projs point s k v s₁) :
    Invariant Cs refs point k v s₁ := by
  have hlen : projs.length = Cs.length := hrel.length_eq.trans hprojs.length_eq
  induction h with
  | start =>
    rw [hlen]
    subst hpoint
    exact ⟨sized_start _, by simp [InPlace.start], sumsTo_start _,
      fun hpos => absurd hpos (lt_irrefl 0), hs⟩
  | @sweep k v v' s₁ s₂ _ hk hsweep _ ih =>
    obtain ⟨hout, hsame⟩ := innerLoop_swept hrel hprojs ih.sized ih.sameSets
    rw [hsweep] at hout hsame
    obtain hout | ⟨_, _, heq, hswept⟩ := hout
    · -- a completed sweep has thrown nothing
      exact absurd hout (by simp)
    obtain ⟨rfl, rfl⟩ : v' = _ ∧ s₂ = _ := by simpa using heq
    rw [hlen]
    have hsized := hswept.sized hne
    exact ⟨⟨hsized.last, hsized.corrections⟩, rfl, hswept.sumsTo hne ih.sumsTo,
      fun _ => hswept.normals, hsame⟩

end Invariants

/-! ### The algorithm on sets -/

/-- The projections onto the sets, as methods of the object. -/
noncomputable def projections (af : AdvFunc ℝ) (bv : ValueMap ℝ) (fuel : ℕ)
    (sets : List (Operand ℝ)) : List (List ℝ → Method ℝ (List ℝ)) :=
  sets.map fun op => op.proj (methods bv af.realExprRefs) fuel

theorem relProjs_projections (af : AdvFunc ℝ) (bv : ValueMap ℝ) (fuel : ℕ)
    (sets : List (Operand ℝ)) :
    RelProjs (guarded af.setExprRefs) (projections af bv fuel sets)
      (sets.map fun op => op.proj (af.env bv).self fuel) := by
  rw [RelProjs, projections, List.forall₂_map_left_iff, List.forall₂_map_right_iff,
    List.forall₂_same]
  intro op _ pt
  cases op with
  | halfSpace hs => exact rel_projHalfSpace _ hs pt
  | set s => exact rel_proj .all (related_methods (af.env bv)) (guarded_stop _) fuel trivial pt

/-- `x` is the point of the intersection nearest to `z`, and the only one. -/
def NearestPoint {E : Type} [NormedAddCommGroup E] (Cs : List (Set E)) (z x : E) : Prop :=
  (∀ C ∈ Cs, x ∈ C) ∧ ∀ c, (∀ C ∈ Cs, c ∈ C) → ‖z - x‖ ≤ ‖z - c‖ ∧ (‖z - c‖ ≤ ‖z - x‖ → c = x)

/-- A point that is left where it was by all sets is the nearest one. -/
theorem nearestPoint_of_normals {n : ℕ} {Cs : List (Set (EuclideanSpace ℝ (Fin n)))}
    {point x : List ℝ} {v : Vectors ℝ} (hm : Cs.length ≠ 0) (hsum : v.SumsTo n Cs.length point)
    (hnormals : v.Normals Cs) (hstill : ∀ i ∈ Finset.Icc 1 Cs.length, v.xv i = x) :
    NearestPoint Cs (toVec n point) (toVec n x) := by
  have hlast : v.xv Cs.length = x :=
    hstill _ (Finset.mem_Icc.mpr ⟨Nat.one_le_iff_ne_zero.mpr hm, le_rfl⟩)
  -- the corrections are normal at one point, and the starting point is its sum with them
  have hall : List.Forall₂ (fun C y => Normal C (toVec n x) y) Cs
      ((v.corrections 1 Cs.length).map (toVec n)) := by
    refine List.forall₂_iff_get.mpr ⟨by simp [Vectors.corrections], fun i hi _ => ?_⟩
    have hnormal := hnormals i hi
    rw [hstill (i + 1) (Finset.mem_Icc.mpr ⟨by omega, hi⟩)] at hnormal
    simpa [Vectors.corrections, Nat.add_comm 1 i] using hnormal
  have hnear := isNearest_of_normals hall
  rw [Vectors.sum_corrections, ← hlast, ← hsum, hlast] at hnear
  exact ⟨hnear.mem, fun c hc => ⟨hnear.norm_le hc, hnear.unique hc⟩⟩

/-- **Dykstra's invariants and the fixpoint**: after every number of completed sweeps the
starting point is `xv[m]` plus all corrections; after at least one sweep every `xv[i]` lies in
its set, with `yv[i]` normal there.  Each sweep ends or throws "max nesting depth reached"; if
it leaves all points where the previous one ended, the algorithm has converged, to the nearest
point of the intersection. -/
theorem dykstra_invariants {af : AdvFunc ℝ} {bv : ValueMap ℝ} {n : ℕ}
    {sets : List (Operand ℝ)} {Cs : List (Set (EuclideanSpace ℝ (Fin n)))}
    (hsets : List.Forall₂ (Denotes (af.env bv) n) sets Cs) (hne : sets ≠ [])
    {point : List ℝ} (hpoint : point.length = n) :
    ∃ N, ∀ fuel, N ≤ fuel → ∀ s : AdvState ℝ, SameSets s.setExprRefs af.setExprRefs →
      ∀ k v s₁, Running (projections af bv fuel sets) point s k v s₁ →
        v.SumsTo n sets.length point ∧ (0 < k → v.Normals Cs) ∧
        (k < maxIterations →
          (innerLoop sets.length (projections af bv fuel sets) 1 v s₁).1 = .throw maxNesting ∨
          ∃ v' s₂, innerLoop sets.length (projections af bv fuel sets) 1 v s₁ = (ok v', s₂) ∧
            v'.SumsTo n sets.length point ∧ v'.Normals Cs ∧
            ((∀ i ∈ Finset.Icc 1 sets.length, v'.xv i = v.xv sets.length) →
              dykstraProjectionAlgorithm (projections af bv fuel sets) point s
                  = (ok (true, v.xv sets.length), s₂) ∧
                NearestPoint Cs (toVec n point) (toVec n (v.xv sets.length)))) := by
  have heventually := eventually_forall₂ (hsets.imp fun _ _ h => h.eventually_projects)
  obtain ⟨N, hN⟩ := Filter.eventually_atTop.mp heventually
  refine ⟨N, fun fuel hfuel s hs k v s₁ hrun => ?_⟩
  have hrel := relProjs_projections af bv fuel sets
  have hprojs : List.Forall₂ (Projects n) (sets.map fun op => op.proj (af.env bv).self fuel)
      Cs := by
    rw [List.forall₂_map_left_iff]
    exact hN fuel hfuel
  have hlen : sets.length = Cs.length := hsets.length_eq
  have hm : Cs.length ≠ 0 := hlen ▸ (List.length_eq_zero_iff.not.mpr hne)
  have hinv := hrun.invariant hrel hprojs hm hpoint hs
  have hprojsLen : (projections af bv fuel sets).length = Cs.length := by
    rw [projections, List.length_map, hlen]
  obtain ⟨hout, -⟩ := innerLoop_swept hrel hprojs hinv.sized hinv.sameSets
  rw [hprojsLen] at hout
  rw [hlen]
  refine ⟨hinv.sumsTo, hinv.normals, fun hk => hout.imp_right ?_⟩
  rintro ⟨v', s₂, hsweep, hswept⟩
  have hsum := hswept.sumsTo hm hinv.sumsTo
  refine ⟨v', s₂, hsweep, hsum, hswept.normals, fun hstill => ⟨?_, ?_⟩⟩
  · -- the sweep does not move `xv[m]`
    have hlast : v'.xv Cs.length = v.xv Cs.length :=
      hstill _ (Finset.mem_Icc.mpr ⟨Nat.one_le_iff_ne_zero.mpr hm, le_rfl⟩)
    have hresult : v'.result = v.xv Cs.length := hswept.result.trans hinv.result
    have hconv := hrun.converges hk (by rw [hprojsLen]; exact hsweep) (by
      rw [hprojsLen, hlast, hresult, dist_self_list, convergenceThreshold]
      norm_num)
    rw [hconv, hresult]
  · exact nearestPoint_of_normals hm hsum hswept.normals hstill

/-- The points without a positive first coordinate, and those without a positive second one. -/
def leftHalf : Operand ℝ := .halfSpace ⟨[1, 0], 0⟩

def lowerHalf : Operand ℝ := .halfSpace ⟨[0, 1], 0⟩

theorem projHalfSpace_left (y : ℝ) :
    (projHalfSpace ⟨[1, 0], 0⟩ [1, y] : Method ℝ (List ℝ)) = pure [0, y] := by
  simp [projHalfSpace, membershipHalfSpace, assert, dot, squaredNorm, vecScale, vecSub,
    Run.pure_bind]

theorem projHalfSpace_lower (x : ℝ) :
    (projHalfSpace ⟨[0, 1], 0⟩ [x, 1] : Method ℝ (List ℝ)) = pure [x, 0] := by
  simp [projHalfSpace, membershipHalfSpace, assert, dot, squaredNorm, vecScale, vecSub,
    Run.pure_bind]

/-- A sweep from `(x, y)` into the corner, by way of `(0, y)`. -/
theorem innerLoop_corner (fuel : ℕ) {x y : ℝ} {v : Vectors ℝ} (hlast : v.xv 2 = [x, y])
    (hfirst : v.yv 1 = [1 - x, 0]) (hsecond : v.yv 2 = [0, 1 - y]) (s : AdvState ℝ) :
    innerLoop 2 (projections AdvFunc.blank (bindPQ 0 0) fuel [leftHalf, lowerHalf]) 1 v s
      = (ok ((v.assign 2 1 [0, y] [1, 0]).assign 2 2 [0, 0] [0, 1]), s) := by
  have hz : vecAdd [x, y] [1 - x, 0] = [1, y] := by simp [vecAdd]
  have hz' : vecAdd [0, y] [0, 1 - y] = [0, 1] := by simp [vecAdd]
  have hy : vecSub [1, y] [0, y] = [(1 : ℝ), 0] := by simp [vecSub]
  have hy' : vecSub [0, 1] [0, 0] = [(0 : ℝ), 1] := by simp [vecSub]
  simp [innerLoop, innerStep, projections, leftHalf, lowerHalf, Operand.proj, assert, hlast,
    hfirst, hsecond, hz, hz', projHalfSpace_left, projHalfSpace_lower, hy, hy', Run.pure_bind,
    Vectors.assign]

/-- The first sweep moves the point by more than the threshold. -/
theorem lt_dist_corner :
    Double.lt (dist [0, 0] [(1 : ℝ), 1]) convergenceThreshold = false := by
  have hle : (1 / 1000 : ℝ) ≤ √(1 + 1) := (by norm_num : (1 / 1000 : ℝ) ≤ 1).trans
    (Real.one_le_sqrt.mpr (by norm_num))
  have hdist : dist [0, 0] [(1 : ℝ), 1] = √(1 + 1) := by
    show √(squaredNorm _) = _
    congr 1
    simp [squaredNorm, dot, vecSub]
  rw [hdist]
  exact Bool.eq_false_iff.mpr fun h => not_lt.mpr hle (by
    simpa [convergenceThreshold] using (lt_real _ _).mp h)

/-- From `(1, 1)` to the corner: one sweep moves there, and the next one stays. -/
theorem dykstra_invariants_sample : ∃ N, ∀ fuel, N ≤ fuel →
    dykstraProjectionAlgorithm
        (projections AdvFunc.blank (bindPQ 0 0) fuel [leftHalf, lowerHalf]) [1, 1]
        AdvFunc.blank.toAdvState = (ok (true, [0, 0]), AdvFunc.blank.toAdvState) ∧
      NearestPoint [halfSpace (toVec 2 [1, 0]) 0, halfSpace (toVec 2 [0, 1]) 0]
        (toVec 2 [1, 1]) (toVec 2 [0, 0]) := by
  have hsets : List.Forall₂ (Denotes (AdvFunc.blank.env (bindPQ 0 0)) 2) [leftHalf, lowerHalf]
      [halfSpace (toVec 2 [1, 0]) 0, halfSpace (toVec 2 [0, 1]) 0] :=
    .cons (.halfSpace rfl ⟨1, by simp, one_ne_zero⟩)
      (.cons (.halfSpace rfl ⟨1, by simp, one_ne_zero⟩) .nil)
  obtain ⟨N, hN⟩ := dykstra_invariants hsets (by simp) (show [1, 1].length = 2 from rfl)
  refine ⟨N, fun fuel hfuel => ?_⟩
  have hfirst := innerLoop_corner fuel (v := InPlace.start 2 [1, 1]) rfl
    (by rw [sub_self]; rfl) (by rw [sub_self]; rfl) AdvFunc.blank.toAdvState
  have hstart : Running (projections AdvFunc.blank (bindPQ 0 0) fuel [leftHalf, lowerHalf])
      [1, 1] AdvFunc.blank.toAdvState 0 (InPlace.start 2 [1, 1]) AdvFunc.blank.toAdvState := .start
  have hrun := hstart.sweep (by norm_num [maxIterations]) hfirst lt_dist_corner
  obtain ⟨-, -, hnext⟩ := hN fuel hfuel _ (fun _ => rfl) 1 _ _ hrun
  have hsecond := innerLoop_corner fuel (v :=
    { ((InPlace.start 2 [1, 1]).assign 2 1 [0, 1] [1, 0]).assign 2 2 [0, 0] [0, 1] with
      result := [0, 0] }) rfl (by rw [sub_zero]; rfl) (by rw [sub_zero]; rfl)
    AdvFunc.blank.toAdvState
  obtain hthrow | ⟨v', s₂, hv', -, -, hstill⟩ := hnext (by norm_num [maxIterations])
  · have hout := (congrArg Prod.fst hsecond).symm.trans hthrow
    exact absurd hout (by simp)
  · obtain ⟨hv, rfl⟩ := Prod.mk.inj (hv'.symm.trans hsecond)
    obtain rfl := Outcome.ok.inj hv
    refine hstill fun i hi => ?_
    obtain ⟨h1, h2⟩ : 1 ≤ i ∧ i ≤ 2 := Finset.mem_Icc.mp hi
    obtain rfl | rfl : i = 1 ∨ i = 2 := by omega
    · rfl
    · rfl

end InPlace

end Commelec
