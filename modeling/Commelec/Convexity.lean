/-
Commelec/Convexity.lean

The points that a set accepts form a convex set.

A membership test evaluates expressions, which do not see the point, and compares their values
with it.  So two tests of one set that answer `true` run in step: they evaluate the same
expressions and end in the same state.  `Convexly F` says this of a family `F` of runs, one
for each point, together with the answer for the points between.  It is closed under what
membership is built from, and holds of `membership` by induction on the fuel
(`convexly_membership`), through intersections and references.

What remains is one inequality for each basic set.  For balls and half-spaces it is Mathlib's.
The points close to the value of a singleton form a convex set, too: those within
`ε * ‖x‖` of `v` are a ball (`convex_sq_sub_le`).
-/
import Mathlib.Analysis.Normed.Module.Convex
import Commelec.BoundingBox
import Commelec.StoppingTest

namespace Commelec

open Effectful Outcome

/-- The point `t * p + (1 - t) * q`. -/
def between {R : Type} [Double R] (t : R) (p q : List R) : List R :=
  vecAdd (vecScale t p) (vecScale (1 - t) q)

section Vectors

variable {n : ℕ} {t : ℝ} {p q : List ℝ}

theorem length_between (hp : p.length = n) (hq : q.length = n) : (between t p q).length = n :=
  length_vecAdd (length_vecScale t hp) (length_vecScale _ hq)

theorem toVec_between (hp : p.length = n) (hq : q.length = n) :
    toVec n (between t p q) = t • toVec n p + (1 - t) • toVec n q := by
  rw [between, toVec_vecAdd (length_vecScale t hp) (length_vecScale _ hq), toVec_vecScale t hp,
    toVec_vecScale _ hq]

theorem between_self (t : ℝ) (p : List ℝ) : between t p p = p := by
  induction p with
  | nil => rfl
  | cons x p ih =>
    show (t * x + (1 - t) * x) :: between t p p = x :: p
    rw [ih, ← add_mul, add_sub_cancel, one_mul]

end Vectors

/-! ### Basic convex sets -/

section Convex

variable {E : Type} [NormedAddCommGroup E] [InnerProductSpace ℝ E]

/-- The points whose distance from `v` is at most a fixed part of their norm. -/
theorem convex_sq_sub_le {k : ℝ} (hk : k ≤ 1) (v : E) :
    Convex ℝ {x : E | ‖x - v‖ ^ 2 ≤ k * ‖x‖ ^ 2} := by
  intro x hx y hy a b ha hb hab
  simp only [Set.mem_ofPred_eq, norm_sub_sq_real] at hx hy ⊢
  -- the square of the norm is convex, with the squared distance of the two points as the gap
  have hsum : ‖a • x + b • y‖ ^ 2
      = a * ‖x‖ ^ 2 + b * ‖y‖ ^ 2 - a * b * ‖x - y‖ ^ 2 := by
    rw [norm_add_sq_real, norm_sub_sq_real, norm_smul, norm_smul, real_inner_smul_left,
      real_inner_smul_right, Real.norm_eq_abs, Real.norm_eq_abs, mul_pow, mul_pow, sq_abs, sq_abs]
    obtain rfl : b = 1 - a := by linarith
    ring
  have hinner : inner ℝ (a • x + b • y) v = a * inner ℝ x v + b * inner ℝ y v := by
    rw [inner_add_left, real_inner_smul_left, real_inner_smul_left]
  have hgap : 0 ≤ (1 - k) * (a * b * ‖x - y‖ ^ 2) := by
    have h1 : 0 ≤ 1 - k := by linarith
    positivity
  have hx' := mul_le_mul_of_nonneg_left hx ha
  have hy' := mul_le_mul_of_nonneg_left hy hb
  have hv : ‖v‖ ^ 2 = a * ‖v‖ ^ 2 + b * ‖v‖ ^ 2 := by rw [← add_mul, hab, one_mul]
  rw [hsum, hinner]
  linarith

end Convex

section Points

variable {n : ℕ} {t : ℝ} {p q : List ℝ}

/-- Membership of the vectors in a convex set. -/
theorem mem_between {S : Set (EuclideanSpace ℝ (Fin n))} (hS : Convex ℝ S) (ht : 0 ≤ t)
    (ht1 : t ≤ 1) (hp : p.length = n) (hq : q.length = n) (hp' : toVec n p ∈ S)
    (hq' : toVec n q ∈ S) : toVec n (between t p q) ∈ S := by
  rw [toVec_between hp hq]
  exact hS hp' hq' ht (by linarith) (by ring)

theorem isApprox_iff {x v : List ℝ} (hx : x.length = n) (hv : v.length = n) :
    isApprox x v = true ↔
      toVec n x ∈ {y | ‖y - toVec n v‖ ^ 2 ≤ (1 / 10 ^ 12) ^ 2 * ‖y‖ ^ 2} ∧
        toVec n x ∈ Metric.closedBall (toVec n v) (1 / 10 ^ 12 * ‖toVec n v‖) := by
  have hprec : (Double.dummyPrecision : ℝ) = 1 / 10 ^ 12 := rfl
  rw [isApprox, le_real, stdMin_real, squaredNorm_eq (length_vecSub hx hv), squaredNorm_eq hx,
    squaredNorm_eq hv, toVec_vecSub hx hv, hprec, ← pow_two, mul_min_of_nonneg _ _ (by positivity),
    le_min_iff, Metric.mem_closedBall, dist_eq_norm, Set.mem_ofPred_eq]
  refine and_congr Iff.rfl ?_
  rw [← mul_pow]
  exact pow_le_pow_iff_left₀ (norm_nonneg _) (by positivity) two_ne_zero

theorem isApprox_between {v : List ℝ} (ht : 0 ≤ t) (ht1 : t ≤ 1) (hv : v.length = n)
    (hp : p.length = n) (hq : q.length = n) (hp' : isApprox p v = true)
    (hq' : isApprox q v = true) : isApprox (between t p q) v = true := by
  rw [isApprox_iff hp hv] at hp'
  rw [isApprox_iff hq hv] at hq'
  rw [isApprox_iff (length_between hp hq) hv]
  have hk : (1 / 10 ^ 12 : ℝ) ^ 2 ≤ 1 := by norm_num
  exact ⟨mem_between (convex_sq_sub_le hk _) ht ht1 hp hq hp'.1 hq'.1,
    mem_between (convex_closedBall _ _) ht ht1 hp hq hp'.2 hq'.2⟩

theorem squaredNorm_between {c : List ℝ} {r : ℝ} (ht : 0 ≤ t) (ht1 : t ≤ 1) (hc : c.length = n)
    (hp : p.length = n) (hq : q.length = n) (hp' : squaredNorm (vecSub c p) ≤ r * r)
    (hq' : squaredNorm (vecSub c q) ≤ r * r) :
    squaredNorm (vecSub c (between t p q)) ≤ r * r := by
  have hball : ∀ x : List ℝ, x.length = n → (squaredNorm (vecSub c x) ≤ r * r ↔
      toVec n x ∈ Metric.closedBall (toVec n c) |r|) := by
    intro x hx
    rw [squaredNorm_eq (length_vecSub hc hx), toVec_vecSub hc hx, Metric.mem_closedBall,
      dist_comm, dist_eq_norm, ← abs_mul_abs_self r, ← pow_two]
    exact pow_le_pow_iff_left₀ (norm_nonneg _) (abs_nonneg r) two_ne_zero
  rw [hball p hp] at hp'
  rw [hball q hq] at hq'
  rw [hball _ (length_between hp hq)]
  exact mem_between (convex_closedBall _ _) ht ht1 hp hq hp' hq'

theorem dot_between {row : List ℝ} (hrow : row.length = n) (hp : p.length = n)
    (hq : q.length = n) : dot row (between t p q) = t * dot row p + (1 - t) * dot row q := by
  rw [dot_eq_inner' hrow (length_between hp hq), dot_eq_inner' hrow hp, dot_eq_inner' hrow hq,
    toVec_between hp hq, inner_add_right, real_inner_smul_right, real_inner_smul_right]

theorem allLe_between {A : List (List ℝ)} {b : List ℝ} (ht : 0 ≤ t) (ht1 : t ≤ 1)
    (hA : ∀ row ∈ A, row.length = n) (hp : p.length = n) (hq : q.length = n)
    (hlen : A.length = b.length) (hp' : allLe (A.map (dot · p)) b = true)
    (hq' : allLe (A.map (dot · q)) b = true) :
    allLe (A.map (dot · (between t p q))) b = true := by
  have hmap : ∀ x : List ℝ, (A.map (dot · x)).length = b.length := by
    intro x
    rw [List.length_map, hlen]
  rw [allLe_iff (hmap _), List.forall₂_map_left_iff] at hp' hq' ⊢
  clear hmap hlen
  induction hp' with
  | nil => exact .nil
  | @cons row bi A b hrowp _ ih =>
    obtain - | ⟨hrowq, hq'⟩ := hq'
    refine .cons ?_ (ih (fun row hrow => hA row (List.mem_cons_of_mem _ hrow)) hq')
    rw [dot_between (hA row List.mem_cons_self) hp hq]
    have hleft := mul_le_mul_of_nonneg_left hrowp ht
    have hright := mul_le_mul_of_nonneg_left hrowq (sub_nonneg.mpr ht1)
    linarith

end Points

/-! ### Runs in step -/

section Runs

variable {σ : Type}

/-- The runs for two points in `D` that answer `true` are the same, and so is the run for each
point between them. -/
def Convexly (D : List ℝ → Prop) (F : List ℝ → Run σ Err Bool) : Prop :=
  ∀ st p q t, D p → D q → 0 ≤ t → t ≤ 1 → (F p st).1 = ok true → (F q st).1 = ok true →
    F q st = F p st ∧ F (between t p q) st = F p st

namespace Convexly

variable {D : List ℝ → Prop} {F : List ℝ → Run σ Err Bool}

/-- An answer without a run. -/
theorem pure {b : List ℝ → Bool} (h : ∀ p q t, D p → D q → 0 ≤ t → t ≤ 1 → b p = true →
    b q = true → b (between t p q) = true) :
    Convexly D fun p => (Pure.pure (b p) : Run σ Err Bool) := by
  intro st p q t hDp hDq ht ht1 hp hq
  have hp' : b p = true := Outcome.ok.inj hp
  have hq' : b q = true := Outcome.ok.inj hq
  simp only [hp', hq', h p q t hDp hDq ht ht1 hp' hq', and_self]

/-- A run that does not see the point. -/
theorem bind {α : Type} {G : α → List ℝ → Run σ Err Bool} (x : Run σ Err α)
    (h : ∀ a, (∃ st st', x st = (ok a, st')) → Convexly D (G a)) :
    Convexly D fun p => x >>= fun a => G a p := by
  intro st p q t hDp hDq ht ht1 hp hq
  obtain ⟨a, st₁, hx, hp⟩ := Run.of_bind_ok hp
  simp only [Run.bind_ok hx] at hq ⊢
  exact h a ⟨st, st₁, hx⟩ st₁ p q t hDp hDq ht ht1 hp hq

/-- A check of the point. -/
theorem assert {c : List ℝ → Bool}
    (hc : ∀ p q t, D p → D q → c p = true → c q = true → c (between t p q) = true)
    (hF : Convexly (fun p => D p ∧ c p = true) F) :
    Convexly D fun p => Commelec.assert (c p) >>= fun _ => F p := by
  have hcheck : ∀ x st, ((Commelec.assert (c x) >>= fun _ => F x) st).1 = ok true →
      c x = true := by
    intro x st hx
    by_contra hfalse
    rw [Bool.eq_false_of_not_eq_true hfalse] at hx
    simp [Commelec.assert, Run.bind_apply] at hx
  intro st p q t hDp hDq ht ht1 hp hq
  have hcp := hcheck p st hp
  have hcq := hcheck q st hq
  simp only [hcp, hcq, hc p q t hDp hDq hcp hcq] at hp hq ⊢
  exact hF st p q t ⟨hDp, hcp⟩ ⟨hDq, hcq⟩ ht ht1 hp hq

/-- One set after the other. -/
theorem and {G : List ℝ → Run σ Err Bool} (hF : Convexly D F) (hG : Convexly D G) :
    Convexly D fun p => (do if ← F p then G p else Pure.pure false) := by
  intro st p q t hDp hDq ht ht1 hp hq
  -- both tests of `F` answer `true`, and leave the same state for `G`
  obtain ⟨a, st₁, hFp, hp⟩ := Run.of_bind_ok hp
  obtain ⟨b, st₂, hFq, hq⟩ := Run.of_bind_ok hq
  cases a with
  | false => exact absurd hp (by simp)
  | true =>
    cases b with
    | false => exact absurd hq (by simp)
    | true =>
      obtain ⟨hsame, hbetween⟩ := hF st p q t hDp hDq ht ht1 (congrArg Prod.fst hFp)
        (congrArg Prod.fst hFq)
      obtain rfl : st₂ = st₁ := by
        rw [hFp, hFq] at hsame
        exact congrArg Prod.snd hsame
      have hrun : ∀ x, F x st = (ok true, st₂) →
          (F x >>= fun b => if b = true then G x else Pure.pure false) st = G x st₂ :=
        fun x hx => Run.bind_ok hx
      obtain ⟨hsame', hbetween'⟩ := hG st₂ p q t hDp hDq ht ht1 hp hq
      constructor
      · exact (hrun q hFq).trans (hsame'.trans (hrun p hFp).symm)
      · exact (hrun _ (hbetween.trans hFp)).trans (hbetween'.trans (hrun p hFp).symm)

/-- A smaller domain. -/
theorem mono {D' : List ℝ → Prop} (hF : Convexly D F) (h : ∀ p, D' p → D p) : Convexly D' F :=
  fun st p q t hp hq => hF st p q t (h p hp) (h q hq)

end Convexly

/-! ### Membership -/

/-- Any points. -/
abbrev Any (_ : List ℝ) : Prop := True

/-- Points of dimension `n`. -/
theorem Convexly.sized {n : ℕ} {F : List ℝ → Run σ Err Bool}
    (hF : Convexly (fun p => p.length = n) F) :
    Convexly Any fun p => Commelec.assert (p.length = n) >>= fun _ => F p := by
  refine .assert (c := fun p => decide (p.length = n)) (fun p q t _ _ hp hq => ?_)
    (hF.mono fun p hp => of_decide_eq_true hp.2)
  exact decide_eq_true (length_between (of_decide_eq_true hp) (of_decide_eq_true hq))

theorem convexly_singleton (point : List (Run σ Err ℝ)) :
    Convexly Any (membershipSingleton point) := by
  apply Convexly.sized
  apply Convexly.bind
  rintro v ⟨st, st', hv⟩
  apply Convexly.pure
  intro p q t hp hq ht ht1 hp' hq'
  exact isApprox_between ht ht1 (Run.collect_length hv) hp hq hp' hq'

theorem convexly_ball (center : List (Run σ Err ℝ)) (radius : Run σ Err ℝ) :
    Convexly Any (membershipBall center radius) := by
  apply Convexly.sized
  apply Convexly.bind
  rintro cent ⟨st, st', hcent⟩
  apply Convexly.bind
  rintro r -
  apply Convexly.pure
  intro p q t hp hq ht ht1 hp' hq'
  rw [le_real] at hp' hq' ⊢
  exact squaredNorm_between ht ht1 (Run.collect_length hcent) hp hq hp' hq'

theorem convexly_insideBounds (rect : List (Run σ Err ℝ × Run σ Err ℝ)) :
    Convexly (fun p => p.length = rect.length) (insideBounds rect) := by
  induction rect with
  | nil =>
    intro st p q t hp hq ht ht1 hp' hq'
    exact ⟨rfl, rfl⟩
  | cons b rect ih =>
    intro st p q t hp hq ht ht1 hp' hq'
    obtain ⟨x, p, rfl⟩ := List.exists_cons_of_length_eq_add_one hp
    obtain ⟨y, q, rfl⟩ := List.exists_cons_of_length_eq_add_one hq
    obtain ⟨val1, st₁, hval1, hrest⟩ := Run.of_bind_ok hp'
    obtain ⟨val2, st₂, hval2, -⟩ := Run.of_bind_ok hrest
    have hcons := insideBounds_cons hval1 hval2 rect
    -- an accepted point has its first coordinate between the bounds
    have hsplit : ∀ z zs, (insideBounds (b :: rect) (z :: zs) st).1 = ok true →
        (min val1 val2 ≤ z ∧ z ≤ max val1 val2) ∧ (insideBounds rect zs st₂).1 = ok true := by
      intro z zs h
      rw [hcons] at h
      split at h
      · next hin => exact ⟨hin, h⟩
      · exact absurd h (by simp)
    obtain ⟨⟨hxmin, hxmax⟩, hprest⟩ := hsplit x p hp'
    obtain ⟨⟨hymin, hymax⟩, hqrest⟩ := hsplit y q hq'
    obtain ⟨hsame, hbetween⟩ := ih st₂ p q t (by simpa using hp) (by simpa using hq) ht ht1
      hprest hqrest
    have hzmin : min val1 val2 ≤ t * x + (1 - t) * y := by nlinarith
    have hzmax : t * x + (1 - t) * y ≤ max val1 val2 := by nlinarith
    have hz : between t (x :: p) (y :: q) = (t * x + (1 - t) * y) :: between t p q := rfl
    rw [hz, hcons, hcons, hcons, if_pos ⟨hymin, hymax⟩, if_pos ⟨hxmin, hxmax⟩,
      if_pos ⟨hzmin, hzmax⟩]
    exact ⟨hsame, hbetween⟩

theorem convexly_rectangle (rect : List (Run σ Err ℝ × Run σ Err ℝ)) :
    Convexly Any (membershipRectangle rect) := by
  apply Convexly.sized
  exact convexly_insideBounds rect

theorem convexly_polytope (a : List (List (Run σ Err ℝ))) (b : List (Run σ Err ℝ)) :
    Convexly Any (membershipConvexPolytope a b) := by
  apply Convexly.bind
  rintro A -
  apply Convexly.bind
  rintro bs -
  have hrows : ∀ x : List ℝ, (A.all fun row => decide (row.length = x.length)) = true ↔
      ∀ row ∈ A, row.length = x.length := by
    intro x
    simp
  apply Convexly.assert (c := fun x => A.all fun row => row.length = x.length)
  · intro p q t _ _ hp hq
    rw [hrows] at hp hq ⊢
    intro row hrow
    rw [length_between (hp row hrow).symm (hq row hrow).symm]
  · apply Convexly.assert (c := fun _ => decide (A.length = bs.length))
    · intro p q t _ _ hlen _
      exact hlen
    · apply Convexly.pure
      rintro p q t ⟨⟨-, hp⟩, hlen⟩ ⟨⟨-, hq⟩, -⟩ ht ht1 hp' hq'
      rw [hrows] at hp hq
      cases A with
      | nil => rfl
      | cons row A =>
        -- the dimension is the length of the first row
        refine allLe_between (n := row.length) ht ht1 (fun row' hrow' => ?_) ?_ ?_
          (of_decide_eq_true hlen) hp' hq'
        · rw [hp row' hrow', hp row List.mem_cons_self]
        · exact (hp row List.mem_cons_self).symm
        · exact (hq row List.mem_cons_self).symm

theorem convexly_intersection (ms : List (List ℝ → Run σ Err Bool))
    (h : ∀ F ∈ ms, Convexly Any F) :
    Convexly Any fun p => membershipIntersection (ms.map fun F => F p) := by
  induction ms with
  | nil =>
    apply Convexly.pure
    intro p q t _ _ _ _ _ _
    rfl
  | cons F ms ih =>
    apply Convexly.and (h F List.mem_cons_self)
    exact ih fun G hG => h G (List.mem_cons_of_mem _ hG)

end Runs

/-- **Membership runs in step**, for every object. -/
theorem convexly_membership {σ : Type} (self : Self ℝ (Run σ Err)) (fuel : ℕ) (s : SetExpr ℝ) :
    Convexly Any ((calls self fuel).membership s) := by
  induction fuel generalizing s with
  | zero =>
    -- without fuel there is no answer
    intro st p q t _ _ _ _ hp _
    exact absurd hp (by simp [calls])
  | succ fuel ih =>
    apply Convexly.bind
    rintro ⟨⟩ -
    cases s with
    | singleton n point => exact convexly_singleton _
    | ball n center radius => exact convexly_ball _ _
    | rectangle n rect => exact convexly_rectangle _
    | convexPolytope n a b => exact convexly_polytope _ _
    | intersection n sets =>
      have hmembers : ∀ p, sets.map ((calls self fuel).membership · p)
          = (sets.map fun s => (calls self fuel).membership s).map fun F => F p := by
        intro p
        rw [List.map_map]
        rfl
      have h := convexly_intersection (sets.map fun s => (calls self fuel).membership s)
        (by simpa using fun s _ => ih s)
      intro st p q t
      have hp := h st p q t
      simp only [← hmembers] at hp
      exact hp
    | reference n ref =>
      apply Convexly.bind
      rintro referenced -
      exact ih referenced
    | caseDistinction n vars cases =>
      intro st p q t _ _ _ _ hp _
      exact absurd hp (by simp)
    | unknown n which =>
      intro st p q t _ _ _ _ hp _
      exact absurd hp (by simp)

/-- What two points that equal all singletons have between them. -/
theorem Env.EqualsSingletons.between {env : Env ℝ} {s : SetExpr ℝ} {p q : List ℝ}
    (hp : env.EqualsSingletons s p) (hq : env.EqualsSingletons s q) (t : ℝ) :
    env.EqualsSingletons s (between t p q) := by
  intro n point hpoint
  have hvalue := hp n point hpoint
  obtain rfl : p = q := Outcome.ok.inj (hvalue.symm.trans (hq n point hpoint))
  rw [between_self]
  exact hvalue

/-- **Every accepted set is convex**, for the membership test as it is, and with equality in
place of `isApprox` for singletons. -/
theorem accepted_convex {af : AdvFunc ℝ} (hv : af.advValid = true) {bv : ValueMap ℝ}
    {s : SetExpr ℝ} {p q : List ℝ} {t : ℝ} (ht : 0 ≤ t) (ht1 : t ≤ 1) :
    (af.Accepts bv s p → af.Accepts bv s q → af.Accepts bv s (between t p q)) ∧
    (af.AcceptsExactly bv s p → af.AcceptsExactly bv s q →
      af.AcceptsExactly bv s (between t p q)) := by
  have haccepts : af.Accepts bv s p → af.Accepts bv s q → af.Accepts bv s (between t p q) := by
    rintro ⟨fuelP, hp⟩ ⟨fuelQ, hq⟩
    -- the two answers may need different fuel
    have hp' := AdvFunc.testMembership_mono hv (le_max_left fuelP fuelQ) hp
    have hq' := AdvFunc.testMembership_mono hv (le_max_right fuelP fuelQ) hq
    refine ⟨max fuelP fuelQ, ?_⟩
    rw [AdvFunc.testMembership, AdvFunc.query_fst hv] at hp' hq' ⊢
    have hstep := convexly_membership (methods bv af.realExprRefs) (max fuelP fuelQ) s _ p q t
      trivial trivial ht ht1 hp' hq'
    rw [hstep.2]
    exact hp'
  exact ⟨haccepts, fun hp hq => ⟨haccepts hp.1 hq.1, hp.2.between hq.2 t⟩⟩

/-- The middle of two corners of the square from 0 to 2. -/
theorem accepted_convex_sample :
    emptyAdv.AcceptsExactly (bindPQ 0 0) square [0, 0] ∧
    emptyAdv.AcceptsExactly (bindPQ 0 0) square [2, 2] ∧
    emptyAdv.AcceptsExactly (bindPQ 0 0) square (between (1 / 2) [0, 0] [2, 2]) := by
  have hcorner : ∀ x : ℝ, 0 ≤ x → x ≤ 2 →
      emptyAdv.AcceptsExactly (bindPQ 0 0) square [x, x] := by
    intro x hx hx2
    refine (accepts_rectangle rfl hull_square ?_).2
    simp [AlignedBox.Contains, hx, hx2]
  have h0 := hcorner 0 le_rfl zero_le_two
  have h2 := hcorner 2 zero_le_two le_rfl
  exact ⟨h0, h2, (accepted_convex rfl (by norm_num) (by norm_num)).2 h0 h2⟩

end Commelec
