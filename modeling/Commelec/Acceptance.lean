/-
Commelec/Acceptance.lean

The points that a set accepts.

`AdvFunc.Accepts` is what the membership test of an object answers, with whatever fuel.
A singleton accepts the points close to its value (`isApprox`); results that need it to
accept nothing else speak of `AdvFunc.AcceptsExactly`, which asks in addition that the point
is the value of every singleton that the test comes to (`Env.Component`).  As the test is a
conjunction over these, it is then the test with equality in place of `isApprox`.
-/
import Commelec.Euclidean
import Commelec.Termination

namespace Commelec

open Effectful Outcome

variable {R : Type}

/-! ### The sets that a membership test comes to -/

/-- The set itself, members of intersections, and what references stand for. -/
inductive Env.Component (env : Env R) : SetExpr R → SetExpr R → Prop
  | refl (s) : Component env s s
  | member {n sets s t} : s ∈ sets → Component env s t → Component env (.intersection n sets) t
  | reference {n ref t} : Component env (env.setExprRefs.get ref) t →
      Component env (.reference n ref) t

variable [Double R]

/-- The point is the value of every singleton of the set. -/
def Env.EqualsSingletons (env : Env R) (s : SetExpr R) (p : List R) : Prop :=
  ∀ n point, env.Component s (.singleton n point) →
    (evalToVector (point.map env.evalSem) : Outcome Err (List R)) = ok p

namespace AdvFunc

/-- The object accepts the point. -/
def Accepts (af : AdvFunc R) (bv : ValueMap R) (s : SetExpr R) (p : List R) : Prop :=
  ∃ fuel, (testMembership fuel s p bv af).1 = ok true

/-- The same, where a singleton accepts its value only. -/
def AcceptsExactly (af : AdvFunc R) (bv : ValueMap R) (s : SetExpr R) (p : List R) : Prop :=
  af.Accepts bv s p ∧ (af.env bv).EqualsSingletons s p

variable {af : AdvFunc R} {bv : ValueMap R} {s : SetExpr R} {p : List R}

/-- More fuel does not change what a membership test returns. -/
theorem testMembership_mono (hv : af.advValid = true) {n k : ℕ} (hnk : n ≤ k) {b : Bool}
    (h : (testMembership n s p bv af).1 = ok b) : (testMembership k s p bv af).1 = ok b := by
  induction hnk with
  | refl => exact h
  | @step k _ ih =>
    have hstep := (rel_calls_succ .all (related_self bv af.realExprRefs) definedRun_bot k)
      |>.membership (s := s) p trivial { af.toAdvState with nestingDepth := 0 }
    rw [testMembership, query_fst hv] at ih ⊢
    rcases hstep with hstop | heq
    · rw [hstop] at ih
      simp at ih
    · rw [← heq]
      exact ih

/-- An accepted point is accepted with all large enough fuel. -/
theorem Accepts.ends (hv : af.advValid = true) (h : af.Accepts bv s p) :
    Ends (fun n => testMembership n s p bv) af (ok true) := by
  obtain ⟨fuel, h⟩ := h
  exact ⟨fuel, fun n hn => testMembership_mono hv hn h⟩

theorem Accepts.memberSem (hv : af.advValid = true) (h : af.Accepts bv s p) :
    (af.env bv).memberSem s p = ok true := by
  obtain ⟨fuel, h⟩ := h
  exact sem_of_returned hv (refines_membership (af.env bv) s p) h

end AdvFunc

/-! ### Membership in each kind of set -/

namespace Env

variable (env : Env R) (n : Option String) (p : List R)

theorem memberSem_ball (center : List (RealExpr R)) (radius : RealExpr R) :
    env.memberSem (.ball n center radius) p
      = membershipBall (center.map env.evalSem) (env.evalSem radius) p := env.memberSem_eq _ _

theorem memberSem_rectangle (rect : List (RealExpr R × RealExpr R)) :
    env.memberSem (.rectangle n rect) p
      = membershipRectangle (rect.map fun b => (env.evalSem b.1, env.evalSem b.2)) p :=
  env.memberSem_eq _ _

theorem memberSem_intersection (sets : List (SetExpr R)) :
    env.memberSem (.intersection n sets) p
      = membershipIntersection (sets.map fun s => env.memberSem s p) := env.memberSem_eq _ _

omit [Double R] in
/-- An intersection accepts what all its members accept. -/
theorem membershipIntersection_eq_true {members : List (Outcome Err Bool)} :
    membershipIntersection members = ok true ↔ ∀ x ∈ members, x = ok true := by
  induction members with
  | nil => simp [membershipIntersection]
  | cons x members ih =>
    rw [membershipIntersection, bind_eq_ok, List.forall_mem_cons, ← ih]
    constructor
    · rintro ⟨b, rfl, hb⟩
      cases b with
      | true => exact ⟨rfl, hb⟩
      | false => simp at hb
    · rintro ⟨rfl, h⟩
      exact ⟨true, rfl, h⟩

theorem memberSem_intersection_eq_true {sets : List (SetExpr R)} :
    env.memberSem (.intersection n sets) p = ok true ↔
      ∀ s ∈ sets, env.memberSem s p = ok true := by
  rw [memberSem_intersection, membershipIntersection_eq_true, List.forall_mem_map]

variable {env n p}

theorem EqualsSingletons.member {sets : List (SetExpr R)} {s : SetExpr R}
    (h : env.EqualsSingletons (.intersection n sets) p) (hs : s ∈ sets) :
    env.EqualsSingletons s p :=
  fun m point hpoint => h m point (.member hs hpoint)

theorem equalsSingletons_singleton {point : List (RealExpr R)} :
    env.EqualsSingletons (.singleton n point) p ↔
      (evalToVector (point.map env.evalSem) : Outcome Err (List R)) = ok p := by
  constructor
  · intro h
    exact h n point (.refl _)
  · intro h m point' hpoint
    cases hpoint
    exact h

theorem equalsSingletons_ball (center : List (RealExpr R)) (radius : RealExpr R) :
    env.EqualsSingletons (.ball n center radius) p := by
  intro m point hpoint
  cases hpoint

theorem equalsSingletons_rectangle (rect : List (RealExpr R × RealExpr R)) :
    env.EqualsSingletons (.rectangle n rect) p := by
  intro m point hpoint
  cases hpoint

end Env

/-! ### A query of an object, after its first visit -/

/-- The state after the first visit of a query. -/
def AdvState.entered (s : AdvState R) : AdvState R := { s with nestingDepth := 1 }

section Entered

variable {af : AdvFunc R} {bv : ValueMap R} {s : SetExpr R} {fuel : ℕ}

/-- What the membership test does with a set once it has visited it. -/
theorem testMembership_entered (hv : af.advValid = true) (p : List R) :
    (AdvFunc.testMembership (fuel + 1) s p bv af).1 =
      (membershipSetExpr { methods bv af.realExprRefs with visitSet := pure () }
        (calls (methods bv af.realExprRefs) fuel) s p af.toAdvState.entered).1 := by
  rw [AdvFunc.testMembership, AdvFunc.query_fst hv]
  rfl

/-- What the bounding box method does with a set once it has visited it. -/
theorem rectangularHull_entered (hv : af.advValid = true) (lp : LpSolver R) :
    (AdvFunc.rectangularHull lp (fuel + 1) s bv af).1 =
      (hullSetExpr { methods bv af.realExprRefs with visit := pure () } lp
        (calls (methods bv af.realExprRefs) fuel) (rectHull (methods bv af.realExprRefs) lp fuel)
        s af.toAdvState.entered).1 := by
  rw [AdvFunc.rectangularHull, AdvFunc.query_fst hv]
  rfl

end Entered

end Commelec
