/-
Commelec/Independence.lean

Queries do not influence one another.

A query changes its object: the visit counter, the bound variables, and the map of named
sets, in which the lookup of an unknown name inserts a default set.  But the next query sets
the counter and the variables anew, and an inserted set is the one that the lookup would give
anyhow.  So an object keeps looking like a new one (`LooksLike`), over every sequence of queries
(`LooksLike.runs`), and the outcome of a query does not depend on those before it
(`queries_independent`).
-/
import Commelec.IntersectionHull
import Commelec.Reuse

namespace Commelec

open Effectful Outcome

variable {R : Type} [Double R]

/-! ### Queries -/

/-- A query of a user. -/
inductive Query (R : Type) where
  | evaluate (expr : RealExpr R) (boundVars : ValueMap R)
  | evalPartialDerivative (expr : RealExpr R) (diffVariable : String) (boundVars : ValueMap R)
  | testMembership (set : SetExpr R) (point : List R) (boundVars : ValueMap R)
  | project (set : SetExpr R) (point : List R) (boundVars : ValueMap R)
  | rectangularHull (solveLp2 : LpSolver R) (set : SetExpr R) (boundVars : ValueMap R)

namespace Query

/-- What a query returns. -/
def Result : Query R → Type
  | evaluate .. | evalPartialDerivative .. => R
  | testMembership .. => Bool
  | project .. => List R
  | rectangularHull .. => AlignedBox R

def boundVars : Query R → ValueMap R
  | evaluate _ bv | evalPartialDerivative _ _ bv | testMembership _ _ bv | project _ _ bv
  | rectangularHull _ _ bv => bv

/-- The method that a query runs. -/
def method (fuel : ℕ) : (q : Query R) → Self R (Method R) → Method R q.Result
  | evaluate expr _ => fun self => (calls self fuel).eval expr
  | evalPartialDerivative expr x _ => fun self =>
    (Commelec.evalPartialDerivative self x fuel expr : Method R R)
  | testMembership set point _ => fun self => (calls self fuel).membership set point
  | project set point _ => fun self => projPoint self fuel set point
  | rectangularHull solveLp2 set _ => fun self => rectHull self solveLp2 fuel set

/-- Run a query on an object. -/
def run (fuel : ℕ) : (q : Query R) → Run (AdvFunc R) Err q.Result
  | evaluate expr bv => AdvFunc.evaluate fuel expr bv
  | evalPartialDerivative expr x bv => AdvFunc.evalPartialDerivative fuel expr x bv
  | testMembership set point bv => AdvFunc.testMembership fuel set point bv
  | project set point bv => AdvFunc.project fuel set point bv
  | rectangularHull solveLp2 set bv => AdvFunc.rectangularHull solveLp2 fuel set bv

theorem run_eq (fuel : ℕ) (q : Query R) :
    q.run fuel = AdvFunc.query q.boundVars (q.method fuel) := by
  cases q <;> rfl

/-- The object after a sequence of queries, each with its own fuel. -/
def runs : List (ℕ × Query R) → AdvFunc R → AdvFunc R
  | [], af => af
  | (fuel, q) :: history, af => runs history (q.run fuel af).2

/-- Every method respects every relation of two objects. -/
theorem rel_method {S : EffectRel Err (Method R) (Method R)} {self self' : Self R (Method R)}
    (h : Related S (fun _ => True) (fun _ => True) self self')
    (hstop : ∀ {α : Type}, S.rel (stop : Method R α) stop) (fuel : ℕ) (q : Query R) :
    S.rel (q.method fuel self) (q.method fuel self') := by
  cases q with
  | evaluate expr bv => exact (rel_calls .all h hstop fuel).eval trivial
  | evalPartialDerivative expr x bv => exact rel_evalPartialDerivative .all h hstop x fuel trivial
  | testMembership set point bv => exact (rel_calls .all h hstop fuel).membership point trivial
  | project set point bv => exact rel_projPoint .all h hstop fuel trivial point
  | rectangularHull lp set bv => exact rel_rectHull .all h hstop lp fuel trivial

/-- Every method keeps the named sets. -/
theorem sameSets_method (fuel : ℕ) (q : Query R) (env : Env R) {s : AdvState R}
    (hs : SameSets s.setExprRefs env.setExprRefs) :
    SameSets (q.method fuel (methods env.boundVars env.realExprRefs) s).2.setExprRefs
      env.setExprRefs := by
  -- `guarded` compares with a method on the abstract object; here only the sets matter
  have hself := related_methods env
  have hstop : ∀ {α : Type}, (guarded env.setExprRefs).rel (stop : Method R α) stop :=
    guarded_stop _
  cases q with
  | evaluate expr bv => exact ((rel_calls .all hself hstop fuel).eval (e := expr) trivial s hs).2
  | evalPartialDerivative expr x bv =>
    exact (rel_evalPartialDerivative .all hself hstop x fuel (e := expr) trivial s hs).2
  | testMembership set point bv =>
    exact ((rel_calls .all hself hstop fuel).membership (s := set) point trivial s hs).2
  | project set point bv =>
    exact (rel_projPoint .all hself hstop fuel (s := set) trivial point s hs).2
  | rectangularHull lp set bv =>
    exact (rel_rectHull .all hself hstop lp fuel (s := set) trivial s hs).2

end Query

/-! ### What a query leaves unchanged -/

namespace AdvFunc

/-- Valid, and with the same named expressions and sets. -/
structure LooksLike (fresh af : AdvFunc R) : Prop where
  advValid : af.advValid = true
  realExprRefs : af.realExprRefs = fresh.realExprRefs
  setExprRefs : SameSets af.setExprRefs fresh.setExprRefs

variable {fresh af : AdvFunc R}

/-- One query, whatever its outcome. -/
theorem LooksLike.run (h : LooksLike fresh af) (fuel : ℕ) (q : Query R) :
    LooksLike fresh (q.run fuel af).2 := by
  rw [Query.run_eq, query, if_pos h.advValid]
  refine ⟨h.advValid, h.realExprRefs, fun ref => ?_⟩
  have hkept := q.sameSets_method fuel (af.env q.boundVars)
    (s := { af.toAdvState with nestingDepth := 0 }) fun _ => rfl
  exact (hkept ref).trans (h.setExprRefs ref)

/-- **A sequence of queries.** -/
theorem LooksLike.runs (h : LooksLike fresh af) (history : List (ℕ × Query R)) :
    LooksLike fresh (Query.runs history af) := by
  induction history generalizing af with
  | nil => exact h
  | cons query history ih =>
    obtain ⟨fuel, q⟩ := query
    exact ih (h.run fuel q)

/-- An object that looks like a new one answers like it. -/
theorem LooksLike.run_eq (h : LooksLike fresh af) (hfresh : fresh.advValid = true) (fuel : ℕ)
    (q : Query R) : (q.run fuel af).1 = (q.run fuel fresh).1 := by
  rw [Query.run_eq, query_fst h.advValid, query_fst hfresh, h.realExprRefs]
  have hself : Related (agreeing (fun _ => True) fun _ => True) (fun _ => True) (fun _ => True)
      (methods q.boundVars fresh.realExprRefs) (methods q.boundVars fresh.realExprRefs) :=
    related_agreeing (fun _ _ _ => ⟨rfl, fun _ _ => trivial⟩) (fun _ _ _ => trivial) q.boundVars
  have hagree : AgreeOn (fun _ => True) (fun _ => True) { af.toAdvState with nestingDepth := 0 }
      { fresh.toAdvState with nestingDepth := 0 } :=
    ⟨rfl, fun ref _ => ⟨h.setExprRefs ref, trivial⟩⟩
  exact (q.rel_method hself (agreeing_stop _ _) fuel _ _ hagree).1

/-- A valid object answers after any queries as before them. -/
theorem run_runs (hvalid : af.advValid = true) (history : List (ℕ × Query R)) (fuel : ℕ)
    (q : Query R) : (q.run fuel (Query.runs history af)).1 = (q.run fuel af).1 := by
  have hself : LooksLike af af := ⟨hvalid, rfl, fun _ => rfl⟩
  exact (hself.runs history).run_eq hvalid fuel q

end AdvFunc

/-- **Queries do not influence one another**: after any sequence of queries, an object answers
as when it was new. -/
theorem queries_independent {adv : Advertisement R} {af : AdvFunc R}
    (hnew : AdvFunc.new adv = (ok (), af)) (history : List (ℕ × Query R)) (fuel : ℕ)
    (q : Query R) : (q.run fuel (Query.runs history af)).1 = (q.run fuel af).1 :=
  AdvFunc.run_runs (AdvFunc.of_new hnew).1 history fuel q

/-- A membership query that inserts the unknown set `r`, and then the membership in `r`. -/
theorem queries_independent_sample :
    ∃ af, AdvFunc.new ownName = (ok (), af) ∧
      ((Query.testMembership (.reference none "r") [] fun _ => none).run 9
        (Query.runs [(9, .testMembership (.reference none "r") [1] fun _ => none)] af)).1
      = ((Query.testMembership (.reference none "r") [] fun _ => none).run 9 af).1 := by
  have hnew := AdvFunc.setAdv_of_collectable collectable_ownName AdvFunc.blank
  exact ⟨_, hnew, queries_independent hnew _ _ _⟩

end Commelec
