/-
Commelec/Projection.lean

Projecting a point onto a set (`proj` in `adv-interpreter.hpp` and
`adv-interpreter-proj.cpp`), with Dykstra's alternating projections for polytopes
and intersections.

The arrays of `dykstraProjectionAlgorithm` are modelled by what a sweep reads of
them: `yv[1..m]` is the list `ys` and `xv[m]` the point `x`; `xv[0]` is a copy of
`xv[m]`, and `xv[1..m]` is the list a sweep returns.  At the start of every sweep
the variable `result` equals `xv[m]`.
-/
import Commelec.Eval

namespace Commelec

open Effectful Double

variable {R : Type} [Double R] {m : Type → Type} [Effects Err m]

/-! ### Basic sets -/

def projIntval (x min max : R) : R :=
  if le x min then min else if le max x then max else x

/-- Projecting to a singleton is trivial. -/
def projSingleton (singleton : List (m R)) : m (List R) := evalToVector singleton

def projBall (center : List (m R)) (radius : m R) (point : List R) : m (List R) := do
  if ← membershipBall center radius point then
    pure point
  else
    let cent ← evalToVector center
    let r ← radius
    pure (vecAdd cent (vecScale r (normalized (vecSub point cent))))

/-- The coordinates `result(i)` that the loop over the boundary pairs assigns. -/
def clampBounds : List (m R × m R) → List R → m (List R)
  | (boundA, boundB) :: rect, x :: point => do
    let val1 ← boundA
    let val2 ← boundB
    let rest ← clampBounds rect point
    pure (projIntval x (stdMin val1 val2) (stdMax val1 val2) :: rest)
  | [], [] => pure []
  -- coordinates of `result` that were never assigned
  | [], _ :: _ => raise .undefined
  | (boundA, boundB) :: _, [] => do
    let _ ← boundA
    let _ ← boundB
    raise .assertion

def projRectangle (rect : List (m R × m R)) (point : List R) : m (List R) :=
  clampBounds rect point

/-- The set of points `x` with `a . x <= b`. -/
structure HalfSpace (R : Type) where
  a : List R
  b : R

def membershipHalfSpace (hs : HalfSpace R) (point : List R) : m Bool := do
  assert (hs.a.length = point.length)
  pure (le (dot hs.a point) hs.b)

def projHalfSpace (hs : HalfSpace R) (point : List R) : m (List R) := do
  if ← membershipHalfSpace hs point then
    pure point
  else
    pure (vecSub point (vecScale (dot hs.a point - hs.b)
      (hs.a.map (· / squaredNorm hs.a))))

/-! ### Dykstra's algorithm -/

/-- `(a - b).norm()`. -/
def dist (a b : List R) : R := norm (vecSub a b)

/-- One pass over the sets, from `xv[i-1] = x` on; gives `xv[i..m]` and the new
`yv[i..m]`. -/
def dykstraSweep : List (List R → m (List R)) → List (List R) → List R →
    m (List (List R) × List (List R))
  | proj :: sets, y :: ys, x => do
    assert (x.length = y.length)
    let z := vecAdd x y
    let x' ← proj z
    assert (z.length = x'.length)
    let y' := vecSub z x'
    let (xs, ys') ← dykstraSweep sets ys x'
    pure (x' :: xs, y' :: ys')
  | _, _, _ => pure ([], [])

def convergenceThreshold : R := lit (1 / 1000)

def maxIterations : ℕ := 1000

/-- Sweep until two successive values of `xv[m]` are closer than the threshold.
Gives the previous value of `xv[m]`, or `none` if there was no convergence. -/
def dykstraLoop (sets : List (List R → m (List R))) : ℕ → List (List R) → List R →
    m (Option (List R))
  | 0, _, _ => pure none
  | iter + 1, ys, result => do
    let (xs, ys') ← dykstraSweep sets ys result
    let x := xs.getLast?.getD result
    if lt (dist x result) convergenceThreshold then
      pure (some result)
    else
      dykstraLoop sets iter ys' x

/-- `dykstraProjectionAlgorithm` with its default arguments. -/
def dykstraProjectionAlgorithm (sets : List (List R → m (List R))) (point : List R) :
    m (Option (List R)) :=
  dykstraLoop sets maxIterations
    (List.replicate sets.length (List.replicate point.length 0)) point

/-- What `proj` does with the result of Dykstra's algorithm. -/
def convergedOr (result : Option (List R)) : m (List R) :=
  match result with
  | some x => pure x
  | none => raise (.noConvergence "Dykstra's algorithm did not converge.")

/-! ### Compound sets -/

/-- The half-spaces `a_i . x <= b_i`; Cap'n Proto checks the index `b[i]`. -/
def halfSpaces : List (List (m R)) → List (m R) → m (List (HalfSpace R))
  | [], _ => pure []
  | row :: a, bi :: b => do
    let ai ← evalToVector row
    let bi ← bi
    let rest ← halfSpaces a b
    pure (⟨ai, bi⟩ :: rest)
  | row :: _, [] => do
    let _ ← evalToVector row
    raise .kjException

def projConvexPolytope (a : List (List (m R))) (b : List (m R)) (point : List R) :
    m (List R) := do
  if ← membershipConvexPolytope a b point then
    pure point
  else
    let altPolygonRepr ← halfSpaces a b
    let result ← dykstraProjectionAlgorithm (altPolygonRepr.map projHalfSpace) point
    convergedOr result

/-- `proj(List<SetExpr>)`; for each set, its membership and its projection. -/
def projIntersection (members : List (m Bool)) (projs : List (List R → m (List R)))
    (point : List R) : m (List R) := do
  if ← membershipIntersection members then
    pure point
  else
    let result ← dykstraProjectionAlgorithm projs point
    convergedOr result

/-- `proj(SetExpr)`. -/
def projSetExpr (self : Self R m) (c : Calls R m) (pr : SetExpr R → List R → m (List R))
    (set : SetExpr R) (point : List R) : m (List R) := do
  self.visitSet
  match set with
  | .singleton _ singleton => projSingleton (singleton.map c.eval)
  | .ball _ center radius => projBall (center.map c.eval) (c.eval radius) point
  | .rectangle _ rect => projRectangle (rect.map fun b => (c.eval b.1, c.eval b.2)) point
  | .convexPolytope _ a b =>
    projConvexPolytope (a.map (List.map c.eval)) (b.map c.eval) point
  | .intersection _ sets =>
    projIntersection (sets.map (c.membership · point)) (sets.map pr) point
  | .caseDistinction .. | .reference .. | .unknown .. =>
    raise (whichError "AdvFunc::proj" set)

/-- `proj` with recursive calls up to depth `fuel`. -/
def proj (self : Self R m) : ℕ → SetExpr R → List R → m (List R)
  | 0, _, _ => stop
  | fuel + 1, set, point =>
    projSetExpr self (calls self fuel) (proj self fuel) set point

/-- `proj` for points in a `std::vector`: the result is written to a vector of the
same length. -/
def projPoint (self : Self R m) (fuel : ℕ) (set : SetExpr R) (point : List R) :
    m (List R) := do
  let res ← proj self fuel set point
  assert (res.length = point.length)
  pure res

end Commelec
