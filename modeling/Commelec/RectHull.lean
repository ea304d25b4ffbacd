/-
Commelec/RectHull.lean

Axis-aligned bounding boxes (`adv-interpreter-recthull.cpp` and
`boundingbox-convexpolygon.hpp`).

An Eigen matrix is a `Matrix R`: its number of columns and its rows.  The number
of columns is kept because a matrix without rows still has one.
-/
import Commelec.Eval

namespace Commelec

open Effectful Double

variable {R : Type} [Double R] {m : Type → Type} [Effects Err m]

/-- `Eigen::AlignedBoxXd`. -/
structure AlignedBox (R : Type) where
  min : List R
  max : List R

/-- `AlignedBoxXd()`: the box of dimension zero. -/
def AlignedBox.empty : AlignedBox R := ⟨[], []⟩

/-- `a.intersection(b)`; Eigen checks the dimensions. -/
def AlignedBox.intersection (a b : AlignedBox R) : m (AlignedBox R) := do
  assert (a.min.length = b.min.length)
  assert (a.max.length = b.max.length)
  pure ⟨List.zipWith stdMax a.min b.min, List.zipWith stdMin a.max b.max⟩

/-! ### Matrices -/

structure Matrix (R : Type) where
  cols : ℕ
  rows : List (List R)

/-- The matrix that `evalToMatrix` fills. -/
def Matrix.ofRows (rows : List (List R)) : Matrix R := ⟨(rows.headD []).length, rows⟩

/-- `Eigen::MatrixXd::Identity(sz, sz)`. -/
def Matrix.identity (sz : ℕ) : Matrix R :=
  ⟨sz, (List.range sz).map fun i => (List.range sz).map fun j => if i = j then 1 else 0⟩

def Matrix.neg (M : Matrix R) : Matrix R := ⟨M.cols, M.rows.map (List.map (-·))⟩

/-- `M.resize(rows, M.cols())`.  The coefficients survive only if the size does not
change; otherwise they are unspecified, here zero. -/
def Matrix.resize (M : Matrix R) (rows : ℕ) : Matrix R :=
  if rows = M.rows.length then M
  else ⟨M.cols, List.replicate rows (List.replicate M.cols 0)⟩

theorem Matrix.rows_resize (M : Matrix R) (rows : ℕ) : (M.resize rows).rows.length = rows := by
  rw [Matrix.resize]
  split
  · next h => exact h.symm
  · exact List.length_replicate

theorem Matrix.cols_resize (M : Matrix R) (rows : ℕ) : (M.resize rows).cols = M.cols := by
  rw [Matrix.resize]
  split <;> rfl

/-- `b.resize(size)`, likewise. -/
def resizeVec (b : List R) (size : ℕ) : List R :=
  if size = b.length then b else List.replicate size 0

theorem length_resizeVec (b : List R) (size : ℕ) : (resizeVec b size).length = size := by
  rw [resizeVec]
  split
  · next h => exact h.symm
  · rw [List.length_replicate]

/-- A block that the comma initialiser does not skip. -/
def Matrix.nonEmpty (M : Matrix R) : Bool := M.rows.length ≠ 0 && M.cols ≠ 0

/-- `M << A, B, ...;` for a matrix `M` of the given size: the blocks must fill it
exactly, from top to bottom. -/
def commaInit (rows cols : ℕ) (blocks : List (Matrix R)) : m (Matrix R) := do
  let blocks := blocks.filter Matrix.nonEmpty
  assert (blocks.all fun B => B.cols = cols)
  assert ((blocks.map fun B => B.rows.length).sum = rows)
  pure ⟨cols, (blocks.map Matrix.rows).flatten⟩

/-- `b << x, y, ...;` for a vector. -/
def commaInitVec (size : ℕ) (blocks : List (List R)) : m (List R) := do
  assert ((blocks.map List.length).sum = size)
  pure blocks.flatten

/-! ### Polytopes in the plane -/

/-- `solve_lp2(halves, c)`. -/
abbrev LpSolver (R : Type) : Type := List R → List R → Outcome Err (List R)

/-- `computeAABBConvexPolytope(A, b)`. -/
def computeAABBConvexPolytope (solveLp2 : LpSolver R) (A : Matrix R) (b : List R) :
    m (AlignedBox R) := do
  -- concatenate A with b to a matrix with three columns, and normalise its rows
  assert (A.cols = 2)
  assert (A.rows.length = b.length)
  let halves := (List.zipWith (fun row bi => normalized (row ++ [bi])) A.rows b).flatten
  let sol ← (solveLp2 halves [1, 0]).lift
  let sol2 ← (solveLp2 halves [-1, 0]).lift
  let sol3 ← (solveLp2 halves [0, 1]).lift
  let sol4 ← (solveLp2 halves [0, -1]).lift
  pure ⟨[-sol2.getD 0 0, -sol4.getD 1 0], [-sol.getD 0 0, -sol3.getD 1 0]⟩

def hullConvexPolytope (solveLp2 : LpSolver R) (a : List (List (m R))) (b : List (m R)) :
    m (AlignedBox R) := do
  let A ← evalToMatrix a
  let bs ← evalToVector b
  computeAABBConvexPolytope solveLp2 (Matrix.ofRows A) bs

/-! ### Basic sets -/

def hullSingleton (singleton : List (m R)) : m (AlignedBox R) := do
  let p ← evalToVector singleton
  pure ⟨p, p⟩

def hullBall (center : List (m R)) (radius : m R) : m (AlignedBox R) := do
  let cent ← evalToVector center
  let r ← radius
  pure ⟨cent.map (· - r), cent.map (· + r)⟩

def hullRectangle (rect : List (m R × m R)) : m (AlignedBox R) := do
  let bounds ← collect (rect.map fun b => do
    let val1 ← b.1
    let val2 ← b.2
    pure (stdMin val1 val2, stdMax val1 val2))
  pure ⟨bounds.map Prod.fst, bounds.map Prod.snd⟩

/-! ### Intersections -/

/-- The variables of the loop over the members of an intersection; `none` is a
variable whose flag `firstPoly` or `firstNonPoly` is still set. -/
structure Merged (R : Type) where
  poly : Option (Matrix R × List R)
  tempResult : Option (AlignedBox R)

/-- A member of an intersection as the loop sees it. -/
inductive Member (R : Type) (m : Type → Type) where
  | convexPolytope (a : List (List (m R))) (b : List (m R))
  | other (rectHull : m (AlignedBox R))

/-- One iteration of the loop. -/
def mergeMember (st : Merged R) : Member R m → m (Merged R)
  | .convexPolytope a b => do
    let bs ← evalToVector b
    let A ← evalToMatrix a
    let A := Matrix.ofRows A
    match st.poly with
    | none => pure { st with poly := some (A, bs) }
    | some (mergedA, mergedB) =>
      let mergedA := mergedA.resize (mergedA.rows.length + A.rows.length)
      let mergedA ← commaInit mergedA.rows.length mergedA.cols [mergedA, A]
      let mergedB := resizeVec mergedB (mergedB.length + bs.length)
      let mergedB ← commaInitVec mergedB.length [mergedB, bs]
      pure { st with poly := some (mergedA, mergedB) }
  | .other rectHull => do
    let hull ← rectHull
    match st.tempResult with
    | none => pure { st with tempResult := some hull }
    | some tempResult =>
      let tempResult ← tempResult.intersection hull
      pure { st with tempResult := some tempResult }

/-- The loop. -/
def mergeMembers : Merged R → List (Member R m) → m (Merged R)
  | st, [] => pure st
  | st, set :: intersection => do
    let st ← mergeMember st set
    mergeMembers st intersection

/-- What `rectHull(List<SetExpr>)` has found before it calls the bounding box solver:
a box when there was no polytope, otherwise `Final_A` and `Final_b`. -/
def intersectionSystem (members : List (Member R m)) :
    m (AlignedBox R ⊕ (Matrix R × List R)) := do
  let st ← mergeMembers ⟨none, none⟩ members
  let tempResult := st.tempResult.getD .empty
  match st.poly with
  | none => pure (.inl tempResult)
  | some (mergedA, mergedB) =>
    let minimums := tempResult.min
    let maximums := tempResult.max
    let sz := minimums.length
    let eye := Matrix.identity sz
    let finalA ← commaInit (mergedA.rows.length + 2 * sz) mergedA.cols
      [mergedA, eye, eye.neg]
    let finalB ← commaInitVec (mergedB.length + 2 * sz)
      [mergedB, maximums, minimums.map (-·)]
    pure (.inr (finalA, finalB))

/-- `rectHull(List<SetExpr>)`. -/
def hullIntersection (solveLp2 : LpSolver R) (members : List (Member R m)) :
    m (AlignedBox R) := do
  match ← intersectionSystem members with
  | .inl box => pure box
  | .inr (finalA, finalB) => computeAABBConvexPolytope solveLp2 finalA finalB

/-- How the loop treats a set: by the union tag. -/
def member (c : Calls R m) (rh : SetExpr R → m (AlignedBox R)) (set : SetExpr R) :
    Member R m :=
  match set with
  | .convexPolytope _ a b => .convexPolytope (a.map (List.map c.eval)) (b.map c.eval)
  | _ => .other (rh set)

/-- `rectHull(SetExpr)`. -/
def hullSetExpr (self : Self R m) (solveLp2 : LpSolver R) (c : Calls R m)
    (rh : SetExpr R → m (AlignedBox R)) (set : SetExpr R) : m (AlignedBox R) := do
  self.visit
  match set with
  | .singleton _ singleton => hullSingleton (singleton.map c.eval)
  | .ball _ center radius => hullBall (center.map c.eval) (c.eval radius)
  | .rectangle _ rect => hullRectangle (rect.map fun b => (c.eval b.1, c.eval b.2))
  | .convexPolytope _ a b =>
    hullConvexPolytope solveLp2 (a.map (List.map c.eval)) (b.map c.eval)
  | .intersection _ sets => hullIntersection solveLp2 (sets.map (member c rh))
  | .caseDistinction .. | .reference .. | .unknown .. =>
    raise (whichError "AdvFunc::rectangularHull" set)

/-- `rectHull` with recursive calls up to depth `fuel`. -/
def rectHull (self : Self R m) (solveLp2 : LpSolver R) :
    ℕ → SetExpr R → m (AlignedBox R)
  | 0, _ => stop
  | fuel + 1, set =>
    hullSetExpr self solveLp2 (calls self fuel) (rectHull self solveLp2 fuel) set

end Commelec
