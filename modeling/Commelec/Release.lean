/-
Commelec/Release.lean

The operations on sets in a build without checks: `assert` is compiled out, and so are the debug
checks of Eigen and Cap'n Proto.

Eigen asks that the operands of an operation have sizes that fit, and without its checks it
promises nothing where they do not.  An operation is an `EigenOp`, with the sizes it asks for
(`fits`) and what it is documented to give then (`value`).  What it does with other operands is a
parameter, `UncheckedEigen R`: it gives some result, or it accesses positions that do not exist.

A run of the model ends where such a position is accessed, and where a point is returned with a
coordinate that was never assigned.  No assertion fails in this build, so the error
`Err.assertion` is free to mark that end; here it is called `outside`.

Expressions are evaluated as in the other build, but for the membership tests that case
distinctions make.
-/
import Commelec.AdvFunc

namespace Commelec

open Effectful Double

variable {R : Type}

/-! ### Operations of Eigen -/

/-- The operations on whole vectors and matrices, by the type of their results. -/
inductive EigenOp (R : Type) : Type → Type where
  /-- `x + y` -/
  | add (x y : List R) : EigenOp R (List R)
  /-- `x - y` -/
  | sub (x y : List R) : EigenOp R (List R)
  /-- `x.transpose() * y` -/
  | dot (x y : List R) : EigenOp R R
  /-- `A * x` -/
  | mulVec (A : Matrix R) (x : List R) : EigenOp R (List R)
  /-- `x.isApprox(y)` -/
  | isApprox (x y : List R) : EigenOp R Bool
  /-- `(x.array() <= y.array()).all()` -/
  | allLe (x y : List R) : EigenOp R Bool
  /-- `res = x;` for a map `res` of the given size -/
  | assign (size : ℕ) (x : List R) : EigenOp R (List R)
  /-- `a.intersection(b)` -/
  | intersection (a b : AlignedBox R) : EigenOp R (AlignedBox R)
  /-- `M << A, B, ...;` for a matrix of the given size -/
  | comma (rows cols : ℕ) (blocks : List (Matrix R)) : EigenOp R (Matrix R)
  /-- `b << x, y, ...;` for a vector of the given size -/
  | commaVec (size : ℕ) (blocks : List (List R)) : EigenOp R (List R)
  /-- `eigHalves << A, b;` for a matrix with as many rows as `A` and three columns; `A` is never
  empty, since `evalToMatrix` does not return an empty matrix -/
  | halves (A : Matrix R) (b : List R) : EigenOp R (List (List R))

namespace EigenOp

/-- The sizes of the operands are as Eigen asks. -/
def fits {α : Type} : EigenOp R α → Bool
  | add x y | sub x y | dot x y | isApprox x y | allLe x y => x.length = y.length
  | mulVec A x => A.cols = x.length
  | assign size x => x.length = size
  | intersection a b => a.min.length = b.min.length ∧ a.max.length = b.max.length
  | comma rows cols blocks =>
    let blocks := blocks.filter Matrix.nonEmpty
    (blocks.all fun B => B.cols = cols) && (blocks.map fun B => B.rows.length).sum = rows
  | commaVec size blocks => (blocks.map List.length).sum = size
  | halves A b => A.cols = 2 ∧ A.rows.length = b.length

variable [Double R]

/-- What the operation gives then. -/
def value {α : Type} : EigenOp R α → α
  | add x y => vecAdd x y
  | sub x y => vecSub x y
  | dot x y => Commelec.dot x y
  | mulVec A x => A.rows.map (Commelec.dot · x)
  | isApprox x y => Commelec.isApprox x y
  | allLe x y => Commelec.allLe x y
  | assign _ x => x
  | intersection a b => ⟨List.zipWith stdMax a.min b.min, List.zipWith stdMin a.max b.max⟩
  | comma _ cols blocks => ⟨cols, ((blocks.filter Matrix.nonEmpty).map Matrix.rows).flatten⟩
  | commaVec _ blocks => blocks.flatten
  | halves A b => List.zipWith (fun row bi => row ++ [bi]) A.rows b

end EigenOp

/-- What Eigen does without its checks: the result of an operation, or `none` if it accesses
positions outside an operand. -/
structure UncheckedEigen (R : Type) where
  result {α : Type} : EigenOp R α → Option α

/-- Every operation that does not fit accesses positions outside. -/
def UncheckedEigen.worst : UncheckedEigen R := ⟨fun _ => none⟩

/-- An access to a position that does not exist, or a point with an unassigned coordinate. -/
def outside : Err := .assertion

variable [Double R] {m : Type → Type} [Effects Err m]

/-- Carry out the operation, without a check. -/
def EigenOp.perform {α : Type} (E : UncheckedEigen R) (op : EigenOp R α) : m α :=
  if op.fits then pure op.value
  else
    match E.result op with
    | some a => pure a
    | none => raise outside

omit [Double R] in
/-- `v[i]` for a `std::vector`. -/
def position (v : List R) (i : ℕ) : m R :=
  match v[i]? with
  | some x => pure x
  | none => raise outside

namespace Release

variable (E : UncheckedEigen R)

/-! ### Membership -/

def membershipSingleton (singleton : List (m R)) (point : List R) : m Bool := do
  let sing ← evalToVector singleton
  (EigenOp.isApprox point sing).perform E

def membershipBall (center : List (m R)) (radius : m R) (point : List R) : m Bool := do
  let cent ← evalToVector center
  let r ← radius
  let diff ← (EigenOp.sub cent point).perform E
  pure (le (squaredNorm diff) (r * r))

/-- The loop over the boundary pairs; `point(i)` is read after the bounds are evaluated. -/
def membershipRectangle : List (m R × m R) → List R → m Bool
  | [], _ => pure true
  | (boundA, boundB) :: rect, point => do
    let val1 ← boundA
    let val2 ← boundB
    let minVal := stdMin val1 val2
    let maxVal := stdMax val1 val2
    match point with
    | [] => raise outside
    | x :: point =>
      if lt x minVal || lt maxVal x then pure false else membershipRectangle rect point

def membershipConvexPolytope (a : List (List (m R))) (b : List (m R)) (point : List R) :
    m Bool := do
  let A ← evalToMatrix a
  let bs ← evalToVector b
  let Ax ← (EigenOp.mulVec (Matrix.ofRows A) point).perform E
  (EigenOp.allLe Ax bs).perform E

/-- `membership(SetExpr)`. -/
def membershipSetExpr (self : Self R m) (c : Calls R m) (set : SetExpr R) (point : List R) :
    m Bool := do
  self.visitSet
  match set with
  | .singleton _ singleton => membershipSingleton E (singleton.map c.eval) point
  | .ball _ center radius => membershipBall E (center.map c.eval) (c.eval radius) point
  | .rectangle _ rect => membershipRectangle (rect.map fun b => (c.eval b.1, c.eval b.2)) point
  | .convexPolytope _ a b =>
    membershipConvexPolytope E (a.map (List.map c.eval)) (b.map c.eval) point
  | .intersection _ sets => membershipIntersection (sets.map (c.membership · point))
  | .reference _ ref => do
    let referenced ← self.findSet ref
    c.membership referenced point
  | .caseDistinction .. | .unknown .. =>
    raise (whichError "AdvFunc::membership in msgfunction.cpp" set)

/-- `eval` and `membership` with recursive calls up to depth `fuel`. -/
def calls (self : Self R m) : ℕ → Calls R m
  | 0 => ⟨fun _ => stop, fun _ _ => stop⟩
  | fuel + 1 =>
    ⟨evalRealExpr self (calls self fuel), membershipSetExpr E self (calls self fuel)⟩

/-- `evalPartialDerivative(RealExpr)` with recursive calls up to depth `fuel`. -/
def evalDerivative (self : Self R m) (diffVariable : String) : ℕ → RealExpr R → m R
  | 0, _ => stop
  | fuel + 1, expr =>
    derivRealExpr self (calls E self fuel) (evalDerivative self diffVariable fuel) diffVariable expr

/-! ### Projection -/

def projBall (center : List (m R)) (radius : m R) (point : List R) : m (List R) := do
  if ← membershipBall E center radius point then
    pure point
  else
    let cent ← evalToVector center
    let r ← radius
    let diff ← (EigenOp.sub point cent).perform E
    (EigenOp.add cent (vecScale r (normalized diff))).perform E

/-- The loop over the boundary pairs, which reads `point(i)` and assigns `result(i)`.  The vector
`result` has the size of the point. -/
def projRectangle : List (m R × m R) → List R → m (List R)
  | [], [] => pure []
  -- coordinates of `result` that were never assigned
  | [], _ :: _ => raise outside
  | (boundA, boundB) :: rect, point => do
    let val1 ← boundA
    let val2 ← boundB
    match point with
    | [] => raise outside
    | x :: point => do
      let rest ← projRectangle rect point
      pure (projIntval x (stdMin val1 val2) (stdMax val1 val2) :: rest)

def projHalfSpace (hs : HalfSpace R) (point : List R) : m (List R) := do
  let ax ← (EigenOp.dot hs.a point).perform E
  if le ax hs.b then
    pure point
  else
    (EigenOp.sub point (vecScale (ax - hs.b) (hs.a.map (· / squaredNorm hs.a)))).perform E

/-- One pass over the sets, as `Commelec.dykstraSweep`. -/
def dykstraSweep : List (List R → m (List R)) → List (List R) → List R →
    m (List (List R) × List (List R))
  | proj :: sets, y :: ys, x => do
    let z ← (EigenOp.add x y).perform E
    let x' ← proj z
    let y' ← (EigenOp.sub z x').perform E
    let (xs, ys') ← dykstraSweep sets ys x'
    pure (x' :: xs, y' :: ys')
  | _, _, _ => pure ([], [])

/-- Sweep until two successive values of `xv[m]` are closer than the threshold. -/
def dykstraLoop (sets : List (List R → m (List R))) : ℕ → List (List R) → List R →
    m (Option (List R))
  | 0, _, _ => pure none
  | iter + 1, ys, result => do
    let (xs, ys') ← dykstraSweep E sets ys result
    let x := xs.getLast?.getD result
    let diff ← (EigenOp.sub x result).perform E
    if lt (norm diff) convergenceThreshold then
      pure (some result)
    else
      dykstraLoop sets iter ys' x

/-- `dykstraProjectionAlgorithm` with its default arguments. -/
def dykstraProjectionAlgorithm (sets : List (List R → m (List R))) (point : List R) :
    m (Option (List R)) :=
  dykstraLoop E sets maxIterations
    (List.replicate sets.length (List.replicate point.length 0)) point

omit [Double R] in
/-- The half-spaces `a_i . x <= b_i`; the index `b[i]` is not checked. -/
def halfSpaces : List (List (m R)) → List (m R) → m (List (HalfSpace R))
  | [], _ => pure []
  | row :: a, b => do
    let ai ← evalToVector row
    match b with
    | [] => raise outside
    | bi :: b => do
      let bi ← bi
      let rest ← halfSpaces a b
      pure (⟨ai, bi⟩ :: rest)

def projConvexPolytope (a : List (List (m R))) (b : List (m R)) (point : List R) :
    m (List R) := do
  if ← membershipConvexPolytope E a b point then
    pure point
  else
    let altPolygonRepr ← halfSpaces a b
    let result ← dykstraProjectionAlgorithm E (altPolygonRepr.map (projHalfSpace E)) point
    convergedOr result

/-- `proj(List<SetExpr>)`; for each set, its membership and its projection. -/
def projIntersection (members : List (m Bool)) (projs : List (List R → m (List R)))
    (point : List R) : m (List R) := do
  if ← membershipIntersection members then
    pure point
  else
    let result ← dykstraProjectionAlgorithm E projs point
    convergedOr result

/-- `proj(SetExpr)`. -/
def projSetExpr (self : Self R m) (c : Calls R m) (pr : SetExpr R → List R → m (List R))
    (set : SetExpr R) (point : List R) : m (List R) := do
  self.visitSet
  match set with
  | .singleton _ singleton => projSingleton (singleton.map c.eval)
  | .ball _ center radius => projBall E (center.map c.eval) (c.eval radius) point
  | .rectangle _ rect => projRectangle (rect.map fun b => (c.eval b.1, c.eval b.2)) point
  | .convexPolytope _ a b =>
    projConvexPolytope E (a.map (List.map c.eval)) (b.map c.eval) point
  | .intersection _ sets =>
    projIntersection E (sets.map (c.membership · point)) (sets.map pr) point
  | .caseDistinction .. | .reference .. | .unknown .. =>
    raise (whichError "AdvFunc::proj" set)

/-- `proj` with recursive calls up to depth `fuel`. -/
def proj (self : Self R m) : ℕ → SetExpr R → List R → m (List R)
  | 0, _, _ => stop
  | fuel + 1, set, point =>
    projSetExpr E self (calls E self fuel) (proj self fuel) set point

/-- `proj` for points in a `std::vector`: the result is written to a vector of the same
length. -/
def projPoint (self : Self R m) (fuel : ℕ) (set : SetExpr R) (point : List R) :
    m (List R) := do
  let res ← proj E self fuel set point
  (EigenOp.assign point.length res).perform E

/-! ### Bounding boxes -/

/-- `computeAABBConvexPolytope(A, b)`. -/
def computeAABBConvexPolytope (solveLp2 : LpSolver R) (A : Matrix R) (b : List R) :
    m (AlignedBox R) := do
  let eigHalves ← (EigenOp.halves A b).perform E
  let halves := (eigHalves.map normalized).flatten
  let sol ← (solveLp2 halves [1, 0]).lift
  let xmax ← position sol 0
  let sol2 ← (solveLp2 halves [-1, 0]).lift
  let xmin ← position sol2 0
  let sol3 ← (solveLp2 halves [0, 1]).lift
  let ymax ← position sol3 1
  let sol4 ← (solveLp2 halves [0, -1]).lift
  let ymin ← position sol4 1
  pure ⟨[-xmin, -ymin], [-xmax, -ymax]⟩

def hullConvexPolytope (solveLp2 : LpSolver R) (a : List (List (m R))) (b : List (m R)) :
    m (AlignedBox R) := do
  let A ← evalToMatrix a
  let bs ← evalToVector b
  computeAABBConvexPolytope E solveLp2 (Matrix.ofRows A) bs

/-- One iteration of the loop over the members of an intersection. -/
def mergeMember (st : Merged R) : Member R m → m (Merged R)
  | .convexPolytope a b => do
    let bs ← evalToVector b
    let A ← evalToMatrix a
    let A := Matrix.ofRows A
    match st.poly with
    | none => pure { st with poly := some (A, bs) }
    | some (mergedA, mergedB) =>
      let mergedA := mergedA.resize (mergedA.rows.length + A.rows.length)
      let mergedA ← (EigenOp.comma mergedA.rows.length mergedA.cols [mergedA, A]).perform E
      let mergedB := resizeVec mergedB (mergedB.length + bs.length)
      let mergedB ← (EigenOp.commaVec mergedB.length [mergedB, bs]).perform E
      pure { st with poly := some (mergedA, mergedB) }
  | .other rectHull => do
    let hull ← rectHull
    match st.tempResult with
    | none => pure { st with tempResult := some hull }
    | some tempResult =>
      let tempResult ← (EigenOp.intersection tempResult hull).perform E
      pure { st with tempResult := some tempResult }

/-- The loop. -/
def mergeMembers : Merged R → List (Member R m) → m (Merged R)
  | st, [] => pure st
  | st, set :: intersection => do
    let st ← mergeMember E st set
    mergeMembers st intersection

/-- What `rectHull(List<SetExpr>)` does after the loop. -/
def boundMerged (solveLp2 : LpSolver R) (st : Merged R) : m (AlignedBox R) := do
  let tempResult := st.tempResult.getD .empty
  match st.poly with
  | none => pure tempResult
  | some (mergedA, mergedB) =>
    let minimums := tempResult.min
    let maximums := tempResult.max
    let sz := minimums.length
    let eye := Matrix.identity sz
    let finalA ← (EigenOp.comma (mergedA.rows.length + 2 * sz) mergedA.cols
      [mergedA, eye, eye.neg]).perform E
    let finalB ← (EigenOp.commaVec (mergedB.length + 2 * sz)
      [mergedB, maximums, minimums.map (-·)]).perform E
    computeAABBConvexPolytope E solveLp2 finalA finalB

/-- `rectHull(List<SetExpr>)`. -/
def hullIntersection (solveLp2 : LpSolver R) (members : List (Member R m)) :
    m (AlignedBox R) := do
  let st ← mergeMembers E ⟨none, none⟩ members
  boundMerged E solveLp2 st

/-- `rectHull(SetExpr)`. -/
def hullSetExpr (self : Self R m) (solveLp2 : LpSolver R) (c : Calls R m)
    (rh : SetExpr R → m (AlignedBox R)) (set : SetExpr R) : m (AlignedBox R) := do
  self.visit
  match set with
  | .singleton _ singleton => hullSingleton (singleton.map c.eval)
  | .ball _ center radius => hullBall (center.map c.eval) (c.eval radius)
  | .rectangle _ rect => hullRectangle (rect.map fun b => (c.eval b.1, c.eval b.2))
  | .convexPolytope _ a b =>
    hullConvexPolytope E solveLp2 (a.map (List.map c.eval)) (b.map c.eval)
  | .intersection _ sets => hullIntersection E solveLp2 (sets.map (member c rh))
  | .caseDistinction .. | .reference .. | .unknown .. =>
    raise (whichError "AdvFunc::rectangularHull" set)

/-- `rectHull` with recursive calls up to depth `fuel`. -/
def rectHull (self : Self R m) (solveLp2 : LpSolver R) : ℕ → SetExpr R → m (AlignedBox R)
  | 0, _ => stop
  | fuel + 1, set =>
    hullSetExpr E self solveLp2 (calls E self fuel) (rectHull self solveLp2 fuel) set

/-! ### Queries -/

omit [Double R] in
/-- What the user functions have in common; `assert(_advValid)` is compiled out. -/
def query {α : Type} (boundVars : ValueMap R) (method : Self R (Method R) → Method R α) :
    Run (AdvFunc R) Err α := fun af =>
  let r := method (methods boundVars af.realExprRefs) { af.toAdvState with nestingDepth := 0 }
  (r.1, { af with toAdvState := r.2, boundVars := boundVars })

def evaluate (fuel : ℕ) (expr : RealExpr R) (boundVars : ValueMap R) : Run (AdvFunc R) Err R :=
  query boundVars fun self => (calls E self fuel).eval expr

def evalPartialDerivative (fuel : ℕ) (expr : RealExpr R) (diffVariable : String)
    (boundVars : ValueMap R) : Run (AdvFunc R) Err R :=
  query boundVars fun self => evalDerivative E self diffVariable fuel expr

def testMembership (fuel : ℕ) (set : SetExpr R) (point : List R) (boundVars : ValueMap R) :
    Run (AdvFunc R) Err Bool :=
  query boundVars fun self => (calls E self fuel).membership set point

def project (fuel : ℕ) (set : SetExpr R) (point : List R) (boundVars : ValueMap R) :
    Run (AdvFunc R) Err (List R) :=
  query boundVars fun self => projPoint E self fuel set point

def rectangularHull (solveLp2 : LpSolver R) (fuel : ℕ) (set : SetExpr R)
    (boundVars : ValueMap R) : Run (AdvFunc R) Err (AlignedBox R) :=
  query boundVars fun self => rectHull E self solveLp2 fuel set

end Release

end Commelec
