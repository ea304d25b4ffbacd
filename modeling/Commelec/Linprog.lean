/-
Commelec/Linprog.lean

The linear-programming solver (`linprog.c`, `lp_base_case.c`, `unit2.c`, `vector_up.c`).

A problem of projective dimension `d` has planes with `d + 1` coefficients; a plane is the set of
the points `x` with `plane * x >= 0`, and the objective is the quotient `n_vec * x / d_vec * x`.
The solver walks along the list of the planes.  If the optimum so far is not on the right side
of the next plane, the new one lies on that plane: the planes before it are projected onto it,
and a problem with one dimension less is solved.  The plane is then put in second place of the
list.  In dimension 1 the planes are half-planes, and their intersection is a wedge.

* The arrays `next` and `prev` are the state of the solver (`PlaneList`); its loops have a bound
  `fuel` for the number of their turns.
* An array of planes is a partial function (`Planes`): of the planes of a smaller problem only
  those are written that are before the plane projected onto, and only they may be read.
* `wedge` calls `move_to_front` with three arguments, as `lp_base_case.c` declares it; the function
  has four.  The value that it finds for the fourth is a parameter, `stray`.
* The argument `istart` is left out; all callers pass 0.
-/
import Commelec.PlaneList

namespace Commelec

open Effectful Outcome Double

namespace Lp

variable {R : Type} [Double R]

/-! ### `tol.h` and `localmath.h` -/

def EPS : R := lit 2.0e-16

def ABS (a : R) : R := if lt 0 a then a else -a

def dot2 (a b : R × R) : R := a.1 * b.1 + a.2 * b.2

def cross2 (a b : R × R) : R := a.1 * b.2 - a.2 * b.1

def notZero (a : R) : Bool := le (lit 2 * EPS) a || le a (lit (-2) * EPS)

/-- `unit2(a, b, eps)`: the vector `b`, unless `a` is too short. -/
def unit2 (a : R × R) (eps : R) : Option (R × R) :=
  let size := sqrt (a.1 * a.1 + a.2 * a.2)
  if lt size (lit 2 * eps) then none else some (a.1 / size, a.2 / size)

/-! ### `linprog.c` -/

/-- A sum of products, from the first one on. -/
def innerSum (a b : List R) : R := (List.zipWith (· * ·) a b).foldl (· + ·) 0

/-- `lp_d_unit(d, a, b)`, likewise. -/
def lpDUnit (d : ℕ) (a : List R) : Option (List R) :=
  let size := innerSum a a
  if lt size (lit (d + 1) * EPS * EPS) then none
  else
    let size := 1 / sqrt size
    some (a.map (· * size))

def vectorDown (elim_eqn : List R) (ivar : ℕ) (old_vec : List R) : List R :=
  let fac := innerSum old_vec elim_eqn / innerSum elim_eqn elim_eqn
  (List.zipWith (fun old elim => old - elim * fac) old_vec elim_eqn).eraseIdx ivar

def planeDown (elim_eqn : List R) (ivar : ℕ) (old_plane : List R) : List R :=
  let crit := old_plane.getD ivar 0 / elim_eqn.getD ivar 0
  (List.zipWith (fun old elim => old - elim * crit) old_plane elim_eqn).eraseIdx ivar

/-- The loop of `linprog` that does the same with a reciprocal. -/
def projectPlane (plane_i : List R) (imax : ℕ) (old_plane : List R) : List R :=
  let fac := 1 / plane_i.getD imax 0
  let crit := old_plane.getD imax 0 * fac
  (List.zipWith (fun old elim => old - elim * crit) old_plane plane_i).eraseIdx imax

def vectorUp (equation : List R) (ivar : ℕ) (low_vector : List R) : List R :=
  let sum := (List.zipWith (· * ·) (equation.eraseIdx ivar) low_vector).foldl (· - ·) 0
  low_vector.insertIdx ivar (sum / equation.getD ivar 0)

/-- The code for `unit` in `linprog`. -/
def unitized (opt : List R) : List R :=
  let size := 1 / sqrt (innerSum opt opt)
  opt.map (· * size)

/-- One turn of the loop of `findimax`. -/
def largerAbs (pln : List R) (best : ℕ × R) (i : ℕ) : ℕ × R :=
  let ab := ABS (pln.getD i 0)
  if lt best.2 ab then (i, ab) else best

/-- The index of the largest coefficient of a plane. -/
def findimax (pln : List R) (idim : ℕ) : ℕ :=
  ((List.range' 1 idim).foldl (largerAbs pln) (0, ABS (pln.getD 0 0))).1

/-- The status and `opt`. -/
abbrev LpResult (R : Type) : Type := LpStatus × List R

def lpNoConstraints (d : ℕ) (n_vec d_vec : List R) : LpResult R :=
  let n_dot_d := innerSum n_vec d_vec
  let d_dot_d := innerSum d_vec d_vec
  let (n_dot_d, d_dot_d) := if lt d_dot_d (EPS * EPS) then (0, 1) else (n_dot_d, d_dot_d)
  let opt := List.zipWith (fun n e => -n + e * n_dot_d / d_dot_d) n_vec d_vec
  match lpDUnit d opt with
  | none => (.ambiguous, opt.set d 1)
  | some opt => (.minimum, opt)

/-! ### The list of planes -/

def readNext (i : ℕ) : Run PlaneList Err ℕ := fun planes => (subscript planes.next i, planes)

def readPrev (i : ℕ) : Run PlaneList Err ℕ := fun planes => (subscript planes.prev i, planes)

def writeNext (i a : ℕ) : Run PlaneList Err Unit := fun planes =>
  (do let _ ← assignAt planes.next i a, { planes with next := planes.next.set i a })

def writePrev (i a : ℕ) : Run PlaneList Err Unit := fun planes =>
  (do let _ ← assignAt planes.prev i a, { planes with prev := planes.prev.set i a })

/-- `move_to_front` removes `i` from its current position; -/
def removePlane (i : ℕ) (max_halves : ℤ) : Run PlaneList Err Unit := do
  writeNext (← readPrev i) (← readNext i)
  if (← readNext i) ≠ max_halves then
    writePrev (← readNext i) (← readPrev i)

/-- then it puts `i` at the front. -/
def putSecond (i : ℕ) : Run PlaneList Err Unit := do
  writeNext i (← readNext 0)
  writePrev i 0
  writePrev (← readNext i) i
  writeNext 0 i

/-- `move_to_front(i, next, prev, max_halves)`, which returns the plane that is in `i`'s place. -/
def moveToFront (i : ℕ) (max_halves : ℤ) : Run PlaneList Err ℕ := do
  if i = 0 then pure i
  else if i = (← readNext 0) then pure i
  else do
    let previ ← readPrev i
    removePlane i max_halves
    putSecond i
    pure previ

/-- What `move_to_front` takes for `max_halves` when it is called with three arguments. -/
abbrev StrayArgument : Type := PlaneList → ℕ → ℤ

/-- `move_to_front(i, next, prev)` -/
def moveToFront3 (stray : StrayArgument) (i : ℕ) : Run PlaneList Err ℕ := fun planes =>
  moveToFront i (stray planes i) planes

/-- Place an offensive plane in second place. -/
def placeOffensive (stray : StrayArgument) (offensive : Bool) (i : ℕ) : Run PlaneList Err ℕ :=
  if offensive then moveToFront3 stray i else pure i

/-- The planes that have been written to an array. -/
abbrev Planes (R : Type) : Type := ℕ → Option (List R)

/-- `halves + i * (d + 1)` -/
def Planes.plane (halves : Planes R) (i : ℕ) : Outcome Err (List R) :=
  match halves i with
  | some plane => ok plane
  | none => .throw .undefined

/-! ### `lp_base_case.c` -/

/-- The first two coefficients of a plane: `halves` is cast to an array of pairs. -/
def firstTwo (plane : List R) : R × R := (plane.getD 0 0, plane.getD 1 0)

/-- `cw_vec`, `ccw_vec` and `degen`: the wedge from `cw` counter-clockwise to `ccw`, or, if it
is degenerate, the two vectors alone. -/
structure Wedge (R : Type) where
  cw : R × R
  ccw : R × R
  degen : Bool

/-- The half-plane of `half`, unless that is too short. -/
def Wedge.start (half : R × R) : Option (Wedge R) := do
  let ccw ← unit2 half EPS
  -- clock-wise
  let cw := (ccw.2, -ccw.1)
  -- counter-clockwise
  pure ⟨cw, (-cw.1, -cw.2), false⟩

/-- One turn of the second loop of `wedge`: nothing is left, or the wedge that is left, and
whether the half-plane is to be put in second place. -/
def Wedge.cut (w : Wedge R) (half : R × R) : Option (Bool × Wedge R) :=
  let d_cw := dot2 w.cw half
  let d_ccw := dot2 w.ccw half
  if le (lit 2 * EPS) d_ccw then
    if le d_cw (lit (-2) * EPS) then
      let cw := (half.2, -half.1)
      some (true, { w with cw := (unit2 cw EPS).getD cw })
    else some (false, w)
  else if le (lit 2 * EPS) d_cw then
    if le d_ccw (lit (-2) * EPS) then
      let ccw := (-half.2, half.1)
      some (true, { w with ccw := (unit2 ccw EPS).getD ccw })
    else some (false, w)
  else if le d_ccw (lit (-2) * EPS) && le d_cw (lit (-2) * EPS) then none
  else if le d_cw (lit (-2) * EPS) || le d_ccw (lit (-2) * EPS) || lt (cross2 w.cw half) 0 then
    -- degenerate
    if le d_cw (lit (-2) * EPS) then some (true, ⟨(unit2 w.ccw EPS).getD w.cw, w.ccw, true⟩)
    else if le d_ccw (lit (-2) * EPS) then
      some (true, ⟨w.cw, (unit2 w.cw EPS).getD w.ccw, true⟩)
    else some (true, ⟨w.cw, w.ccw, true⟩)
  else some (false, w)

/-- One turn of the third loop. -/
def Wedge.cutDegenerate (w : Wedge R) (half : R × R) : Option (Wedge R) :=
  let d_cw := dot2 w.cw half
  let d_ccw := dot2 w.ccw half
  if lt d_cw (lit (-2) * EPS) then
    if lt d_ccw (lit (-2) * EPS) then none else some { w with cw := w.ccw }
  else if lt d_ccw (lit (-2) * EPS) then some { w with ccw := w.cw }
  else some w

def lpMinLinRat (w : Wedge R) (n_vec d_vec : R × R) : R × R :=
  let d_cw := dot2 w.cw d_vec
  let d_ccw := dot2 w.ccw d_vec
  let n_cw := dot2 w.cw n_vec
  let n_ccw := dot2 w.ccw n_vec
  if w.degen then
    if lt (n_cw / d_cw) (n_ccw / d_ccw) then w.cw else w.ccw
  else if notZero d_cw && notZero d_ccw then
    -- the bounds are not near a pole
    if lt 0 (d_cw * d_ccw) then
      if lt (n_cw / d_cw) (n_ccw / d_ccw) then w.cw else w.ccw
    else if lt 0 d_cw then (-d_vec.2, d_vec.1)
    else (d_vec.2, -d_vec.1)
  else if notZero d_cw then
    -- the counter clockwise bound is near a pole
    if lt 0 (n_ccw * d_cw) then w.cw else w.ccw
  else if notZero d_ccw then
    -- the clockwise bound is near a pole
    if lt (lit 2 * EPS) (n_cw * d_ccw) then w.ccw else w.cw
  else
    -- both bounds are near poles
    if lt 0 (cross2 d_vec n_vec) then w.cw else w.ccw

/-- The optimum on a wedge. -/
def Wedge.optimum (w : Wedge R) (n_vec d_vec : R × R) : LpStatus × (R × R) :=
  if lt (ABS (cross2 n_vec d_vec)) (lit 2 * EPS * EPS) then
    if lt (dot2 n_vec n_vec) (lit 2 * EPS * EPS) || lt (lit 2 * EPS * EPS) (dot2 d_vec d_vec) then
      -- numerator is zero or numerator and denominator are linearly dependent
      (.ambiguous, w.cw)
    else if !w.degen && le (cross2 w.cw n_vec) 0 && le (cross2 n_vec w.ccw) 0 then
      -- optimum is in interior of feasible region
      (.minimum, (-n_vec.1, -n_vec.2))
    else if lt (dot2 n_vec w.ccw) (dot2 n_vec w.cw) then (.minimum, w.ccw)
    else (.minimum, w.cw)
  else (.minimum, lpMinLinRat w n_vec d_vec)

/-- What `wedge` finds: a wedge with status `MINIMUM`, or another status. -/
abbrev WedgeResult (R : Type) : Type := Except LpStatus (Wedge R)

/-- `lp_base_case` after the call of `wedge`. -/
def baseOptimum (found : WedgeResult R) (n_vec d_vec : List R) : LpResult R :=
  match found with
  | .ok w =>
    let (status, opt) := w.optimum (firstTwo n_vec) (firstTwo d_vec)
    (status, [opt.1, opt.2])
  | .error .unbounded => lpNoConstraints 1 n_vec d_vec
  | .error status => (status, [])

section Loops

variable (stray : StrayArgument) (fuel : ℕ) (halves : Planes R) (m : ℕ)

/-- The first loop of `wedge`. -/
def wedgeStart : ℕ → ℕ → Run PlaneList Err (Option (Wedge R))
  | 0, _ => stop
  | fuel + 1, i =>
    if i = m then pure none
    else do
      let plane ← (halves.plane i).lift
      match Wedge.start (firstTwo plane) with
      | some w => pure (some w)
      | none => wedgeStart fuel (← readNext i)

/-- The second loop. -/
def wedgeCut : ℕ → ℕ → Wedge R → Run PlaneList Err (Option (ℕ × Wedge R))
  | 0, _, _ => stop
  | fuel + 1, i, w =>
    if i = m then pure (some (i, w))
    else do
      let plane ← (halves.plane i).lift
      match w.cut (firstTwo plane) with
      | none => pure none
      | some (offensive, w) =>
        let i ← placeOffensive stray offensive i
        let i ← readNext i
        if w.degen then pure (some (i, w)) else wedgeCut fuel i w

/-- The third loop. -/
def wedgeDegenerate : ℕ → ℕ → Wedge R → Run PlaneList Err (Option (Wedge R))
  | 0, _, _ => stop
  | fuel + 1, i, w =>
    if i = m then pure (some w)
    else do
      let plane ← (halves.plane i).lift
      match w.cutDegenerate (firstTwo plane) with
      | none => pure none
      | some w => wedgeDegenerate fuel (← readNext i) w

/-- What follows the second loop. -/
def wedgeEnd : Option (ℕ × Wedge R) → Run PlaneList Err (WedgeResult R)
  | none => pure (.error .infeasible)
  | some (i, w) =>
    if w.degen then do
      match ← wedgeDegenerate halves m fuel i w with
      | none => pure (.error .infeasible)
      | some w => pure (.ok w)
    else pure (.ok w)

def wedge : Run PlaneList Err (WedgeResult R) := do
  match ← wedgeStart halves m fuel 0 with
  | none => pure (.error .unbounded)
  | some w => wedgeEnd fuel halves m (← wedgeCut stray halves m fuel 0 w)

def lpBaseCase (n_vec d_vec : List R) : Run PlaneList Err (LpResult R) := do
  pure (baseOptimum (← wedge stray fuel halves m) n_vec d_vec)

end Loops

/-! ### The solver -/

/-- The projections of the objective: `new_n_vec` and `new_d_vec`. -/
def projectObjective (d : ℕ) (plane_i : List R) (imax : ℕ) (n_vec d_vec : List R) :
    List R × List R :=
  if lt (innerSum d_vec d_vec) (lit (d + 1) * EPS * EPS) then
    (vectorDown plane_i imax n_vec, List.replicate d 0)
  else (planeDown plane_i imax n_vec, planeDown plane_i imax d_vec)

/-- The loop over the planes from `j` up to `m`, which are projected onto `plane_i`. -/
def projectPlanes (halves : Planes R) (plane_i : List R) (imax m : ℕ) :
    ℕ → ℕ → Planes R → Run PlaneList Err (Planes R)
  | 0, _, _ => stop
  | fuel + 1, j, new_halves =>
    if j = m then pure new_halves
    else do
      let old_plane ← (halves.plane j).lift
      let new_plane := projectPlane plane_i imax old_plane
      projectPlanes halves plane_i imax m fuel (← readNext j)
        (Function.update new_halves j (some new_plane))

/-- The optimum is not on the correct side of the plane. -/
def offends (d : ℕ) (opt plane_i : List R) : Bool :=
  lt (innerSum opt plane_i) (lit (-(d + 1)) * EPS)

/-- The solver for a problem with one dimension less. -/
abbrev SubSolver (R : Type) : Type :=
  Planes R → ℕ → List R → List R → Run PlaneList Err (LpResult R)

section Solver

variable (fuel max_size d : ℕ) (sub : SubSolver R)

/-- The loop of `linprog` from plane `i` up to `m`. -/
def linprogLoop (halves : Planes R) (m : ℕ) (n_vec d_vec : List R) :
    ℕ → ℕ → LpResult R → Run PlaneList Err (LpResult R)
  | 0, _, _ => stop
  | turns + 1, i, (status, opt) =>
    if i = m then pure (status, opt)
    else do
      let plane_i ← (halves.plane i).lift
      if offends d opt plane_i then
        let imax := findimax plane_i d
        let new_halves ← projectPlanes halves plane_i imax i fuel 0 fun _ => none
        let objective := projectObjective d plane_i imax n_vec d_vec
        let (status, new_opt) ← sub new_halves i objective.1 objective.2
        if status = .infeasible then pure (status, opt)
        else
          -- back substitution
          let opt := unitized (vectorUp plane_i imax new_opt)
          let i ← moveToFront i max_size
          linprogLoop halves m n_vec d_vec turns (← readNext i) (status, opt)
      else
        linprogLoop halves m n_vec d_vec turns (← readNext i) (status, opt)

end Solver

/-- `dlinprog(halves, 0, m, n_vec, d_vec, d, opt, work, next, prev, max_size)` -/
def dlinprog (stray : StrayArgument) (fuel max_size : ℕ) : ℕ → SubSolver R
  | 0, _, _, _, _ => raise .undefined
  | 1, halves, m, n_vec, d_vec =>
    if m ≠ 0 then lpBaseCase stray fuel halves m n_vec d_vec
    else pure (lpNoConstraints 1 n_vec d_vec)
  | d + 2, halves, m, n_vec, d_vec =>
    let found := lpNoConstraints (d + 2) n_vec d_vec
    if m = 0 then pure found
    else linprogLoop fuel max_size (d + 2) (dlinprog stray fuel max_size (d + 1)) halves m n_vec
      d_vec fuel 0 found

/-- The planes of an array: plane `i` is at `halves + i * (d + 1)`. -/
def planesOf (halves : List R) (d : ℕ) : Planes R := fun i =>
  if (i + 1) * (d + 1) ≤ halves.length then some ((halves.drop (i * (d + 1))).take (d + 1))
  else none

/-- The call of `linprog` in `solve_lp2`.  The solver returns (`dlinprog_refines`), so it does not
matter what is said of a run without a result. -/
def linprog (stray : StrayArgument) (fuel : ℕ) : Linprog R :=
  fun halves m n_vec d_vec planes =>
    match dlinprog stray fuel m 2 (planesOf halves 2) m n_vec d_vec planes with
    | (ok (status, opt), _) => (status, opt.getD 0 0, opt.getD 1 0, opt.getD 2 0)
    | _ => (.unknown, 0, 0, 0)

end Lp

end Commelec
