/-
Commelec/Eval.lean

Evaluation of real expressions and set membership (`adv-interpreter-eval.cpp`,
`adv-interpreter.cpp` and the membership part of `adv-interpreter.hpp`).

Every C++ method is a function over an arbitrary monad with effects.  What a
method needs of its object is passed as `Self`; the recursive calls it makes are
passed as computations, so the method itself is not recursive.  `AdvFunc.calls`
ties the knot with a fuel argument that bounds the depth of recursive calls.

Conventions:

* the operands of a C++ operator are evaluated from left to right, the arguments of
  `std::min`, `std::max` and `std::pow` in the order the compiler has chosen;
* a failing `assert` or `eigen_assert` is `Err.assertion`, a failing check of Cap'n Proto
  throws `Err.kjException`;
* `throw;` outside a handler is `Err.terminate`;
* behaviour that C++ leaves undefined (an `int` overflow, a conversion out of
  range, a function that ends without `return`) is `Err.undefined`.
-/
import Commelec.Lib.Effects
import Commelec.Schema

namespace Commelec

open Effectful

/-- The ways in which a method of the interpreter fails to return. -/
inductive Err where
  | evaluationError (msg : String)
  | unknownReference (ref msg : String)
  | unknownVariable (ref msg : String)
  | noConvergence (msg : String)
  | whichError (which : ℕ) (msg : String)
  | runtimeError (msg : String)
  /-- `std::out_of_range` -/
  | outOfRange
  /-- `kj::Exception` -/
  | kjException
  | terminate
  | assertion
  | undefined
  deriving DecidableEq, Repr

/-- The object is an exception: the process is not ended, and its behaviour is defined. -/
def IsException (e : Err) : Prop := e ≠ .terminate ∧ e ≠ .assertion ∧ e ≠ .undefined

instance : DecidablePred IsException := fun _ => inferInstanceAs (Decidable (_ ∧ _ ∧ _))

/-- What `eval` throws when the visit counter exceeds its maximum. -/
def maxNesting : Err := .evaluationError "max nesting depth reached"

abbrev ValueMap (R : Type) : Type := String → Option R
abbrev RealExprRefMap (R : Type) : Type := String → Option (RealExpr R)
abbrev SetExprRefMap (R : Type) : Type := String → Option (SetExpr R)

/-- The values `{{"P", p}, {"Q", q}}`. -/
def bindPQ {R : Type} (p q : R) : ValueMap R := fun v =>
  if v = "P" then some p else if v = "Q" then some q else none

@[simp] theorem bindPQ_P {R : Type} (p q : R) : bindPQ p q "P" = some p := rfl

@[simp] theorem bindPQ_Q {R : Type} (p q : R) : bindPQ p q "Q" = some q := rfl

/-- What a method uses of the object it is called on. -/
structure Self (R : Type) (m : Type → Type) where
  boundVars : ValueMap R
  realExprRefs : RealExprRefMap R
  /-- the first lines of `eval`, `evalPartialDerivative` and `rectHull` -/
  visit : m Unit
  /-- the first lines of `membership` and `proj` -/
  visitSet : m Unit
  /-- `_set_expr_refs[ref]` -/
  findSet : String → m (SetExpr R)

/-- The recursive calls of the evaluation methods. -/
structure Calls (R : Type) (m : Type → Type) where
  eval : RealExpr R → m R
  membership : SetExpr R → List R → m Bool

variable {R : Type} [Double R] {m : Type → Type} [Effects Err m]

open Double

/-! ### Operations -/

/-- The function that `eval(UnaryOperation)` applies. -/
def unaryFun : UnaryOp → Option (R → R)
  | .negate => some fun x => -x
  | .exp => some exp
  | .sin => some sin
  | .cos => some cos
  | .tan => some tan
  | .square => some fun x => x * x
  | .sqrt => some sqrt
  | .log10 => some log10
  | .ln => some log
  | .multInv => some fun x => 1 / x
  | .round => some round
  | .floor => some floor
  | .ceil => some ceil
  | .abs => some abs
  | .sign => some sgn
  | .unknown _ => none

/-- `eval(UnaryOperation)`. -/
def evalUnaryOperation (op : UnaryOp) (arg : m R) : m R :=
  match unaryFun op with
  | some f => do
    let x ← arg
    pure (f x)
  | none => raise .undefined

/-- The function that `eval(BinaryOperation)` applies. -/
def binaryFun : BinaryOp → Option (R → R → R)
  | .sum => some fun x y => x + y
  | .prod => some fun x y => x * y
  | .lessEqThan => some fun x y => ofBool (le x y)
  | .greaterThan => some fun x y => ofBool (lt y x)
  | .min => some stdMin
  | .max => some stdMax
  | .pow => some pow
  | .unknown _ => none

/-- Does the compiler evaluate the second argument first?  Only calls leave that open. -/
def secondFirst (R : Type) [Double R] : BinaryOp → Bool
  | .min => (callOrder R).min
  | .max => (callOrder R).max
  | .pow => (callOrder R).pow
  | _ => false

/-- `eval(BinaryOperation)`. -/
def evalBinaryOperation (op : BinaryOp) (argA argB : m R) : m R :=
  match binaryFun op with
  | some f =>
    if secondFirst R op then do
      let y ← argB
      let x ← argA
      pure (f x y)
    else do
      let x ← argA
      let y ← argB
      pure (f x y)
  | none => raise .undefined

theorem evalBinaryOperation_eq {op : BinaryOp} {f : R → R → R} (hop : binaryFun op = some f)
    (argA argB : m R) : evalBinaryOperation op argA argB =
      if secondFirst R op then argB >>= fun y => argA >>= fun x => pure (f x y)
      else argA >>= fun x => argB >>= fun y => pure (f x y) := by
  rw [evalBinaryOperation, hop]

/-- Arguments that return are combined, in whatever order they are evaluated. -/
theorem evalBinaryOperation_ok {op : BinaryOp} {f : R → R → R} (hop : binaryFun op = some f)
    (x y : R) : (evalBinaryOperation op (.ok x) (.ok y) : Outcome Err R) = .ok (f x y) := by
  rw [evalBinaryOperation_eq hop]
  exact ite_self _

/-- A value of a binary operation comes from values of its arguments. -/
theorem evalBinaryOperation_eq_ok {op : BinaryOp} {f : R → R → R} {v : R}
    (hop : binaryFun op = some f) {a b : Outcome Err R} :
    evalBinaryOperation op a b = .ok v ↔ ∃ x y, a = .ok x ∧ b = .ok y ∧ f x y = v := by
  have hfst : evalBinaryOperation op a b = .ok v → ∃ x y, a = .ok x ∧ b = .ok y := by
    intro h
    rw [evalBinaryOperation_eq hop] at h
    split at h
    · obtain ⟨y, hy, h⟩ := Outcome.bind_eq_ok.mp h
      obtain ⟨x, hx, -⟩ := Outcome.bind_eq_ok.mp h
      exact ⟨x, y, hx, hy⟩
    · obtain ⟨x, hx, h⟩ := Outcome.bind_eq_ok.mp h
      obtain ⟨y, hy, -⟩ := Outcome.bind_eq_ok.mp h
      exact ⟨x, y, hx, hy⟩
  constructor
  · intro h
    obtain ⟨x, y, rfl, rfl⟩ := hfst h
    exact ⟨x, y, rfl, rfl, Outcome.ok.inj ((evalBinaryOperation_ok hop x y).symm.trans h)⟩
  · rintro ⟨x, y, rfl, rfl, rfl⟩
    exact evalBinaryOperation_ok hop x y

/-- `eval(ListOperation)`. -/
def evalListOperation (op : ListOp) (args : List (m R)) : m R :=
  match op with
  | .sum => do
    let xs ← collect args
    pure (xs.foldl (· + ·) 0)
  | .prod => do
    let xs ← collect args
    pure (xs.foldl (· * ·) 1)
  | .unknown _ => raise .undefined

/-! ### Polynomials -/

/-- `static_cast<int>(std::pow(d, var) + .5)`, with an exact `pow`. -/
def intPow (d var : ℕ) : m ℤ :=
  if d ^ var < 2 ^ 31 then pure ((d ^ var : ℕ) : ℤ) else raise .undefined

/-- The loop over the variables of one monomial, from variable `var` on. -/
def evalMonomial (d : ℕ) (offset dVar : ℤ) : ℕ → List R → R → m R
  | _, [], monom => pure monom
  | var, x :: evalpoint, monom => do
    let k ← intPow d var
    let rem := (offset.tdiv k).tmod d
    if dVar = var then
      if rem = 0 then
        pure 0
      else if 1 < rem then
        evalMonomial d offset dVar (var + 1) evalpoint
          (monom * (lit rem * pow x (lit (rem - 1))))
      else
        evalMonomial d offset dVar (var + 1) evalpoint monom
    else
      evalMonomial d offset dVar (var + 1) evalpoint (monom * pow x (lit rem))

/-- `_bound_vars->at(var)`. -/
def boundVarAt (boundVars : ValueMap R) (var : String) : m R :=
  match boundVars var with
  | some x => pure x
  | none => raise .outOfRange

/-- `eval(Polynomial, dVar)`; `dVar = -1` evaluates the polynomial itself. -/
def evalPolynomial (boundVars : ValueMap R) (poly : Polynomial R) (dVar : ℤ) : m R := do
  let evalpoint ← collect (poly.vars.map (boundVarAt boundVars))
  let d := poly.maxVarDegree.toNat + 1
  let terms ← collect (poly.coefficients.map fun coeff => do
    let monom ← evalMonomial d coeff.offset.toInt32.toInt dVar 0 evalpoint 1
    pure (coeff.value * monom))
  pure (terms.foldl (· + ·) 0)

/-! ### Case distinctions, references and variables -/

/-- The point at which a case distinction is decided. -/
def casePoint (boundVars : ValueMap R) (vars : List String) : m (List R) :=
  collect (vars.map fun var =>
    match boundVars var with
    | some x => pure x
    | none => raise (.evaluationError
        "Variable specified in CaseDistinction not found in VariableMap bound_vars."))

/-- The expression of the first case whose set contains the point. -/
def firstCase : List (m Bool × m R) → m R
  | [] => raise (.evaluationError "Unhandled case in CaseDistinction")
  | (set, expression) :: cases => do
    if ← set then expression else firstCase cases

/-- What the case distinctions of `eval` and `evalPartialDerivative` have in common. -/
def caseDistinction (boundVars : ValueMap R) (vars : List String)
    (cases : List ((List R → m Bool) × m R)) : m R := do
  let point ← casePoint boundVars vars
  firstCase (cases.map fun c => (c.1 point, c.2))

/-- `eval(CaseDistinction)`. -/
def evalCaseDistinction (self : Self R m) (c : Calls R m) (vars : List String)
    (cases : List (SetExpr R × RealExpr R)) : m R :=
  caseDistinction self.boundVars vars
    (cases.map fun reCase => (c.membership reCase.1, c.eval reCase.2))

/-- Continue with the expression that carries the name `ref`. -/
def derefReal (self : Self R m) (what ref : String) (k : RealExpr R → m R) : m R :=
  match self.realExprRefs ref with
  | some e => k e
  | none => raise (.unknownReference ref (what ++ " in Evaluate.cpp [ref=" ++ ref ++ "]"))

def evalRef (self : Self R m) (c : Calls R m) (ref : String) : m R :=
  derefReal self "AdvFunc::evalRef(std::string ref, ...)" ref c.eval

def evalVar (self : Self R m) (var : String) : m R :=
  match self.boundVars var with
  | some x => pure x
  | none => raise (.unknownVariable var
      ("AdvFunc::evalVar(std::string var, ...) in Evaluate.cpp [var=" ++ var ++ "]"))

/-- `eval(RealExpr)`. -/
def evalRealExpr (self : Self R m) (c : Calls R m) (expr : RealExpr R) : m R := do
  self.visit
  match expr with
  | .real _ value => pure value
  | .unaryOperation _ op arg => evalUnaryOperation op (c.eval arg)
  | .binaryOperation _ op argA argB => evalBinaryOperation op (c.eval argA) (c.eval argB)
  | .listOperation _ op args => evalListOperation op (args.map c.eval)
  | .polynomial _ poly => evalPolynomial self.boundVars poly (-1)
  | .caseDistinction _ vars cases => evalCaseDistinction self c vars cases
  | .reference _ ref => evalRef self c ref
  | .var _ var => evalVar self var
  | .unknown _ _ => raise .undefined

/-! ### Vectors and matrices of expressions -/

/-- `evalToVector`. -/
def evalToVector (list : List (m R)) : m (List R) := collect list

/-- `check_capnp_matrix`: is there an error, and how many rows and columns. -/
def checkCapnpMatrix {α : Type} (matrix : List (List α)) : Bool × ℕ × ℕ :=
  let colSizes := (matrix.map List.length).dedup
  (decide (colSizes.length ≠ 1), matrix.length, colSizes.foldl max 0)

/-- `evalToMatrix`; a malformed matrix ends in `throw;`. -/
def evalToMatrix (mx : List (List (m R))) : m (List (List R)) :=
  if (checkCapnpMatrix mx).1 then raise .terminate else collect (mx.map collect)

omit [Double R] in
theorem collect_of_evalToMatrix {mx : List (List (Outcome Err R))} {A : List (List R)}
    (h : evalToMatrix mx = .ok A) : collect (mx.map collect) = .ok A := by
  rw [evalToMatrix] at h
  split at h
  · exact absurd h (by simp)
  · exact h

omit [Double R] in
theorem ne_nil_of_evalToMatrix {mx : List (List (Outcome Err R))} {A : List (List R)}
    (h : evalToMatrix mx = .ok A) : A ≠ [] := by
  rintro rfl
  have hmx : mx = [] := by simpa using (collect_length (collect_of_evalToMatrix h)).symm
  rw [hmx] at h
  exact absurd h (by simp [evalToMatrix, checkCapnpMatrix])

/-! ### Membership -/

/-- `assert(cond)`. -/
def assert (cond : Bool) : m Unit := if cond then pure () else raise .assertion

theorem assert_eq_ok {cond : Bool} {u : Unit} (h : (assert cond : Outcome Err Unit) = .ok u) :
    cond = true := by
  cases cond with
  | true => rfl
  | false => exact absurd h (by simp [assert])

/-- `v(i)` and `v[i]`; Eigen checks the index. -/
def coefficient (v : List R) (i : ℕ) : m R :=
  match v[i]? with
  | some x => pure x
  | none => raise .assertion

omit [Double R] in
theorem coefficient_cases {v : List R} {i : ℕ} {x : R}
    (h : (coefficient v i : Outcome Err R) = .ok x) : v[i]? = some x := by
  rw [coefficient] at h
  split at h
  · next y hy =>
    obtain rfl := Outcome.ok.inj h
    exact hy
  · cases h

def membershipSingleton (singleton : List (m R)) (point : List R) : m Bool := do
  assert (point.length = singleton.length)
  let sing ← evalToVector singleton
  pure (isApprox point sing)

def membershipBall (center : List (m R)) (radius : m R) (point : List R) : m Bool := do
  assert (point.length = center.length)
  let cent ← evalToVector center
  let r ← radius
  pure (le (squaredNorm (vecSub cent point)) (r * r))

/-- The loop over the boundary pairs and the coordinates. -/
def insideBounds : List (m R × m R) → List R → m Bool
  | (boundA, boundB) :: rect, x :: point => do
    let val1 ← boundA
    let val2 ← boundB
    let minVal := stdMin val1 val2
    let maxVal := stdMax val1 val2
    if lt x minVal || lt maxVal x then pure false else insideBounds rect point
  | [], _ => pure true
  | _ :: _, [] => raise .assertion

def membershipRectangle (rect : List (m R × m R)) (point : List R) : m Bool := do
  assert (point.length = rect.length)
  insideBounds rect point

/-- `((A * point).array() <= b.array()).all()`; Eigen checks the dimensions. -/
def membershipConvexPolytope (a : List (List (m R))) (b : List (m R)) (point : List R) :
    m Bool := do
  let A ← evalToMatrix a
  let bs ← evalToVector b
  assert (A.all fun row => row.length = point.length)
  assert (A.length = bs.length)
  pure (allLe (A.map (dot · point)) bs)

/-- Logical and (greedy). -/
def membershipIntersection : List (m Bool) → m Bool
  | [] => pure true
  | childSet :: intersection => do
    if ← childSet then membershipIntersection intersection else pure false

/-- The exception for a union member that an operation is not defined for. -/
def whichError (what : String) (set : SetExpr R) : Err :=
  .whichError set.which <|
    match set.unionFieldName with
    | some fieldname =>
      what ++ " [.which()=" ++ toString set.which ++ "," ++ fieldname ++ "]"
    | none => what ++ " [.which()=" ++ toString set.which ++ "]"

/-- `membership(SetExpr)`. -/
def membershipSetExpr (self : Self R m) (c : Calls R m) (set : SetExpr R)
    (point : List R) : m Bool := do
  self.visitSet
  match set with
  | .singleton _ singleton => membershipSingleton (singleton.map c.eval) point
  | .ball _ center radius =>
    membershipBall (center.map c.eval) (c.eval radius) point
  | .rectangle _ rect =>
    membershipRectangle (rect.map fun b => (c.eval b.1, c.eval b.2)) point
  | .convexPolytope _ a b =>
    membershipConvexPolytope (a.map (List.map c.eval)) (b.map c.eval) point
  | .intersection _ sets => membershipIntersection (sets.map (c.membership · point))
  | .reference _ ref => do
    let referenced ← self.findSet ref
    c.membership referenced point
  | .caseDistinction .. | .unknown .. =>
    raise (whichError "AdvFunc::membership in msgfunction.cpp" set)

/-! ### Tying the knot -/

/-- `eval` and `membership` with recursive calls up to depth `fuel`. -/
def calls (self : Self R m) : ℕ → Calls R m
  | 0 => ⟨fun _ => stop, fun _ _ => stop⟩
  | fuel + 1 =>
    ⟨evalRealExpr self (calls self fuel), membershipSetExpr self (calls self fuel)⟩

end Commelec
