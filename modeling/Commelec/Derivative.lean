/-
Commelec/Derivative.lean

`AdvFunc::evalPartialDerivative`: the partial derivative of a real expression at
the bound values of its variables, one hand-written rule per operation.
-/
import Commelec.Eval

namespace Commelec

open Effectful Double

variable {R : Type} [Double R] {m : Type → Type} [Effects Err m]

/-- `g(eval(arg)) * evalPartialDerivative(arg)`. -/
def outerTimesInner (arg darg : m R) (g : R → R) : m R := do
  let x ← arg
  let dx ← darg
  pure (g x * dx)

/-- `evalPartialDerivative(UnaryOperation)`, given `eval` and
`evalPartialDerivative` of the argument. -/
def derivUnaryOperation (op : UnaryOp) (arg darg : m R) : m R :=
  match op with
  | .negate => do
    let dx ← darg
    pure (-dx)
  | .exp => outerTimesInner arg darg exp
  | .sin => outerTimesInner arg darg cos
  | .cos => outerTimesInner arg darg fun x => -sin x
  | .tan => outerTimesInner arg darg fun x => 1 / (cos x * cos x)
  | .square => do
    let dx ← darg
    pure (lit 2 * dx)
  | .sqrt => outerTimesInner arg darg fun x => 1 / (lit 2 * sqrt x)
  | .log10 => outerTimesInner arg darg fun x => log10e / x
  | .ln => outerTimesInner arg darg fun x => 1 / x
  | .multInv => outerTimesInner arg darg fun x => -1 / (x * x)
  -- the rounding is ignored
  | .round | .floor | .ceil => darg
  | .abs => outerTimesInner arg darg sgn
  | .sign => pure 0
  | .unknown _ => raise .undefined

/-- `evalPartialDerivative(BinaryOperation)`. -/
def derivBinaryOperation (op : BinaryOp) (argA argB dargA dargB : m R) : m R :=
  match op with
  | .sum => do
    let dx ← dargA
    let dy ← dargB
    pure (dx + dy)
  | .prod => do
    let x ← argA
    let dy ← dargB
    let y ← argB
    let dx ← dargA
    pure (x * dy + y * dx)
  | .lessEqThan | .greaterThan => pure 0
  | .min => do
    let x ← argA
    let y ← argB
    if le x y then dargA else dargB
  | .max => do
    let x ← argA
    let y ← argB
    if lt y x then dargA else dargB
  | .pow => do
    let base ← argA
    let expon ← argB
    let dbase ← dargA
    let dexpon ← dargB
    pure (pow base (expon - 1) * (expon * dbase + base * log base * dexpon))
  | .unknown _ => raise .undefined

/-- The derivative of the `i`-th factor times all other factors. -/
def multOthers (evaluations : List R) (i : ℕ) (mult : R) : R :=
  evaluations.zipIdx.foldl (fun mult v => if v.2 ≠ i then mult * v.1 else mult) mult

/-- `evalPartialDerivative(ListOperation)`. -/
def derivListOperation (op : ListOp) (args dargs : List (m R)) : m R :=
  match op with
  | .sum => do
    let ds ← collect dargs
    pure (ds.foldl (· + ·) 0)
  | .prod => do
    let evaluations ← evalToVector args
    let ds ← collect dargs
    pure (ds.zipIdx.foldl (fun accum d => accum + multOthers evaluations d.2 d.1) 0)
  | .unknown _ => raise .undefined

/-- `evalPartialDerivative(CaseDistinction)`. -/
def derivCaseDistinction (self : Self R m) (c : Calls R m) (pd : RealExpr R → m R)
    (vars : List String) (cases : List (SetExpr R × RealExpr R)) : m R :=
  caseDistinction self.boundVars vars
    (cases.map fun reCase => (c.membership reCase.1, pd reCase.2))

/-- `evalPartialDerivative(Polynomial)`. -/
def derivPolynomial (boundVars : ValueMap R) (poly : Polynomial R)
    (diffVariable : String) : m R :=
  let i := poly.vars.idxOf diffVariable
  if i < poly.vars.length then evalPolynomial boundVars poly i else pure 0

def derivRef (self : Self R m) (pd : RealExpr R → m R) (ref : String) : m R :=
  derefReal self "AdvFunc::evalPartialDerivative(std::string ref, ...)" ref pd

def derivVar (self : Self R m) (diffVariable var : String) : m R :=
  match self.boundVars var with
  | some _ => if var = diffVariable then pure 1 else pure 0
  | none => raise (.unknownVariable var
      ("AdvFunc::evalPartialDerivativeVar(const kj::StringPtr var, ...) in " ++
        "Evaluate.cpp [ref=" ++ var ++ "]"))

/-- `evalPartialDerivative(RealExpr)`. -/
def derivRealExpr (self : Self R m) (c : Calls R m) (pd : RealExpr R → m R)
    (diffVariable : String) (expr : RealExpr R) : m R := do
  self.visit
  match expr with
  | .real _ _ => pure 0
  | .unaryOperation _ op arg => derivUnaryOperation op (c.eval arg) (pd arg)
  | .binaryOperation _ op argA argB =>
    derivBinaryOperation op (c.eval argA) (c.eval argB) (pd argA) (pd argB)
  | .listOperation _ op args => derivListOperation op (args.map c.eval) (args.map pd)
  | .caseDistinction _ vars cases => derivCaseDistinction self c pd vars cases
  | .polynomial _ poly => derivPolynomial self.boundVars poly diffVariable
  | .reference _ ref => derivRef self pd ref
  | .var _ var => derivVar self diffVariable var
  | .unknown _ _ => raise .terminate

/-- `evalPartialDerivative` with recursive calls up to depth `fuel`. -/
def evalPartialDerivative (self : Self R m) (diffVariable : String) :
    ℕ → RealExpr R → m R
  | 0, _ => stop
  | fuel + 1, expr =>
    derivRealExpr self (calls self fuel) (evalPartialDerivative self diffVariable fuel)
      diffVariable expr

end Commelec
