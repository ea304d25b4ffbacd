/-
Commelec/RealExprConvenience.lean

The builder of real expressions (`realexpr-convenience.hpp`): an expression is
written in C++ with overloaded functions and operators, whose results are nested
templates `Expr<...>`; `buildRealExpr` copies them into a message.

The templates are the inductive type `Cv.Expr`; its constructor `unaryOp op a` is
the template `Expr<UnaryOp<Expr<T>, Op>>`, where `Op` is one of the classes that
`UNOP(Op)` defines and `op` the operation that `Op::setOp` sets.
-/
import Commelec.PolynomialConvenience

namespace Commelec

open Effectful

namespace Cv

/-- The templates `Expr<...>`. -/
inductive Expr (R : Type) where
  | ref (refname : String)
  | var (varname : String)
  | name (refname : String) (expr : Expr R)
  | real (value : R)
  | polynomial (expr : MonomialSum R)
  | unaryOp (op : UnaryOp) (arg : Expr R)
  | binaryOp (op : BinaryOp) (argA argB : Expr R)

variable {R : Type}

/-! ### Functions and operators -/

section Functions

variable (a b : Expr R)

def exp : Expr R := .unaryOp .exp a
def sin : Expr R := .unaryOp .sin a
/-- `UNOPFUN(cos,Sin)` -/
def cos : Expr R := .unaryOp .sin a
def sqrt : Expr R := .unaryOp .sqrt a
def square : Expr R := .unaryOp .square a
def log10 : Expr R := .unaryOp .log10 a
def ln : Expr R := .unaryOp .ln a
def round : Expr R := .unaryOp .round a
def floor : Expr R := .unaryOp .floor a
def ceil : Expr R := .unaryOp .ceil a
def abs : Expr R := .unaryOp .abs a
def sign : Expr R := .unaryOp .sign a

def max : Expr R := .binaryOp .max a b
def min : Expr R := .binaryOp .min a b
def pow : Expr R := .binaryOp .pow a b

/-- `a + b` -/
def add : Expr R := .binaryOp .sum a b
/-- `a - b` -/
def sub : Expr R := .binaryOp .sum a (.unaryOp .negate b)
/-- `a * b` -/
def mul : Expr R := .binaryOp .prod a b
/-- `a / b` -/
def div : Expr R := .binaryOp .prod a (.unaryOp .multInv b)

end Functions

/-! ### Building the message -/

variable {m : Type → Type} [Effects Err m]

/-- `build(realExpr)`, for a struct that has been given the name `n` so far. -/
def Expr.build : Expr R → Option String → m (RealExpr R)
  | .ref refname, n => pure (.reference n refname)
  | .var varname, n => pure (.var n varname)
  | .name refname expr, _ => expr.build (some refname)
  | .real value, n => pure (.real n value)
  -- `getPolynomial()` of a struct that does not hold a polynomial fails its check
  | .polynomial _, _ => raise .kjException
  | .unaryOp op arg, n => do
    let a ← arg.build none
    pure (.unaryOperation n op a)
  | .binaryOp op argA argB, n => do
    let a ← argA.build none
    let b ← argB.build none
    pure (.binaryOperation n op a b)

/-- `buildRealExpr`, for a freshly initialised struct. -/
def buildRealExpr (e : Expr R) : m (RealExpr R) := e.build none

end Cv

end Commelec
