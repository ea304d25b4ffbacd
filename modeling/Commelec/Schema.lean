/-
Commelec/Schema.lean

The message format of `schema.capnp`.  A Cap'n Proto struct with a union is an
inductive type with one constructor per union member; the fields outside the
union (here only `name`) are the first argument of every constructor.

A received message may carry a union tag that the schema does not know.  Such a
message is `unknown which`, and the interpreter meets it like any other.  A
pointer field that was never set reads as its default value, which for an
expression is `real 0` without a name and for a set `singleton []`.

Text fields are `Option String` where the sources ask `hasName()`.
-/
import Commelec.Double

namespace Commelec

/-- The union `UnaryOperation.operation`. -/
inductive UnaryOp where
  | negate | abs | sign | multInv | square | sqrt | sin | cos | tan | exp | ln | log10
  | round | floor | ceil
  | unknown (which : UInt16)
  deriving DecidableEq, Repr

/-- The union `BinaryOperation.operation`. -/
inductive BinaryOp where
  | sum | prod | pow | min | max | lessEqThan | greaterThan
  | unknown (which : UInt16)
  deriving DecidableEq, Repr

/-- The union `ListOperation.operation`. -/
inductive ListOp where
  | sum | prod
  | unknown (which : UInt16)
  deriving DecidableEq, Repr

/-- One non-zero coefficient of a polynomial; `offset` encodes its powers. -/
structure SparseCoeff (R : Type) where
  offset : UInt32
  value : R

structure Polynomial (R : Type) where
  vars : List String
  maxVarDegree : UInt8
  coefficients : List (SparseCoeff R)

mutual

/-- Real-valued expressions. -/
inductive RealExpr (R : Type) : Type where
  | real (name : Option String) (value : R)
  | polynomial (name : Option String) (poly : Polynomial R)
  | unaryOperation (name : Option String) (op : UnaryOp) (arg : RealExpr R)
  | binaryOperation (name : Option String) (op : BinaryOp) (argA argB : RealExpr R)
  | listOperation (name : Option String) (op : ListOp) (args : List (RealExpr R))
  | caseDistinction (name : Option String) (vars : List String)
      (cases : List (SetExpr R × RealExpr R))
  | reference (name : Option String) (ref : String)
  | var (name : Option String) (var : String)
  | unknown (name : Option String) (which : UInt16)

/-- Closed convex sets. -/
inductive SetExpr (R : Type) : Type where
  | singleton (name : Option String) (point : List (RealExpr R))
  | ball (name : Option String) (center : List (RealExpr R)) (radius : RealExpr R)
  | rectangle (name : Option String) (bounds : List (RealExpr R × RealExpr R))
  | convexPolytope (name : Option String) (a : List (List (RealExpr R)))
      (b : List (RealExpr R))
  | intersection (name : Option String) (sets : List (SetExpr R))
  | caseDistinction (name : Option String) (vars : List String)
      (cases : List (SetExpr R × SetExpr R))
  | reference (name : Option String) (ref : String)
  | unknown (name : Option String) (which : UInt16)

end

variable {R : Type}

/-- `getName()`, if `hasName()`. -/
def RealExpr.name : RealExpr R → Option String
  | .real n _ | .polynomial n _ | .unaryOperation n _ _ | .binaryOperation n _ _ _
  | .listOperation n _ _ | .caseDistinction n _ _ | .reference n _ | .var n _
  | .unknown n _ => n

/-- `getName()`, if `hasName()`. -/
def SetExpr.name : SetExpr R → Option String
  | .singleton n _ | .ball n _ _ | .rectangle n _ | .convexPolytope n _ _
  | .intersection n _ | .caseDistinction n _ _ | .reference n _ | .unknown n _ => n

/-- `setName(n)`. -/
def RealExpr.setName (n : Option String) : RealExpr R → RealExpr R
  | .real _ v => .real n v
  | .polynomial _ p => .polynomial n p
  | .unaryOperation _ op a => .unaryOperation n op a
  | .binaryOperation _ op a b => .binaryOperation n op a b
  | .listOperation _ op as => .listOperation n op as
  | .caseDistinction _ vars cs => .caseDistinction n vars cs
  | .reference _ r => .reference n r
  | .var _ v => .var n v
  | .unknown _ w => .unknown n w

/-- `setName(n)`. -/
def SetExpr.setName (n : Option String) : SetExpr R → SetExpr R
  | .singleton _ p => .singleton n p
  | .ball _ c r => .ball n c r
  | .rectangle _ bs => .rectangle n bs
  | .convexPolytope _ a b => .convexPolytope n a b
  | .intersection _ ss => .intersection n ss
  | .caseDistinction _ vars cs => .caseDistinction n vars cs
  | .reference _ r => .reference n r
  | .unknown _ w => .unknown n w

/-- The union tag of a set, as Cap'n Proto numbers the members. -/
def SetExpr.which : SetExpr R → ℕ
  | .singleton .. => 0
  | .ball .. => 1
  | .rectangle .. => 2
  | .convexPolytope .. => 3
  | .intersection .. => 4
  | .caseDistinction .. => 5
  | .reference .. => 6
  | .unknown _ w => w.toNat

/-- `getUnionFieldName(set)`: the schema's name of the active member, if it has one. -/
def SetExpr.unionFieldName : SetExpr R → Option String
  | .singleton .. => some "singleton"
  | .ball .. => some "ball"
  | .rectangle .. => some "rectangle"
  | .convexPolytope .. => some "convexPolytope"
  | .intersection .. => some "intersection"
  | .caseDistinction .. => some "caseDistinction"
  | .reference .. => some "reference"
  | .unknown .. => none

/-- A default-constructed `SetExpr::Reader`. -/
def SetExpr.default : SetExpr R := .singleton none []

/-- A fresh `RealExpr`. -/
def RealExpr.default [Zero R] : RealExpr R := .real none 0

structure Advertisement (R : Type) where
  pQProfile : Option (SetExpr R)
  beliefFunction : Option (SetExpr R)
  costFunction : Option (RealExpr R)
  implementedSetpoint : List R

structure Request (R : Type) where
  setpoint : Option (List R)

/-- The union of a `Message`; a pointer member that was never set is `none`. -/
inductive MessageBody (R : Type) where
  | request (req : Option (Request R))
  | advertisement (adv : Option (Advertisement R))
  | unknown (which : UInt16)

structure Message (R : Type) where
  agentId : UInt32
  body : MessageBody R

end Commelec
