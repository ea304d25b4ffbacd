/-
Commelec/AdvFunc.lean

The interpreter object `AdvFunc`: its fields, the constructor and `setAdv` with
the collection of names, and the five queries users call.

A query resets the visit counter and runs one method.  While it runs, only three
things change: the counter `_nesting_depth`, the map `_set_expr_refs` (a lookup
with `operator[]` inserts a default-constructed set under an unknown name) and
the text written to `std::cout`.  They form `AdvState`, the state of a `Method`.
-/
import Mathlib.Logic.Function.Basic
import Mathlib.Order.MinMax
import Commelec.Derivative
import Commelec.Projection
import Commelec.RectHull

namespace Commelec

open Effectful

def MAX_NESTING_DEPTH : ℕ := 10000

/-- The fields of the object that its queries change. -/
structure AdvState (R : Type) where
  nestingDepth : ℕ
  setExprRefs : SetExprRefMap R
  /-- lines " max nesting depth reached" written to `std::cout` -/
  printed : ℕ

structure AdvFunc (R : Type) extends AdvState R where
  adv : Advertisement R
  advValid : Bool
  boundVars : ValueMap R
  realExprRefs : RealExprRefMap R

variable {R : Type}

/-- A method running on the object. -/
abbrev Method (R : Type) : Type → Type := Run (AdvState R) Err

/-! ### Effects of a visit -/

/-- Count a visit of `eval`, `evalPartialDerivative` or `rectHull`, and throw when
there are too many. -/
def visit : Method R Unit := fun s =>
  let s := { s with nestingDepth := s.nestingDepth + 1 }
  if s.nestingDepth > MAX_NESTING_DEPTH then (.throw maxNesting, s) else (.ok (), s)

/-- Count a visit of `membership` or `proj`; when there are too many, print a line
and start counting again. -/
def visitSet : Method R Unit := fun s =>
  let s := { s with nestingDepth := s.nestingDepth + 1 }
  if s.nestingDepth > MAX_NESTING_DEPTH then
    (.ok (), { s with nestingDepth := 0, printed := s.printed + 1 })
  else
    (.ok (), s)

/-- `_set_expr_refs[ref]`. -/
def findSet (ref : String) : Method R (SetExpr R) := fun s =>
  match s.setExprRefs ref with
  | some set => (.ok set, s)
  | none =>
    (.ok .default,
      { s with setExprRefs := Function.update s.setExprRefs ref (some .default) })

/-- The object as its methods see it. -/
def methods (boundVars : ValueMap R) (realExprRefs : RealExprRefMap R) :
    Self R (Method R) where
  boundVars := boundVars
  realExprRefs := realExprRefs
  visit := visit
  visitSet := visitSet
  findSet := findSet

namespace AdvFunc

/-! ### Collecting names -/

/-- `AdvFunc()`.  The fields without initialiser are set before they are read. -/
def blank : AdvFunc R where
  nestingDepth := 0
  setExprRefs _ := none
  printed := 0
  adv := ⟨none, none, none, []⟩
  advValid := false
  boundVars _ := none
  realExprRefs _ := none

/-- The first lines of `findReferences(RealExpr)` and `findReferences(SetExpr)`. -/
def enter : Run (AdvFunc R) Err Unit := fun af =>
  let af := { af with nestingDepth := af.nestingDepth + 1 }
  if af.nestingDepth > MAX_NESTING_DEPTH then (.throw maxNesting, af) else (.ok (), af)

/-- `if (expr.hasName()) _real_expr_refs[expr.getName()] = expr;` -/
def storeReal (expr : RealExpr R) : Run (AdvFunc R) Err Unit := fun af =>
  match expr.name with
  | some n =>
    (.ok (), { af with realExprRefs := Function.update af.realExprRefs n (some expr) })
  | none => (.ok (), af)

/-- `if (set.hasName()) _set_expr_refs[set.getName()] = set;` -/
def storeSet (set : SetExpr R) : Run (AdvFunc R) Err Unit := fun af =>
  match set.name with
  | some n =>
    (.ok (), { af with setExprRefs := Function.update af.setExprRefs n (some set) })
  | none => (.ok (), af)

mutual

/-- `findReferences(RealExpr)`. -/
def findReferencesReal (expr : RealExpr R) : Run (AdvFunc R) Err Unit := do
  enter
  storeReal expr
  match expr with
  | .unaryOperation _ _ arg => findReferencesReal arg
  | .binaryOperation _ _ argA argB => do
    findReferencesReal argA
    findReferencesReal argB
  | .listOperation _ _ args => findReferencesReals args
  | .caseDistinction _ _ cases => findReferencesRealCases cases
  | _ => pure ()

/-- `findReferences(SetExpr)`. -/
def findReferencesSet (set : SetExpr R) : Run (AdvFunc R) Err Unit := do
  enter
  storeSet set
  match set with
  | .singleton _ singleton => findReferencesReals singleton
  | .ball _ center radius => do
    findReferencesReals center
    findReferencesReal radius
  | .rectangle _ rect => findReferencesBounds rect
  | .convexPolytope _ a b => do
    findReferencesMatrix a
    findReferencesReals b
  | .intersection _ sets => findReferencesSets sets
  | .caseDistinction _ _ cases => findReferencesSetCases cases
  | _ => pure ()

def findReferencesReals : List (RealExpr R) → Run (AdvFunc R) Err Unit
  | [] => pure ()
  | expr :: exprs => do
    findReferencesReal expr
    findReferencesReals exprs

def findReferencesMatrix : List (List (RealExpr R)) → Run (AdvFunc R) Err Unit
  | [] => pure ()
  | list :: a => do
    findReferencesReals list
    findReferencesMatrix a

def findReferencesBounds : List (RealExpr R × RealExpr R) → Run (AdvFunc R) Err Unit
  | [] => pure ()
  | (boundA, boundB) :: rect => do
    findReferencesReal boundA
    findReferencesReal boundB
    findReferencesBounds rect

def findReferencesSets : List (SetExpr R) → Run (AdvFunc R) Err Unit
  | [] => pure ()
  | set :: sets => do
    findReferencesSet set
    findReferencesSets sets

def findReferencesRealCases : List (SetExpr R × RealExpr R) → Run (AdvFunc R) Err Unit
  | [] => pure ()
  | (set, expression) :: cases => do
    findReferencesSet set
    findReferencesReal expression
    findReferencesRealCases cases

def findReferencesSetCases : List (SetExpr R × SetExpr R) → Run (AdvFunc R) Err Unit
  | [] => pure ()
  | (set, expression) :: cases => do
    findReferencesSet set
    findReferencesSet expression
    findReferencesSetCases cases

end

/-- `_nesting_depth = 0;` -/
def resetDepth : Run (AdvFunc R) Err Unit := fun af =>
  (.ok (), { af with nestingDepth := 0 })

/-- One of the three parts of the advertisement, if it is there. -/
def findReferencesPart {α : Type} (part : Option α)
    (find : α → Run (AdvFunc R) Err Unit) : Run (AdvFunc R) Err Unit :=
  match part with
  | some x => do
    find x
    resetDepth
  | none => pure ()

/-- `findReferences()`. -/
def findReferences (adv : Advertisement R) : Run (AdvFunc R) Err Unit := do
  resetDepth
  findReferencesPart adv.pQProfile findReferencesSet
  findReferencesPart adv.beliefFunction findReferencesSet
  findReferencesPart adv.costFunction findReferencesReal

def setAdv (adv : Advertisement R) : Run (AdvFunc R) Err Unit := fun af =>
  findReferences adv { af with adv := adv, advValid := true }

/-- `AdvFunc(adv)`: the outcome of the construction and, if it is `ok ()`, the object. -/
def new (adv : Advertisement R) : Outcome Err Unit × AdvFunc R := setAdv adv blank

/-! ### Queries -/

variable [Double R]

/-- What the user functions have in common: bind the variables, reset the counter
and run a method. -/
def query {α : Type} (boundVars : ValueMap R)
    (method : Self R (Method R) → Method R α) : Run (AdvFunc R) Err α := fun af =>
  if af.advValid then
    let r := method (methods boundVars af.realExprRefs) { af.toAdvState with nestingDepth := 0 }
    (r.1, { af with toAdvState := r.2, boundVars := boundVars })
  else
    (.throw .assertion, af)

def evaluate (fuel : ℕ) (expr : RealExpr R) (boundVars : ValueMap R) :
    Run (AdvFunc R) Err R :=
  query boundVars fun self => (calls self fuel).eval expr

def evalPartialDerivative (fuel : ℕ) (expr : RealExpr R) (diffVariable : String)
    (boundVars : ValueMap R) : Run (AdvFunc R) Err R :=
  query boundVars fun self => Commelec.evalPartialDerivative self diffVariable fuel expr

def testMembership (fuel : ℕ) (set : SetExpr R) (point : List R)
    (boundVars : ValueMap R) : Run (AdvFunc R) Err Bool :=
  query boundVars fun self => (calls self fuel).membership set point

def project (fuel : ℕ) (set : SetExpr R) (point : List R) (boundVars : ValueMap R) :
    Run (AdvFunc R) Err (List R) :=
  query boundVars fun self => projPoint self fuel set point

def rectangularHull (solveLp2 : LpSolver R) (fuel : ℕ) (set : SetExpr R)
    (boundVars : ValueMap R) : Run (AdvFunc R) Err (AlignedBox R) :=
  query boundVars fun self => rectHull self solveLp2 fuel set

omit [Double R] in
/-- With enough fuel, the query ends with the outcome `o`. -/
def Ends {α : Type} (q : ℕ → Run (AdvFunc R) Err α) (af : AdvFunc R) (o : Outcome Err α) :
    Prop :=
  ∃ n₀, ∀ n, n₀ ≤ n → (q n af).1 = o

omit [Double R] in
theorem Ends.unique {α : Type} {q : ℕ → Run (AdvFunc R) Err α} {af : AdvFunc R}
    {o o' : Outcome Err α} (h : Ends q af o) (h' : Ends q af o') : o = o' := by
  obtain ⟨n, hn⟩ := h
  obtain ⟨k, hk⟩ := h'
  rw [← hn (max n k) (le_max_left n k), hk (max n k) (le_max_right n k)]

end AdvFunc

end Commelec
