/-
Commelec/Hlapi.lean

The advertisements of the high-level API (`hlapi.cpp`, `hlapi-internal.hpp` and
`polytope-convenience.cpp`).

A builder writes its parameters to a fresh `Advertisement`; it fails only if a function that
it calls does.  The value `inf` is `std::numeric_limits<double>::infinity()`.
-/
import Commelec.RealExprConvenience
import Commelec.RectHull

namespace Commelec

open Effectful Double

variable {R : Type} [Double R] {m : Type → Type} [Effects Err m]

/-! ### Polytopes and balls -/

/-- `initFromEigen`, for a matrix; the encoding is row-major. -/
def initFromEigenMatrix (M : Matrix R) : List (List (RealExpr R)) :=
  M.rows.map (List.map (.real none))

/-- `initFromEigen`, for a vector. -/
def initFromEigenVector (v : List R) : List (RealExpr R) := v.map (.real none)

/-- `cv::buildConvexPolytope`. -/
def buildConvexPolytope (A : Matrix R) (b : List R) : m (SetExpr R) := do
  assert (A.rows.length = b.length)
  pure (.convexPolytope none (initFromEigenMatrix A) (initFromEigenVector b))

/-- The disk around the origin, with radius `Srated`. -/
def disk (Srated : R) : SetExpr R := .ball none [.real none 0, .real none 0] (.real none Srated)

/-! ### Cost functions -/

/-- The cost function of batteries and discrete devices, `squared * P^2 + linear * P`,
normalised by its Lipschitz constant; zero if that is close to zero. -/
def normalizedCost (linear squared : R) : m (RealExpr R) :=
  if lt (lit (1 / 10 ^ 6)) (abs squared) then do
    let Pvar : PolyVar := ⟨"P"⟩
    let poly ← buildPolynomial
      (((Pvar.pow 2).scale (lit (1 / 2))).add
        (Pvar.monomial.scale (linear / (lit 2 * squared))))
    pure (.polynomial none poly)
  else
    pure (.real none 0)

/-! ### Batteries and photovoltaic panels -/

/-- `_BatteryAdvertisement`. -/
def batteryAdvertisement (Pmin Pmax Srated coeffP coeffPsquared Pimp Qimp : R) :
    m (Advertisement R) := do
  -- intersection of disk and band
  let band ← buildConvexPolytope ⟨2, [[1, 0], [-1, 0]]⟩ [Pmax, -Pmin]
  let cf ← normalizedCost coeffP coeffPsquared
  pure
    { pQProfile := some (.intersection none [disk Srated, band])
      beliefFunction := some (.singleton none [.var none "P", .var none "Q"])
      costFunction := some cf
      implementedSetpoint := [Pimp, Qimp] }

/-- `_PVAdvertisement`. -/
def pVAdvertisement (Srated Pmax Pdelta tanPhi a_pv b_pv Pimp Qimp : R) :
    m (Advertisement R) := do
  -- the triangular shape, parameterized by Pmax and +/- tanPhi
  let triangle ← buildConvexPolytope ⟨2, [[1, 0], [-tanPhi, 1], [-tanPhi, -1]]⟩ [Pmax, 0, 0]
  let P : Cv.Expr R := .var "P"
  let Q : Cv.Expr R := .var "Q"
  let boundA0 ← Cv.buildRealExpr P
  let boundB0 ← Cv.buildRealExpr (.name "a" (Cv.max (.real 0) (Cv.add P (.real (-Pdelta)))))
  let boundA1 ← Cv.buildRealExpr Q
  let boundB1 ← Cv.buildRealExpr
    (Cv.mul (Cv.sign Q) (Cv.min (Cv.abs Q) (Cv.mul (.ref "a") (.real tanPhi))))
  let Pvar : PolyVar := ⟨"P"⟩
  let Qvar : PolyVar := ⟨"Q"⟩
  let poly ← buildPolynomial ((Pvar.monomial.scale (-a_pv)).add ((Qvar.pow 2).scale b_pv))
  pure
    { pQProfile := some (.intersection none [triangle, disk Srated])
      beliefFunction := some (.rectangle none [(boundA0, boundB0), (boundA1, boundB1)])
      costFunction := some (.polynomial none poly)
      implementedSetpoint := [Pimp, Qimp] }

/-! ### Uncontrollable resources -/

inductive ResourceType where
  | load | generator | bidirectional
  deriving DecidableEq, Repr

/-- `_uncontrollableResource`. -/
def uncontrollableResource (Pexp Qexp Srated dPup dPdown dQup dQdown Pimp Qimp : R)
    (resType : ResourceType) (Pgap : R) : m (Advertisement R) := do
  let P : Cv.Expr R := .var "P"
  let Q : Cv.Expr R := .var "Q"
  -- A: rectangle around (P,Q)
  let boundA0 ← Cv.buildRealExpr (Cv.sub P (.real dPdown))
  let boundB0 ← Cv.buildRealExpr (Cv.add P (.real dPup))
  let boundA1 ← Cv.buildRealExpr (Cv.sub Q (.real dQdown))
  let boundB1 ← Cv.buildRealExpr (Cv.add Q (.real dQup))
  let rect : SetExpr R := .rectangle none [(boundA0, boundB0), (boundA1, boundB1)]
  -- C: optionally positive (generator) or negative (load) halfplane in P
  let halfplane ← if resType ≠ .bidirectional then do
      let set ← buildConvexPolytope ⟨2, [[if resType = .load then 1 else -1, 0]]⟩ [Pgap]
      pure [set]
    else
      pure []
  pure
    { pQProfile := some (.singleton none [.real none Pexp, .real none Qexp])
      beliefFunction := some (.intersection none ([rect, disk Srated] ++ halfplane))
      costFunction := some (.real none 0)
      implementedSetpoint := [Pimp, Qimp] }

/-- `_uncontrollableLoad`. -/
def uncontrollableLoad (Pexp Qexp Srated dPup dPdown dQup dQdown Pimp Qimp : R) :
    m (Advertisement R) :=
  uncontrollableResource Pexp Qexp Srated dPup dPdown dQup dQdown Pimp Qimp .load 0

/-- `_uncontrollableGenerator`. -/
def uncontrollableGenerator (Pexp Qexp Srated dPup dPdown dQup dQdown Pimp Qimp Pgap : R) :
    m (Advertisement R) :=
  uncontrollableResource Pexp Qexp Srated dPup dPdown dQup dQdown Pimp Qimp .generator Pgap

/-! ### Discrete devices -/

def addCase (value leftIntvalBoundary rightIntvalBoundary : R) : SetExpr R × RealExpr R :=
  (.rectangle none [(.real none leftIntvalBoundary, .real none rightIntvalBoundary)],
    .real none value)

namespace ProjBelief

/-- The loop over the sorted points: for each of them the values that are closer to it than
to the next one, and for the last one all values. -/
def cases (error inf : R) : List R → List (SetExpr R × RealExpr R)
  | [] => []
  | [point] => [addCase point (-inf) inf]
  | point :: next :: points =>
    addCase point (-inf) ((point + next) / lit 2 + error) :: cases error inf (next :: points)

/-- `ProjBelief::makeBelief`. -/
def makeBelief (inf : R) (points : List R) (error : R) : m (SetExpr R) := do
  let points := points.mergeSort le
  if points.length = 0 then
    raise (.runtimeError "List of implementable setpoints is empty, which is not allowed.")
  else
    pure (.singleton none
      [.caseDistinction none ["P"] (cases error inf points), .var none "Q"])

end ProjBelief

/-- The three cases that `ZenoneBelief` and `RoundBelief` have in common: outside of the PQ
profile the boundary, else a point of the grid that is aligned to `Pmin`. -/
def roundingCases (inf stepSize error Pmin Pmax : R) :
    m (List (SetExpr R × RealExpr R)) := do
  let P : Cv.Expr R := .var "P"
  let step : Cv.Expr R := .real stepSize
  let err : Cv.Expr R := .real error
  let corr : Cv.Expr R := .real (fmod Pmin stepSize)
  let rounded ← Cv.buildRealExpr
    (Cv.add (Cv.mul step (Cv.round (Cv.div (Cv.sub (Cv.sub P err) corr) step))) corr)
  -- the cases are tried in this order, so the last interval stands for "else"
  pure [addCase Pmin (-inf) (Pmin + error), addCase Pmax (Pmax + error) inf,
    (.rectangle none [(.real none (-inf), .real none inf)], rounded)]

/-- `ZenoneBelief::makeBelief`. -/
def ZenoneBelief.makeBelief (inf stepSize error Pmin Pmax : R) : m (SetExpr R) := do
  let cases ← roundingCases inf stepSize error Pmin Pmax
  let projectedP : Cv.Expr R := .ref "x"
  let Pupperbound ← Cv.buildRealExpr
    (Cv.add (Cv.mul (.real (lit (249 / 250))) projectedP) (.real (lit 100)))
  let Qlowerbound ← Cv.buildRealExpr
    (Cv.sub (Cv.mul (.real (lit (95 / 1000))) projectedP) (.real (lit 150)))
  let Qupperbound ← Cv.buildRealExpr
    (Cv.sub (Cv.mul (.real (lit (9 / 100))) projectedP) (.real (lit 40)))
  pure (.rectangle none
    [(.caseDistinction (some "x") ["P"] cases, Pupperbound), (Qlowerbound, Qupperbound)])

/-- `RoundBelief::makeBelief`. -/
def RoundBelief.makeBelief (inf stepSize error Pmin Pmax : R) : m (SetExpr R) := do
  let cases ← roundingCases inf stepSize error Pmin Pmax
  pure (.singleton none [.caseDistinction none ["P"] cases, .var none "Q"])

/-- `DiscreteDevice::makeAdvertisement`, for a belief policy. -/
def makeAdvertisement (makeBelief : m (SetExpr R)) (Pmin Pmax alpha beta Pimp Qimp : R) :
    m (Advertisement R) := do
  let bf ← makeBelief
  let cf ← normalizedCost beta alpha
  pure
    { pQProfile := some (.rectangle none
        [(.real none Pmin, .real none Pmax), (.real none 0, .real none 0)])
      beliefFunction := some bf
      costFunction := some cf
      implementedSetpoint := [Pimp, Qimp] }

/-- `_realDiscreteDeviceAdvertisement`. -/
def realDiscreteDeviceAdvertisement (inf Pmin Pmax : R) (points : List R)
    (error alpha beta Pimp Qimp : R) : m (Advertisement R) :=
  makeAdvertisement (ProjBelief.makeBelief inf points error) Pmin Pmax alpha beta Pimp Qimp

/-- `_uniformRealDiscreteDeviceAdvertisement`. -/
def uniformRealDiscreteDeviceAdvertisement (inf Pmin Pmax stepSize accumulatedError alpha beta
    Pimp Qimp : R) : m (Advertisement R) :=
  makeAdvertisement (RoundBelief.makeBelief inf stepSize accumulatedError Pmin Pmax)
    Pmin Pmax alpha beta Pimp Qimp

/-- `_zenoneAdvertisement`. -/
def zenoneAdvertisement (inf Pmin Pmax stepSize accumulatedError alpha beta Pimp Qimp : R) :
    m (Advertisement R) :=
  makeAdvertisement (ZenoneBelief.makeBelief inf stepSize accumulatedError Pmin Pmax)
    Pmin Pmax alpha beta Pimp Qimp

end Commelec
